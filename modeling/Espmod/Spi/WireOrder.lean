/-
# Espmod.Spi.WireOrder — bytes on the wire

A byte transfer should drive the bits of its buffer on `d_o`, each byte in the bit order of the bus and
with one clock cycle for each bit, store in `out` the bits it samples on `q_i` in the same order, and
with `q_i` tied to `d_o` give its buffer back. It does all of it for one byte or with the least
significant bit first, except that the module drives a bit and samples the line at the same point of
the cycle, before the new level is there: tied to `d_o` it samples the bit before. `wire_order` says
exactly for which buffers and delay modes that does not show.
-/
import Espmod.Spi.Driver

namespace Espmod.Spi

open Espmod.Lib
open Espmod.Pcnt (Field rdfield)

/-! ## §1 — bits of a buffer -/

/-- The place in its byte of the `k`th bit on the wire. -/
def order (msbfirst : Bool) (k : Nat) : Nat := if msbfirst then 7 - k else k

/-- The bits of a byte in the order of the wire. -/
def byteBits (msbfirst : Bool) (b : BitVec 8) : List Bool :=
  (List.range 8).map fun k => b.getLsbD (order msbfirst k)

/-- The bits of a buffer in the order of the wire. -/
def bits (msbfirst : Bool) (data : List (BitVec 8)) : List Bool := data.flatMap (byteBits msbfirst)

variable {msb : Bool}

theorem order_lt {k : Nat} (h : k < 8) : order msb k < 8 := by
  unfold order
  split <;> omega

theorem order_order {k : Nat} (h : k < 8) : order msb (order msb k) = k := by
  unfold order
  split <;> omega

@[simp] theorem byteBits_length (b : BitVec 8) : (byteBits msb b).length = 8 := by
  simp [byteBits]

theorem byteBits_injective {a b : BitVec 8} (h : byteBits msb a = byteBits msb b) : a = b := by
  apply BitVec.eq_of_getLsbD_eq
  intro k hk
  have hget := (List.map_inj_left.mp h) (order msb k) (List.mem_range.mpr (order_lt hk))
  rwa [order_order hk] at hget

@[simp] theorem bits_length (data : List (BitVec 8)) : (bits msb data).length = 8 * data.length := by
  induction data with
  | nil => rfl
  | cons b data ih =>
    rw [bits, List.flatMap_cons, List.length_append, byteBits_length, ← bits, ih, List.length_cons]
    omega

theorem bits_append (a b : List (BitVec 8)) : bits msb (a ++ b) = bits msb a ++ bits msb b :=
  List.flatMap_append

/-- A buffer is given by its bits. -/
theorem bits_injective : ∀ {a b : List (BitVec 8)}, bits msb a = bits msb b → a = b := by
  intro a
  induction a with
  | nil =>
    intro b h
    have hlen := congrArg List.length h
    rw [bits_length, bits_length, List.length_nil] at hlen
    exact (List.eq_nil_of_length_eq_zero (by omega)).symm
  | cons x a ih =>
    intro b h
    cases b with
    | nil =>
      have hlen := congrArg List.length h
      rw [bits_length, bits_length, List.length_nil, List.length_cons] at hlen
      omega
    | cons y b =>
      obtain ⟨hbyte, hrest⟩ := List.append_inj h (by simp)
      rw [byteBits_injective hbyte, ih hrest]

/-- The bits of a buffer, one by one. -/
theorem bits_eq (data : List (BitVec 8)) :
    bits msb data = (List.range (8 * data.length)).map fun j =>
      (data.getD (j / 8) 0).getLsbD (order msb (j % 8)) := by
  induction data with
  | nil => rfl
  | cons b data ih =>
    have hsplit : 8 * (b :: data).length = 8 + 8 * data.length := by
      rw [List.length_cons]
      omega
    rw [hsplit, List.range_add, List.map_append, List.map_map]
    refine congrArg₂ (· ++ ·) (List.map_congr_left fun k hk => ?_) (ih.trans ?_)
    · have hk := List.mem_range.mp hk
      rw [Nat.div_eq_of_lt hk, Nat.mod_eq_of_lt hk]
      rfl
    · refine List.map_congr_left fun j _ => ?_
      rw [Function.comp_apply, Nat.add_div_left j (by omega), Nat.add_mod_left]
      rfl

/-! ## §2 — bytes in words -/

/-- A bit of a packed word. -/
theorem getLsbD_wordOf (l : List (BitVec 8)) (i : Nat) {k : Nat} (h : k < 32) :
    (wordOf l i).getLsbD k = (l.getD (4 * i + k / 8) 0).getLsbD (k % 8) := by
  unfold wordOf
  rw [BitVec.getLsbD_append, BitVec.getLsbD_append, BitVec.getLsbD_append]
  by_cases h0 : k < 8
  · rw [if_pos h0, Nat.div_eq_of_lt h0, Nat.mod_eq_of_lt h0, Nat.add_zero]
  by_cases h1 : k < 16
  · rw [if_neg h0, if_pos (by omega), show k / 8 = 1 by omega, show k % 8 = k - 8 by omega]
  by_cases h2 : k < 24
  · rw [if_neg h0, if_neg (by omega), if_pos (by omega), show k / 8 = 2 by omega,
      show k % 8 = k - 8 - 8 by omega]
  · rw [if_neg h0, if_neg (by omega), if_neg (by omega), show k / 8 = 3 by omega,
      show k % 8 = k - 8 - 8 - 8 by omega]

/-- A bit of a byte of the data buffer. -/
theorem getLsbD_byteAt (buf : Int → BitVec 32) (j : Nat) {r : Nat} (h : r < 8) :
    (byteAt buf j).getLsbD r = bitAt buf (8 * j + r) := by
  unfold byteAt bitAt
  rw [BitVec.getLsbD_extractLsb', decide_eq_true h, Bool.true_and,
    show (8 * j + r) / 32 = j / 4 by omega, show (8 * j + r) % 32 = 8 * (j % 4) + r by omega]

namespace SpiMod

/-- A bit of the data buffer of a chunk. -/
theorem bitAt_load (l : List (BitVec 8)) {n : Nat} (s : SpiMod) {j r : Nat} (hj : j < n)
    (hr : r < 8) : bitAt (s.load l n).dataBuf (8 * j + r) = (l.getD j 0).getLsbD r := by
  have hword : (0 : Int) ≤ ((8 * j + r) / 32 : Nat) ∧
      (((8 * j + r) / 32 : Nat) : Int) < ((n + 3) / 4 : Nat) := by omega
  unfold bitAt
  rw [load_dataBuf, if_pos hword, Int.toNat_natCast, getLsbD_wordOf l _ (Nat.mod_lt _ (by omega))]
  rw [show 4 * ((8 * j + r) / 32) + (8 * j + r) % 32 / 8 = j by omega,
    show (8 * j + r) % 32 % 8 = r by omega]

/-! ## §3 — the property -/

/-- **Bytes on the wire**: the transfer ends, `d_o` has the bits of the buffer, `out` has the bits of
`q_i`, and with `q_i` tied to `d_o` it is the buffer. -/
structure WireOrder (s : SpiMod) (data : List (BitVec 8)) : Prop where
  ends : ∀ q, ∃ fuel, (s.spiTransferBytes q fuel (some data) data.length).isSome
  drives : ∀ q fuel r, s.spiTransferBytes q fuel (some data) data.length = some r →
    r.beats.map Prod.fst = bits s.wrMsb data
  stores : ∀ q fuel r, s.spiTransferBytes q fuel (some data) data.length = some r →
    bits s.wrMsb r.out = r.beats.map Prod.snd ∧ r.out.length = data.length
  echoes : ∀ fuel r, s.spiTransferBytes loopback fuel (some data) data.length = some r →
    r.out = data

/-! ## §4 — the cycles of a chunk -/

/-- The clock cycles that a chunk of `n` bytes takes. -/
def chunkCycles (msbfirst : Bool) (n : Nat) : Nat :=
  if msbfirst = true ∧ 2 ≤ n then n + 7 else 8 * n

theorem chunkCycles_pos (msb : Bool) {n : Nat} (h : 0 < n) : 0 < chunkCycles msb n := by
  unfold chunkCycles
  split <;> omega

variable {q : Wiring} {s : SpiMod} {n fuel : Nat} {r : Transfer} {data : List (BitVec 8)}

/-- Both cursors of a chunk walk the same way. -/
theorem load_cursors (hs : s.Ready) (hn : n ≤ 64) (l : List (BitVec 8)) :
    (s.load l n).wrAt = phase false true s.wrMsb (n * 8 - 1) ∧
      (s.load l n).rdAt = phase false true s.wrMsb (n * 8 - 1) := by
  have hlen : (BitVec.ofNat 32 (n * 8 - 1)).toNat = n * 8 - 1 := by
    rw [BitVec.toNat_ofNat]
    omega
  have hmosi : (s.load l n).mosiHigh = false ∧ (s.load l n).wrLittle = true :=
    ⟨hs.mosiLow, hs.wrLittle⟩
  have hmiso : (s.load l n).misoHigh = false ∧ (s.load l n).rdLittle = true ∧
      (s.load l n).rdMsb = s.wrMsb := ⟨hs.misoLow, hs.rdLittle, hs.order⟩
  constructor
  · rw [wrAt_on (s.load l n) hs.mosiOn, hmosi.1, hmosi.2]
    show phase false true s.wrMsb (BitVec.ofNat 32 (n * 8 - 1)).toNat = _
    rw [hlen]
  · rw [rdAt_on (s.load l n) hs.misoOn, hmiso.1, hmiso.2.1, hmiso.2.2]
    show phase false true s.wrMsb (BitVec.ofNat 32 (n * 8 - 1)).toNat = _
    rw [hlen]

/-- The phases of a chunk are over after its cycles for the first time. -/
theorem chunk_over (msb : Bool) (hpos : 0 < n) (hn : n ≤ 64) :
    (∀ i < chunkCycles msb n, phase false true msb (n * 8 - 1) i ≠ -1) ∧
      phase false true msb (n * 8 - 1) (chunkCycles msb n) = -1 := by
  unfold chunkCycles
  by_cases hlong : msb = true ∧ 2 ≤ n
  · obtain ⟨rfl, hlong⟩ := hlong
    rw [if_pos ⟨rfl, hlong⟩, show n + 7 = 8 + (n * 8 - 1) / 8 by omega]
    exact phase_full false (by omega) (by omega) (by omega)
  · have hshort : msb = true → n * 8 - 1 ≤ 7 := fun h => by
      have hone : ¬ 2 ≤ n := fun h2 => hlong ⟨h, h2⟩
      omega
    obtain ⟨hwalk, hover⟩ := phase_short false (show n * 8 - 1 < 512 by omega) hshort
    rw [if_neg hlong, show 8 * n = n * 8 - 1 + 1 by omega]
    refine ⟨fun i hi => ?_, hover⟩
    rw [hwalk i (by omega)]
    refine ofNat_ne_over ?_
    unfold place base
    split <;> simp <;> omega

/-- The `usr` bit during a chunk. -/
theorem chunk_usr (hs : s.Ready) (hpos : 0 < n) (hn : n ≤ 64) (l : List (BitVec 8)) :
    (∀ i < chunkCycles s.wrMsb n, ((s.load l n).after q i).usr = true) ∧
      ((s.load l n).after q (chunkCycles s.wrMsb n)).usr = false := by
  obtain ⟨hwr, hrd⟩ := load_cursors hs hn l
  obtain ⟨hon, hover⟩ := chunk_over s.wrMsb hpos hn
  constructor
  · intro i hi
    rw [usr_after, hwr]
    exact fun j _ hle hboth => hon j (by omega) hboth.1
  · rw [Bool.eq_false_iff, Ne, usr_after, hwr, hrd]
    exact fun h => h _ (chunkCycles_pos _ hpos) (Nat.le_refl _) ⟨hover, hover⟩

theorem transferBytes_eq (hn : n ≤ 64) :
    s.transferBytes q fuel (some data) n =
      (runTransfer q fuel (s.load (data.take n) n).start).map fun r =>
        ⟨r.1, r.2, (List.range n).map (byteAt r.1.dataBuf)⟩ := by
  unfold transferBytes
  rw [if_neg (Nat.not_lt.mpr hn)]

/-- What a chunk that ends has done. -/
structure Chunk (q : Wiring) (s : SpiMod) (data : List (BitVec 8)) (n : Nat) (r : Transfer) : Prop where
  state : r.state = (s.load (data.take n) n).after q (chunkCycles s.wrMsb n)
  beats : r.beats = (List.range (chunkCycles s.wrMsb n)).map fun i =>
    (((s.load (data.take n) n).after q (i + 1)).dO.next,
      ((s.load (data.take n) n).after q (i + 1)).bitreceived)
  out : r.out = (List.range n).map (byteAt r.state.dataBuf)

theorem transferBytes_chunk (hs : s.Ready) (hpos : 0 < n) (hn : n ≤ 64)
    (h : s.transferBytes q fuel (some data) n = some r) : Chunk q s data n r := by
  rw [transferBytes_eq hn] at h
  obtain ⟨⟨s', beats⟩, hrun, rfl⟩ := Option.map_eq_some_iff.mp h
  obtain ⟨hlast, hlenpos, hlow, hhigh, hbeats⟩ := runTransfer_spec hrun
  obtain ⟨hon, hoff⟩ := chunk_usr (q := q) hs hpos hn (data.take n)
  -- the run ends with the first cycle that lowers `usr`, and so do the phases
  have hlen : beats.length = chunkCycles s.wrMsb n := by
    rcases Nat.lt_trichotomy beats.length (chunkCycles s.wrMsb n) with hlt | heq | hgt
    · have husr := hon _ hlt
      rw [after, ← hlast, hlow] at husr
      exact absurd husr Bool.false_ne_true
    · exact heq
    · have husr := hhigh _ (chunkCycles_pos _ hpos) hgt
      exact absurd (hoff.symm.trans husr) Bool.false_ne_true
  refine ⟨?_, ?_, rfl⟩
  · rw [← hlen]
    exact hlast
  · rw [← hlen]
    refine List.ext_getElem (by simp) fun i hi _ => ?_
    rw [hbeats i hi, List.getElem_map, List.getElem_range]
    rfl

/-- A chunk ends if it is given enough cycles. -/
theorem transferBytes_ends (hs : s.Ready) (hpos : 0 < n) (hn : n ≤ 64) :
    (s.transferBytes q 512 (some data) n).isSome := by
  have hcycles : chunkCycles s.wrMsb n ≤ 512 := by
    unfold chunkCycles
    split <;> omega
  rw [transferBytes_eq hn, Option.isSome_map]
  exact runTransfer_ends (chunkCycles_pos _ hpos) hcycles (chunk_usr hs hpos hn (data.take n)).2

/-! ## §5 — the bits of a chunk -/

/-- A chunk whose cursors walk from bit to bit visits the bits of its bytes in order. -/
theorem place_order (hshort : msb = true → n ≤ 1) {i : Nat} (hi : i < 8 * n) :
    place false msb i = 8 * (i / 8) + order msb (i % 8) := by
  unfold place order base
  cases msb with
  | false => simp; omega
  | true =>
    have hone := hshort rfl
    simp
    omega

theorem place_lt (hn : n ≤ 64) (hshort : msb = true → n ≤ 1) {i : Nat} (hi : i < 8 * n) :
    place false msb i < 512 := by
  have horder : order msb (i % 8) < 8 := order_lt (Nat.mod_lt _ (by omega))
  rw [place_order hshort hi]
  omega

theorem place_inj (hshort : msb = true → n ≤ 1) {i j : Nat} (hi : i < 8 * n) (hj : j < 8 * n)
    (h : place false msb i = place false msb j) : i = j := by
  unfold place base at h
  cases msb with
  | false => simpa using h
  | true =>
    have hone := hshort rfl
    simp at h
    omega

/-- The cursors of a chunk whose cursors walk from bit to bit. -/
theorem chunk_cursors (hs : s.Ready) (hn : n ≤ 64) (hshort : s.wrMsb = true → n ≤ 1)
    (l : List (BitVec 8)) {i : Nat} (hi : i < 8 * n) :
    ((s.load l n).after q i).bit = BitVec.ofNat 32 (place false s.wrMsb i) ∧
      ((s.load l n).after q i).bitrd = BitVec.ofNat 32 (place false s.wrMsb i) := by
  have hr := reached (s.load l n) q i
  obtain ⟨hwr, hrd⟩ := load_cursors hs hn l
  have hlen : s.wrMsb = true → n * 8 - 1 ≤ 7 := fun h => by
    have hone := hshort h
    omega
  have hwalk := (phase_short false (show n * 8 - 1 < 512 by omega) hlen).1 i (by omega)
  rw [hr.bit, hr.bitrd, hwr, hrd]
  exact ⟨hwalk, hwalk⟩

/-- **The data buffer of a chunk** before cycle `i`: what has been sampled is in the places of the
bits before, and the places from there on are as the driver loaded them. -/
theorem chunk_data (hs : s.Ready) (hn : n ≤ 64) (hshort : s.wrMsb = true → n ≤ 1)
    (l : List (BitVec 8)) {i : Nat} (hi : i ≤ 8 * n) : ∀ j < 8 * n,
      bitAt ((s.load l n).after q i).dataBuf (place false s.wrMsb j) =
        if j < i then ((s.load l n).after q (j + 1)).bitreceived
        else bitAt (s.load l n).dataBuf (place false s.wrMsb j) := by
  induction i with
  | zero =>
    intro j _
    obtain ⟨_, _, _, _, _, hwr⟩ := setupwr_cases (s.load l n).setupdelays
    obtain ⟨_, _, _, _, hrd⟩ := setuprd_cases (s.load l n).setupdelays.setupwr
    rw [if_neg (Nat.not_lt_zero j)]
    show bitAt (s.load l n).setupmaster.dataBuf _ = _
    unfold setupmaster
    rw [hrd, hwr]
    rfl
  | succ i ih =>
    intro j hj
    have hbitrd := (chunk_cursors (q := q) hs hn hshort l hi).2
    have hplace := place_lt hn hshort hi
    have hdelay : ((s.load l n).after q i).precycrd = 0 := by
      rw [(reached (s.load l n) q i).precycrd, show (s.load l n).misoDelay = 0 from hs.misoDelay,
        Nat.zero_sub]
    obtain ⟨dO, hcycle⟩ := cycle_cases q ((s.load l n).after q i)
    have hover : BitVec.ofNat 32 (place false s.wrMsb i) ≠ -1 := ofNat_ne_over (by omega)
    have hstore : ((s.load l n).after q (i + 1)).dataBuf =
        put ((s.load l n).after q i).dataBuf (BitVec.ofNat 32 (place false s.wrMsb i))
          ((s.load l n).after q (i + 1)).bitreceived := by
      rw [after_succ, hcycle]
      simp only
      rw [hbitrd, if_pos ⟨hover, hdelay⟩]
    rw [hstore, bitAt_put (by omega), ih (by omega) j hj]
    -- the sample of cycle `i` goes to its own place and to no other
    by_cases hji : j = i
    · rw [if_pos (by rw [hji]), if_pos (by omega), hji]
    · rw [if_neg (fun h => hji (place_inj hshort hj hi h))]
      by_cases hlt : j < i
      · rw [if_pos hlt, if_pos (by omega)]
      · rw [if_neg hlt, if_neg (by omega)]

/-- The bit that a cycle drives. -/
theorem chunk_driven (hs : s.Ready) (hn : n ≤ 64) (hshort : s.wrMsb = true → n ≤ 1)
    (l : List (BitVec 8)) {i : Nat} (hi : i < 8 * n) :
    ((s.load l n).after q (i + 1)).dO.next =
      bitAt (s.load l n).dataBuf (place false s.wrMsb i) := by
  have hbit := (chunk_cursors (q := q) hs hn hshort l hi).1
  have hplace := place_lt hn hshort hi
  have hover : BitVec.ofNat 32 (place false s.wrMsb i) ≠ -1 := ofNat_ne_over (by omega)
  have hdelay : ((s.load l n).after q i).precycwr = 0 := by
    rw [(reached (s.load l n) q i).precycwr, show (s.load l n).mosiDelay = 0 from hs.mosiDelay,
      Nat.zero_sub]
  have hpoint := (keeps_after q (s.load l n) i).2.1
  rw [after_succ, cycle_driven (by rw [hpoint]; exact getdly_le _ _)]
  unfold bittosend
  rw [hbit, hdelay, if_neg (by simpa using hover), and_maskOf (by omega),
    chunk_data hs hn hshort l (Nat.le_of_lt hi) i hi, if_neg (Nat.lt_irrefl i)]

/-- A chunk drives the bits of its bytes. -/
theorem Chunk.drives (hr : Chunk q s data n r) (hs : s.Ready) (hn : n ≤ 64)
    (hshort : s.wrMsb = true → n ≤ 1) (hdata : n ≤ data.length) :
    r.beats.map Prod.fst = bits s.wrMsb (data.take n) := by
  have hcycles : chunkCycles s.wrMsb n = 8 * n :=
    if_neg fun h => by have hone := hshort h.1; omega
  rw [hr.beats, hcycles, bits_eq, List.length_take, Nat.min_eq_left hdata, List.map_map]
  refine List.map_congr_left fun i hi => ?_
  have hi := List.mem_range.mp hi
  rw [Function.comp_apply, chunk_driven hs hn hshort _ hi, place_order hshort hi]
  exact bitAt_load _ s (by omega) (order_lt (Nat.mod_lt _ (by omega)))

/-- A chunk stores the bits it samples. -/
theorem Chunk.stores (hr : Chunk q s data n r) (hs : s.Ready) (hn : n ≤ 64)
    (hshort : s.wrMsb = true → n ≤ 1) :
    bits s.wrMsb r.out = r.beats.map Prod.snd ∧ r.out.length = n := by
  have hcycles : chunkCycles s.wrMsb n = 8 * n :=
    if_neg fun h => by have hone := hshort h.1; omega
  have hlen : r.out.length = n := by
    rw [hr.out, List.length_map, List.length_range]
  refine ⟨?_, hlen⟩
  rw [hr.beats, hcycles, bits_eq, hlen, List.map_map]
  refine List.map_congr_left fun i hi => ?_
  have hi := List.mem_range.mp hi
  have hbyte : r.out.getD (i / 8) 0 = byteAt r.state.dataBuf (i / 8) := by
    rw [hr.out, List.getD_eq_getElem?_getD, List.getElem?_map,
      List.getElem?_range (show i / 8 < n by omega)]
    rfl
  rw [Function.comp_apply, hbyte, getLsbD_byteAt _ _ (order_lt (Nat.mod_lt _ (by omega))),
    ← place_order hshort hi, hr.state, hcycles,
    chunk_data hs hn hshort _ (Nat.le_refl _) i hi, if_pos hi]

/-! ## §6 — the samples of a chunk with the lines tied together -/

theorem Chunk.keeps (hr : Chunk q s data n r) : Keeps s r.state := by
  have hload : Keeps s (s.load (data.take n) n) := ⟨rfl, rfl, rfl⟩
  rw [hr.state]
  exact hload.trans (keeps_after q (s.load (data.take n) n) _).1

theorem load_points (l : List (BitVec 8)) :
    (s.load l n).mosiPoint = s.mosiPoint ∧ (s.load l n).misoPoint = s.misoPoint := ⟨rfl, rfl⟩

/-- With the sample after the bit, every cycle samples what it drives. -/
theorem Chunk.prompt (hr : Chunk loopback s data n r) (hpoint : s.mosiPoint < s.misoPoint) :
    ∀ b ∈ r.beats, b.1 = b.2 := by
  intro b hb
  rw [hr.beats] at hb
  obtain ⟨i, -, rfl⟩ := List.mem_map.mp hb
  obtain ⟨-, hwr, hrd⟩ := keeps_after loopback (s.load (data.take n) n) i
  rw [(load_points _).1] at hwr
  rw [(load_points _).2] at hrd
  have hwrle : s.mosiPoint ≤ 2 := getdly_le _ _
  have hrdle : s.misoPoint ≤ 2 := getdly_le _ _
  simp only
  rw [after_succ, cycle_driven (by omega), cycle_prompt (by omega) (by omega)]

/-- With the sample no later than the bit, a chunk whose cycles drive what they sample, or the level
there was, samples that level all the time. -/
theorem Chunk.late {v : Bool} (hr : Chunk loopback s data n r) (hpoint : s.misoPoint ≤ s.mosiPoint)
    (hv : s.dO.next = v) (hsame : ∀ b ∈ r.beats, b.1 = b.2 ∨ b.1 = v) :
    (∀ b ∈ r.beats, b.2 = v) ∧ r.state.dO.next = v := by
  have hwrle : s.mosiPoint ≤ 2 := getdly_le _ _
  have hsample : ∀ i, ((s.load (data.take n) n).after loopback i).Steady v →
      ((s.load (data.take n) n).after loopback (i + 1)).bitreceived = v := by
    intro i hsteady
    obtain ⟨-, hwr, hrd⟩ := keeps_after loopback (s.load (data.take n) n) i
    rw [(load_points _).1] at hwr
    rw [(load_points _).2] at hrd
    rw [after_succ]
    exact cycle_late (by omega) (by omega) hsteady
  have hall : ∀ i ≤ chunkCycles s.wrMsb n,
      ((s.load (data.take n) n).after loopback i).Steady v := by
    intro i
    induction i with
    | zero =>
      intro _
      show s.dO.update = .init v
      rw [← hv]
      rfl
    | succ i ih =>
      intro hi
      have hsteady := ih (by omega)
      obtain ⟨-, hwr, -⟩ := keeps_after loopback (s.load (data.take n) n) i
      rw [(load_points _).1] at hwr
      have hdriven := cycle_driven (q := loopback) (s := (s.load (data.take n) n).after loopback i)
        (by omega)
      -- the cycle samples the level there was, so that it drives that level in either case
      have hbeat := hsame _ (by rw [hr.beats]; exact List.mem_map_of_mem (List.mem_range.mpr hi))
      rw [hsample i hsteady, or_self, after_succ, hdriven] at hbeat
      rw [after_succ]
      exact cycle_steady hsteady hbeat
  constructor
  · intro b hb
    rw [hr.beats] at hb
    obtain ⟨i, hi, rfl⟩ := List.mem_map.mp hb
    exact hsample i (hall i (Nat.le_of_lt (List.mem_range.mp hi)))
  · have hend := hall _ (Nat.le_refl _)
    rw [hr.state]
    unfold Steady at hend
    rw [hend]
    rfl

/-! ## §7 — whole buffers -/

/-- **Chunk by chunk**: what holds of nothing, and of a chunk and the rest of a buffer if it holds of
the rest, holds of every transfer that ends. A chunk has 64 bytes or is the last one. -/
theorem spiTransferBytes_induction {P : SpiMod → List (BitVec 8) → Transfer → Prop}
    (hnil : ∀ s, P s [] ⟨s, [], []⟩)
    (hcons : ∀ s data n r r', s.Ready → 0 < n → n ≤ 64 → n ≤ data.length →
      n = 64 ∨ n = data.length → Chunk q s data n r → P r.state (data.drop n) r' →
      P s data ⟨r'.state, r.beats ++ r'.beats, r.out ++ r'.out⟩) :
    ∀ (size : Nat) (data : List (BitVec 8)) (s : SpiMod) (r : Transfer), data.length = size →
      s.Ready → s.spiTransferBytes q fuel (some data) size = some r → P s data r := by
  intro size
  induction size using Nat.strongRecOn with
  | ind size ih =>
    intro data s r hlen hs h
    rw [spiTransferBytes] at h
    by_cases hzero : size = 0
    · rw [if_pos hzero] at h
      obtain rfl := Option.some.inj h
      obtain rfl : data = [] := List.eq_nil_of_length_eq_zero (hlen.trans hzero)
      exact hnil s
    · rw [if_neg hzero] at h
      by_cases hbig : size > 64
      · -- a full chunk and the rest
        rw [if_pos hbig] at h
        obtain ⟨r₁, hfirst, hrest⟩ := Option.bind_eq_some_iff.mp h
        obtain ⟨r₂, hnext, rfl⟩ := Option.map_eq_some_iff.mp hrest
        have hchunk := transferBytes_chunk hs (by omega) (Nat.le_refl 64) hfirst
        refine hcons s data 64 r₁ r₂ hs (by omega) (Nat.le_refl 64) (by omega) (Or.inl rfl) hchunk ?_
        exact ih (size - 64) (by omega) _ _ _ (by rw [List.length_drop, hlen])
          (hchunk.keeps.ready hs) hnext
      · -- the last chunk, with nothing after it
        rw [if_neg hbig] at h
        have hchunk := transferBytes_chunk hs (by omega) (by omega) h
        have hlast := hcons s data size r ⟨r.state, [], []⟩ hs (by omega) (by omega) (by omega)
          (Or.inr hlen.symm) hchunk (by
            rw [List.drop_eq_nil_of_le (by omega)]
            exact hnil r.state)
        simpa using hlast

/-- A transfer ends if every chunk is given enough cycles. -/
theorem spiTransferBytes_ends : ∀ (size : Nat) (data : List (BitVec 8)) (s : SpiMod), s.Ready →
    (s.spiTransferBytes q 512 (some data) size).isSome := by
  intro size
  induction size using Nat.strongRecOn with
  | ind size ih =>
    intro data s hs
    rw [spiTransferBytes]
    by_cases hzero : size = 0
    · rw [if_pos hzero]
      rfl
    · rw [if_neg hzero]
      by_cases hbig : size > 64
      · obtain ⟨r, hfirst⟩ := Option.isSome_iff_exists.mp
          (transferBytes_ends (q := q) hs (show 0 < 64 by omega) (Nat.le_refl 64))
        have hchunk := transferBytes_chunk hs (by omega) (Nat.le_refl 64) hfirst
        rw [if_pos hbig, hfirst, Option.bind_some, Option.isSome_map]
        exact ih (size - 64) (by omega) _ _ (hchunk.keeps.ready hs)
      · rw [if_neg hbig]
        exact transferBytes_ends hs (by omega) (by omega)

/-- Without several bytes in the order of the most significant bit first, `d_o` has the bits of the
buffer and `out` those of `q_i`. -/
theorem spiTransferBytes_bits (hs : s.Ready)
    (h : s.spiTransferBytes q fuel (some data) data.length = some r)
    (hshort : s.wrMsb = true → data.length ≤ 1) :
    r.beats.map Prod.fst = bits s.wrMsb data ∧ bits s.wrMsb r.out = r.beats.map Prod.snd ∧
      r.out.length = data.length := by
  refine spiTransferBytes_induction (q := q) (P := fun s data r =>
    (s.wrMsb = true → data.length ≤ 1) → r.beats.map Prod.fst = bits s.wrMsb data ∧
      bits s.wrMsb r.out = r.beats.map Prod.snd ∧ r.out.length = data.length)
    ?_ ?_ data.length data s r rfl hs h hshort
  · exact fun s _ => ⟨rfl, rfl, rfl⟩
  · intro s data n r r' hs _ hn hle _ hr hrest hshort
    have hshort' : s.wrMsb = true → n ≤ 1 := fun hm => Nat.le_trans hle (hshort hm)
    obtain ⟨hout, hlen⟩ := hr.stores hs hn hshort'
    have hrest := hrest (fun hm => by
      rw [hr.keeps.points.1] at hm
      rw [List.length_drop]
      have hone := hshort hm
      omega)
    rw [hr.keeps.points.1, List.length_drop] at hrest
    obtain ⟨hdrives, hstores, hlength⟩ := hrest
    refine ⟨?_, ?_, ?_⟩
    · rw [List.map_append, hr.drives hs hn hshort' hle, hdrives, ← bits_append,
        List.take_append_drop]
    · rw [List.map_append, bits_append, hout, hstores]
    · rw [List.length_append, hlen, hlength]
      omega

/-- With the most significant bit first a buffer of several bytes takes too few cycles. -/
theorem spiTransferBytes_short (hs : s.Ready)
    (h : s.spiTransferBytes q fuel (some data) data.length = some r) (hmsb : s.wrMsb = true) :
    r.beats.length + (if 2 ≤ data.length then 1 else 0) ≤ 8 * data.length := by
  refine spiTransferBytes_induction (q := q) (P := fun s data r => s.wrMsb = true →
    r.beats.length + (if 2 ≤ data.length then 1 else 0) ≤ 8 * data.length)
    ?_ ?_ data.length data s r rfl hs h hmsb
  · exact fun s _ => Nat.le_refl 0
  · intro s data n r r' hs hpos hn hle hlast hr hrest hmsb
    have hrest := hrest (hr.keeps.points.1.trans hmsb)
    have hbeats : r.beats.length = chunkCycles true n := by
      rw [hr.beats, List.length_map, List.length_range, hmsb]
    rw [List.length_drop] at hrest
    rw [List.length_append, hbeats]
    unfold chunkCycles
    by_cases htwo : 2 ≤ n
    · rw [if_pos ⟨rfl, htwo⟩]
      split <;> split at hrest <;> omega
    · -- a chunk of one byte is the last one, and the only one
      rw [if_neg fun h => htwo h.2]
      split <;> split at hrest <;> omega

/-- With the lines tied together and the sample after the bit, `q_i` has the bits of `d_o`. -/
theorem spiTransferBytes_prompt (hs : s.Ready)
    (h : s.spiTransferBytes loopback fuel (some data) data.length = some r)
    (hpoint : s.mosiPoint < s.misoPoint) : ∀ b ∈ r.beats, b.1 = b.2 := by
  refine spiTransferBytes_induction (q := loopback) (P := fun s _ r =>
    s.mosiPoint < s.misoPoint → ∀ b ∈ r.beats, b.1 = b.2)
    ?_ ?_ data.length data s r rfl hs h hpoint
  · exact fun s _ b hb => absurd hb List.not_mem_nil
  · intro s data n r r' _ _ _ _ _ hr hrest hpoint b hb
    obtain ⟨-, hwr, hrd⟩ := hr.keeps.points
    rcases List.mem_append.mp hb with hb | hb
    · exact hr.prompt hpoint b hb
    · exact hrest (by rw [hwr, hrd]; exact hpoint) b hb

/-- With the lines tied together and the sample no later than the bit, a transfer whose cycles drive
what they sample, or the level there was, samples that level all the time. -/
theorem spiTransferBytes_late {v : Bool} (hs : s.Ready)
    (h : s.spiTransferBytes loopback fuel (some data) data.length = some r)
    (hpoint : s.misoPoint ≤ s.mosiPoint) (hv : s.dO.next = v)
    (hsame : ∀ b ∈ r.beats, b.1 = b.2 ∨ b.1 = v) : ∀ b ∈ r.beats, b.2 = v := by
  refine spiTransferBytes_induction (q := loopback) (P := fun s _ r =>
    s.misoPoint ≤ s.mosiPoint → s.dO.next = v → (∀ b ∈ r.beats, b.1 = b.2 ∨ b.1 = v) →
      ∀ b ∈ r.beats, b.2 = v)
    ?_ ?_ data.length data s r rfl hs h hpoint hv hsame
  · exact fun s _ _ _ b hb => absurd hb List.not_mem_nil
  · intro s data n r r' _ _ _ _ _ hr hrest hpoint hv hsame b hb
    obtain ⟨-, hwr, hrd⟩ := hr.keeps.points
    obtain ⟨hfirst, hlevel⟩ := hr.late hpoint hv fun b hb => hsame b (List.mem_append_left _ hb)
    rcases List.mem_append.mp hb with hb | hb
    · exact hfirst b hb
    · exact hrest (by rw [hwr, hrd]; exact hpoint) hlevel
        (fun b hb => hsame b (List.mem_append_right _ hb)) b hb

/-! ## §8 — the exact condition -/

/-- **Bytes are on the wire as they should be** exactly if there are not several in the order of the
most significant bit first, and either the module drives a bit before it samples one or every bit is
the level `d_o` had before. -/
theorem wire_order (s : SpiMod) (hs : s.Ready) (data : List (BitVec 8)) :
    WireOrder s data ↔ (s.wrMsb = true → data.length ≤ 1) ∧
      (s.mosiPoint < s.misoPoint ∨ ∀ b ∈ bits s.wrMsb data, b = s.dO.next) := by
  have hends : ∀ q, (s.spiTransferBytes q 512 (some data) data.length).isSome :=
    fun q => spiTransferBytes_ends data.length data s hs
  constructor
  · intro h
    obtain ⟨r, hr⟩ := Option.isSome_iff_exists.mp (hends loopback)
    have hdrives := h.drives loopback 512 r hr
    refine ⟨fun hmsb => ?_, ?_⟩
    · have hfew := spiTransferBytes_short hs hr hmsb
      have hall := congrArg List.length hdrives
      rw [List.length_map, bits_length] at hall
      by_contra htwo
      rw [if_pos (by omega)] at hfew
      omega
    · by_cases hpoint : s.mosiPoint < s.misoPoint
      · exact Or.inl hpoint
      · -- `out` is the buffer, so that every cycle samples what it drives
        have hsame : r.beats.map Prod.fst = r.beats.map Prod.snd := by
          rw [hdrives, ← (h.stores loopback 512 r hr).1, h.echoes 512 r hr]
        have hsame := List.map_inj_left.mp hsame
        have hlevel := spiTransferBytes_late hs hr (Nat.le_of_not_lt hpoint) rfl
          fun b hb => Or.inl (hsame b hb)
        refine Or.inr fun b hb => ?_
        rw [← hdrives] at hb
        obtain ⟨beat, hbeat, rfl⟩ := List.mem_map.mp hb
        exact (hsame beat hbeat).trans (hlevel beat hbeat)
  · rintro ⟨hshort, hecho⟩
    refine ⟨fun q => ⟨512, hends q⟩, fun q fuel r hr => (spiTransferBytes_bits hs hr hshort).1,
      fun q fuel r hr => (spiTransferBytes_bits hs hr hshort).2, fun fuel r hr => ?_⟩
    obtain ⟨hdrives, hstores, -⟩ := spiTransferBytes_bits hs hr hshort
    have hsame : ∀ b ∈ r.beats, b.2 = b.1 := by
      rcases hecho with hpoint | hlevel
      · exact fun b hb => (spiTransferBytes_prompt hs hr hpoint b hb).symm
      · have hdriven : ∀ b ∈ r.beats, b.1 = s.dO.next := fun b hb =>
          hlevel b.1 (hdrives ▸ List.mem_map_of_mem hb)
        intro b hb
        by_cases hpoint : s.mosiPoint < s.misoPoint
        · exact (spiTransferBytes_prompt hs hr hpoint b hb).symm
        · exact (spiTransferBytes_late hs hr (Nat.le_of_not_lt hpoint) rfl
            (fun b hb => Or.inr (hdriven b hb)) b hb).trans (hdriven b hb).symm
    exact bits_injective (hstores.trans ((List.map_congr_left hsame).trans hdrives))

/-- A bus that sends the least significant bit first, and samples a clock edge after it drives. -/
def lateSample : SpiMod := { new.spiStartBus 0 spiLsbfirst with ctrl2 := 0x20000 }

theorem lateSample_ready : lateSample.Ready := by
  have h := spiStartBus_ready 0 spiLsbfirst new
  exact ⟨h.mosiOn, h.misoOn, h.mosiLow, h.misoLow, h.wrLittle, h.rdLittle, h.order, by decide, by decide,
    h.csHold⟩

/-- Three bytes in order on that bus, and one with the most significant bit first. -/
theorem three_bytes_echoed : lateSample.mosiPoint < lateSample.misoPoint ∧
    WireOrder lateSample [0x80, 0x01, 0xa5] ∧ WireOrder (new.spiStartBus 0 spiMsbfirst) [0x00] := by
  have hlate : lateSample.mosiPoint < lateSample.misoPoint := by decide
  refine ⟨hlate, ?_, ?_⟩
  · exact (wire_order _ lateSample_ready _).mpr ⟨fun hmsb => absurd hmsb (by decide), Or.inl hlate⟩
  · exact (wire_order _ (spiStartBus_ready 0 spiMsbfirst new) [0x00]).mpr
      ⟨fun _ => Nat.le_refl 1, Or.inr (by decide)⟩

/-- Two bytes with the most significant bit first, as `spiStartBus` sets it: the transfer takes nine
cycles. -/
theorem two_bytes_cut : ¬ ∀ s : SpiMod, s.Ready → ∀ data, WireOrder s data := by
  intro h
  have hcycles : ((new.spiStartBus 0 spiMsbfirst).transferBytes loopback 16 (some [0x80, 0x01]) 2).map
      (fun r => r.beats.length) = some 9 := by decide +kernel
  obtain ⟨r, hr, hnine⟩ := Option.map_eq_some_iff.mp hcycles
  have hwire := (h _ (spiStartBus_ready 0 spiMsbfirst new) [0x80, 0x01]).drives loopback 16 r (by
    rw [spiTransferBytes]
    exact hr)
  have hlen := congrArg List.length hwire
  rw [List.length_map, hnine, bits_length] at hlen
  exact absurd hlen (by decide)

end SpiMod

end Espmod.Spi
