/-
# Espmod.Spi.Cursor — the walk of a cursor through the data buffer

`calcnextbit` walks from one bit position to the next, `converttoendian` says where the walk begins
and where it ends. In little-endian order and with the least significant bit first the two agree: a
phase of `dlen + 1` bits visits `dlen + 1` positions in a row. With the most significant bit first
they agree on the first byte only, since every position `calcnextbit` comes to after that is the last
one of its byte. In big-endian order the first position is -1, the mark of a phase that is over.
-/
import Mathlib.Algebra.Group.Nat.Defs
import Mathlib.Logic.Function.Iterate
import Mathlib.Tactic.Common

namespace Espmod.Spi

/-! ## §1 — positions -/

/-- `calcnextbit`. -/
def calcnextbit (bitpos : BitVec 32) (littleendian msbfirst : Bool) : BitVec 32 :=
  if msbfirst then
    if bitpos &&& 0x7 = 0x0 ∧ littleendian then bitpos + 8
    else if bitpos &&& 0x7 = 0x0 ∧ bitpos &&& 0x18 = 0x0 then bitpos + 63
    else if bitpos &&& 0x7 = 0x0 then bitpos - 1
    else bitpos - 1
  else
    if bitpos &&& 0x7 = 0x7 ∧ littleendian then bitpos + 1
    else if bitpos &&& 0x7 = 0x7 ∧ bitpos &&& 0x18 = 0x0 then bitpos + 48
    else if bitpos &&& 0x7 = 0x7 then bitpos - 15
    else bitpos + 1

/-- `converttoendian`. -/
def converttoendian (littleendian msbfirst : Bool) (pos : BitVec 32) : BitVec 32 :=
  let pos := if msbfirst then (pos &&& ~~~0x7) ||| (7 - (pos &&& 0x7)) else pos
  if littleendian then pos else (pos &&& ~~~0x18) ||| ~~~(pos &&& 0x18)

/-- Where a cursor goes at the end of a cycle. -/
def advance (lastbit : BitVec 32) (littleendian msbfirst : Bool) (bit : BitVec 32) : BitVec 32 :=
  if bit = lastbit then -1 else calcnextbit bit littleendian msbfirst

/-- The cursor after `i` cycles. -/
def posAt (startbit lastbit : BitVec 32) (littleendian msbfirst : Bool) (i : Nat) : BitVec 32 :=
  (advance lastbit littleendian msbfirst)^[i] startbit

/-- The first position of the half of the buffer that a phase uses. -/
def base (highpart : Bool) : Nat := if highpart then 256 else 0

/-- The cursor of a phase of `dlen + 1` bits. -/
def phase (highpart littleendian msbfirst : Bool) (dlen : Nat) : Nat → BitVec 32 :=
  posAt (converttoendian littleendian msbfirst (BitVec.ofNat 32 (base highpart)))
    (converttoendian littleendian msbfirst (BitVec.ofNat 32 (base highpart + dlen)))
    littleendian msbfirst

/-- A phase is over after `n` cycles, and stays over from when it is. -/
def Settles (pos : Nat → BitVec 32) (n : Nat) : Prop :=
  pos n = -1 ∧ ∀ i < n, pos i = -1 → pos (i + 1) = -1

/-! ## §2 — single steps -/

variable {last : BitVec 32} {le msb high : Bool} {dlen n : Nat}

theorem posAt_succ (start : BitVec 32) (i : Nat) :
    posAt start last le msb (i + 1) = advance last le msb (posAt start last le msb i) :=
  Function.iterate_succ_apply' _ i start

/-- A phase that is over begins again, unless it is one without an end. -/
theorem calcnextbit_over (le msb : Bool) : calcnextbit (-1) le msb ≠ -1 := by
  revert le msb
  decide

theorem advance_over : advance last le msb (-1) = -1 ↔ last = -1 := by
  unfold advance
  split
  next h => exact ⟨fun _ => h.symm, fun _ => rfl⟩
  next h => exact ⟨fun hover => absurd hover (calcnextbit_over le msb), fun hl => absurd hl.symm h⟩

/-- The last bit of a byte in the order of the most significant first. -/
theorem and_seven_eq_zero (pos : BitVec 32) : pos &&& 0x7 = 0x0 ↔ pos.toNat % 8 = 0 := by
  rw [← BitVec.toNat_inj, BitVec.toNat_and, show (0x7 : BitVec 32).toNat = 2 ^ 3 - 1 from rfl,
    Nat.and_two_pow_sub_one_eq_mod]
  rfl

theorem calcnextbit_lsb (pos : BitVec 32) : calcnextbit pos true false = pos + 1 := by
  unfold calcnextbit
  by_cases hend : pos &&& 0x7 = 0x7
  · rw [if_neg Bool.false_ne_true, if_pos ⟨hend, rfl⟩]
  · rw [if_neg Bool.false_ne_true, if_neg (fun h => hend h.1), if_neg (fun h => hend h.1),
      if_neg hend]

theorem calcnextbit_msb (pos : BitVec 32) :
    calcnextbit pos true true = if pos.toNat % 8 = 0 then pos + 8 else pos - 1 := by
  unfold calcnextbit
  by_cases hend : pos &&& 0x7 = 0x0
  · rw [if_pos rfl, if_pos ⟨hend, rfl⟩, if_pos ((and_seven_eq_zero pos).mp hend)]
  · rw [if_pos rfl, if_neg (fun h => hend h.1), if_neg (fun h => hend h.1), if_neg hend,
      if_neg (fun h => hend ((and_seven_eq_zero pos).mpr h))]

/-- The start and the end of a phase with the most significant bit first. -/
theorem converttoendian_msb {p : Nat} (h : p < 768) :
    converttoendian true true (BitVec.ofNat 32 p) = BitVec.ofNat 32 (p / 8 * 8 + (7 - p % 8)) := by
  revert p
  decide +kernel

/-- In big-endian order a position of the first byte of a word becomes -1. -/
theorem converttoendian_big {p : Nat} (h : p < 768) (msb : Bool) :
    converttoendian false msb (BitVec.ofNat 32 p) = -1 ↔ p / 8 % 4 = 0 := by
  revert p msb
  decide +kernel

/-! ## §3 — walks -/

/-- A walk that `calcnextbit` follows and that does not come to the last position. -/
theorem posAt_walk {start : BitVec 32} (walk : Nat → Nat) (n : Nat)
    (hstart : start = BitVec.ofNat 32 (walk 0))
    (hstep : ∀ i < n, BitVec.ofNat 32 (walk i) ≠ last ∧
      calcnextbit (BitVec.ofNat 32 (walk i)) le msb = BitVec.ofNat 32 (walk (i + 1))) :
    ∀ i ≤ n, posAt start last le msb i = BitVec.ofNat 32 (walk i) := by
  intro i
  induction i with
  | zero => intro _; exact hstart
  | succ i ih =>
    intro hi
    -- the cursor is where the walk is, which is not at the last position, so it goes on
    rw [posAt_succ, ih (by omega), advance, if_neg (hstep i (by omega)).1]
    exact (hstep i (by omega)).2

/-- Positions that fit are equal when their numbers are. -/
theorem ofNat_ne_ofNat {a b : Nat} (ha : a < 2 ^ 32) (hb : b < 2 ^ 32) (hne : a ≠ b) :
    BitVec.ofNat 32 a ≠ BitVec.ofNat 32 b := by
  intro h
  have hnat := congrArg BitVec.toNat h
  rw [BitVec.toNat_ofNat, BitVec.toNat_ofNat, Nat.mod_eq_of_lt ha, Nat.mod_eq_of_lt hb] at hnat
  exact hne hnat

/-- A position of the walk is not the mark of a phase that is over. -/
theorem ofNat_ne_over {a : Nat} (ha : a < 2 ^ 32 - 1) : BitVec.ofNat 32 a ≠ -1 :=
  ofNat_ne_ofNat (Nat.lt_of_lt_of_le ha (Nat.sub_le _ _)) (by decide) (Nat.ne_of_lt ha)

theorem base_cases (high : Bool) : base high = 0 ∨ base high = 256 := by
  cases high
  · exact Or.inl rfl
  · exact Or.inr rfl

theorem posAt_last {start : BitVec 32} {i : Nat} (h : posAt start last le msb i = last) :
    posAt start last le msb (i + 1) = -1 := by
  rw [posAt_succ, h, advance, if_pos rfl]

/-- The position of bit `i` of a phase. -/
def place (highpart msbfirst : Bool) (i : Nat) : Nat :=
  if msbfirst then base highpart + 7 - i else base highpart + i

/-- The last position of a phase with the most significant bit first. -/
theorem last_msb (high : Bool) (hlen : dlen < 512) :
    converttoendian true true (BitVec.ofNat 32 (base high + dlen)) =
      BitVec.ofNat 32 (base high + dlen / 8 * 8 + (7 - dlen % 8)) := by
  have hbase := base_cases high
  rw [converttoendian_msb (by omega)]
  congr 1
  omega

/-- The first one is the top of the first byte. -/
theorem first_msb (high : Bool) :
    converttoendian true true (BitVec.ofNat 32 (base high)) = BitVec.ofNat 32 (base high + 7) := by
  have hbase := base_cases high
  rw [converttoendian_msb (by omega)]
  congr 1
  omega

/-- **A phase that ends**: with the least significant bit first, or within one byte, the cursor visits
a position for each bit and is over after the last. -/
theorem phase_short (high : Bool) (hlen : dlen < 512) (hshort : msb = true → dlen ≤ 7) :
    (∀ i ≤ dlen, phase high true msb dlen i = BitVec.ofNat 32 (place high msb i)) ∧
      phase high true msb dlen (dlen + 1) = -1 := by
  have hbase := base_cases high
  cases msb with
  | false =>
    have hwalk : ∀ i ≤ dlen, phase high true false dlen i = BitVec.ofNat 32 (base high + i) := by
      refine posAt_walk (fun i => base high + i) dlen rfl fun i hi => ⟨?_, ?_⟩
      · exact ofNat_ne_ofNat (by omega) (by omega) (by omega)
      · rw [calcnextbit_lsb, ← Nat.add_assoc, BitVec.ofNat_add _ 1]
        rfl
    exact ⟨hwalk, posAt_last (hwalk dlen (Nat.le_refl dlen))⟩
  | true =>
    -- down from the top of the byte, all of it before the first jump of `calcnextbit`
    have hshort := hshort rfl
    have hlast := last_msb high hlen
    have hwalk : ∀ i ≤ dlen, phase high true true dlen i = BitVec.ofNat 32 (base high + 7 - i) := by
      refine posAt_walk (fun i => base high + 7 - i) dlen ?_ fun i hi => ⟨?_, ?_⟩
      · exact first_msb high
      · rw [hlast]
        exact ofNat_ne_ofNat (by omega) (by omega) (by omega)
      · rw [calcnextbit_msb, BitVec.toNat_ofNat, if_neg (by omega)]
        apply BitVec.eq_of_toNat_eq
        simp
        omega
    have hplace : base high + 7 - dlen = base high + dlen / 8 * 8 + (7 - dlen % 8) := by omega
    refine ⟨hwalk, posAt_last ?_⟩
    rw [hlast, ← hplace]
    exact (congrArg (posAt _ · true true dlen) (hlast.trans (by rw [hplace]))).symm.trans
      (hwalk dlen (Nat.le_refl dlen))

/-- The walk with the most significant bit first: down the first byte, then from one byte to the next
without leaving bit 0. -/
def walkMsb (highpart : Bool) (i : Nat) : Nat :=
  if i ≤ 7 then base highpart + 7 - i else base highpart + 8 * (i - 7)

theorem phase_walkMsb (high : Bool) (hlen : dlen < 512) (n : Nat) (hn : n < 1000)
    (hmiss : ∀ i < n, walkMsb high i ≠ base high + dlen / 8 * 8 + (7 - dlen % 8)) :
    ∀ i ≤ n, phase high true true dlen i = BitVec.ofNat 32 (walkMsb high i) := by
  have hbase := base_cases high
  have hlast := last_msb high hlen
  have hfit : ∀ i ≤ n, walkMsb high i < 2 ^ 32 := by
    intro i hi
    unfold walkMsb
    split <;> omega
  refine posAt_walk (walkMsb high) n ?_ fun i hi => ⟨?_, ?_⟩
  · exact first_msb high
  · rw [hlast]
    exact ofNat_ne_ofNat (hfit i (Nat.le_of_lt hi)) (by omega) (hmiss i hi)
  · rw [calcnextbit_msb, BitVec.toNat_ofNat, Nat.mod_eq_of_lt (hfit i (Nat.le_of_lt hi))]
    by_cases hin : i < 7
    · have hthis : walkMsb high i = base high + 7 - i := if_pos (by omega)
      have hnext : walkMsb high (i + 1) = base high + 7 - (i + 1) := if_pos (by omega)
      rw [if_neg (by omega), hthis, hnext]
      apply BitVec.eq_of_toNat_eq
      simp
      omega
    · -- from the end of a byte `calcnextbit` jumps to the end of the next one, not to its top
      have hthis : walkMsb high i = base high + 8 * (i - 7) := by
        unfold walkMsb
        split <;> omega
      have hnext : walkMsb high (i + 1) = walkMsb high i + 8 := by
        rw [hthis]
        unfold walkMsb
        rw [if_neg (by omega)]
        omega
      rw [if_pos (by omega), hnext, BitVec.ofNat_add]
      rfl

/-- **A phase of whole bytes** with the most significant bit first: the cursor meets the end of the last
byte after one step for each byte, and eight for the first. -/
theorem phase_full (high : Bool) (hlen : dlen < 512) (hlong : 7 < dlen) (hfull : dlen % 8 = 7) :
    (∀ i < 8 + dlen / 8, phase high true true dlen i ≠ -1) ∧
      phase high true true dlen (8 + dlen / 8) = -1 := by
  have hbase := base_cases high
  have hlast := last_msb high hlen
  have hwalk := phase_walkMsb high hlen (7 + dlen / 8) (by omega) (fun i hi => by
    unfold walkMsb
    split <;> omega)
  constructor
  · intro i hi
    rw [hwalk i (by omega)]
    refine ofNat_ne_over ?_
    unfold walkMsb
    split <;> omega
  · rw [show 8 + dlen / 8 = 7 + dlen / 8 + 1 by omega]
    refine posAt_last ((hwalk _ (Nat.le_refl _)).trans (hlast.trans ?_).symm)
    congr 1
    unfold walkMsb
    rw [if_neg (by omega)]
    omega

/-! ## §4 — phases that settle -/

/-- A phase that begins over stays so if its last position is -1. -/
theorem posAt_over (i : Nat) : posAt (-1) (-1) le msb i = -1 := by
  induction i with
  | zero => rfl
  | succ i ih => rw [posAt_succ, ih]; exact advance_over.mpr rfl

/-- A phase that is off, or begins over, settles only if its last position is -1. -/
theorem settles_over (hn : 0 < n) : Settles (posAt (-1) last le msb) n ↔ last = -1 := by
  constructor
  · rintro ⟨_, hrest⟩
    have hone := hrest 0 hn rfl
    rw [posAt_succ] at hone
    exact advance_over.mp hone
  · rintro rfl
    exact ⟨posAt_over n, fun i _ _ => posAt_over (i + 1)⟩

/-- The first position in big-endian order. -/
theorem start_big (high msb : Bool) :
    converttoendian false msb (BitVec.ofNat 32 (base high)) = -1 := by
  have hbase := base_cases high
  exact (converttoendian_big (by omega) msb).mpr (by omega)

theorem last_big (high msb : Bool) (hlen : dlen < 512) :
    converttoendian false msb (BitVec.ofNat 32 (base high + dlen)) = -1 ↔ dlen / 8 % 4 = 0 := by
  have hbase := base_cases high
  rw [converttoendian_big (by omega)]
  omega

/-- A phase is over for the first time where its cursor comes to the last position, and if that is
before the end the cursor starts again. -/
theorem Settles.eq_of_first {start : BitVec 32} {k : Nat} (h : Settles (posAt start last le msb) n)
    (hlast : last ≠ -1) (hk : posAt start last le msb k = -1) : n ≤ k := by
  by_contra hlt
  have hnext := h.2 k (Nat.lt_of_not_le hlt) hk
  rw [posAt_succ, hk] at hnext
  exact hlast (advance_over.mp hnext)

/-- **Settling**: of a transfer that takes at least as long, a little-endian phase is over at the end
and not before exactly if it takes as long as the transfer and does not leave the first byte with the
most significant bit first. -/
theorem settles_little (hlen : dlen < 512) (hle : dlen < n) (hn : n < 1000) :
    Settles (phase high true msb dlen) n ↔ n = dlen + 1 ∧ (msb = true → dlen ≤ 7) := by
  have hbase := base_cases high
  constructor
  · intro h
    by_cases hshort : msb = true → dlen ≤ 7
    · obtain ⟨hwalk, hover⟩ := phase_short high hlen hshort
      refine ⟨?_, hshort⟩
      have hn := h.eq_of_first ?_ hover
      · omega
      · cases msb with
        | false => exact ofNat_ne_over (by omega)
        | true => rw [last_msb high hlen]; exact ofNat_ne_over (by omega)
    · obtain ⟨rfl, hlong⟩ : msb = true ∧ 7 < dlen := by
        cases msb <;> simp_all
      exfalso
      have hlast := last_msb high hlen
      by_cases hfull : dlen % 8 = 7
      · have hn := h.eq_of_first (by rw [hlast]; exact ofNat_ne_over (by omega))
          (phase_full high hlen hlong hfull).2
        omega
      · -- the last position is not at the end of a byte, and the cursor only visits ends of bytes
        have hwalk := phase_walkMsb high hlen n hn (fun i hi => by
          unfold walkMsb
          split <;> omega)
        have hover := (hwalk n (Nat.le_refl n)).symm.trans h.1
        refine ofNat_ne_over ?_ hover
        unfold walkMsb
        split <;> omega
  · rintro ⟨rfl, hshort⟩
    obtain ⟨hwalk, hover⟩ := phase_short high hlen hshort
    refine ⟨hover, fun i hi hi' => absurd hi' ?_⟩
    rw [hwalk i (by omega)]
    refine ofNat_ne_over ?_
    unfold place
    split <;> omega

end Espmod.Spi
