/-
# Espmod.I2c.WireReads — what `read` and `peek` return

`requestFrom` clocks its bytes in bit by bit and leaves the bits, as symbols, in `from`; `read` and `peek`
put them together. A new request, or a `beginTransmission`, dumps what is left in `from`. It does not look
at `taken`: a byte that was peeked at and not read waits beside the FIFO, and the next `read` or `peek`
returns it as the first byte of the new request. Nothing else of an earlier request is ever returned.
-/
import Mathlib.Algebra.Group.Nat.Defs
import Mathlib.Data.List.Induction
import Espmod.Lib.Fifo
import Espmod.Lib.Run
import Espmod.I2c.TwoWire

namespace Espmod.I2c

open Espmod.Lib

/-! ## §1 — the library, between the calls -/

/-- Where the caller of `requestFrom` or `beginTransmission` is. -/
inductive ReadPhase where
  /-- in none of the functions -/
  | outside
  /-- in `beginTransmission`, waiting for the answer to the address -/
  | beginning
  /-- in `requestFrom`, waiting for the answer to the address -/
  | addressed (size : BitVec 8) (sendStop : Bool)
  /-- in `requestFrom`, waiting for a bit of a byte -/
  | receiving (size : BitVec 8) (sendStop : Bool) (i bit : Nat)
deriving Repr, DecidableEq

/-- An answer of `read` or `peek`. -/
structure Answer where
  got : Int
  /-- the next byte of the present request, or -1 -/
  expected : Int
  /-- whether it had been peeked at before the present request -/
  old : Bool
deriving Repr, DecidableEq

/-- A `TwoWire` with both of its FIFOs and the look-ahead of `peek`. -/
structure WireReads where
  phase : ReadPhase
  transmitting : Bool
  taken : Bool
  waiting : BitVec 8
  toFifo : Fifo Char
  fromFifo : Fifo Char
  master : Master
  /-- whether `from` has told of data since the caller began to wait -/
  woken : Bool
  /-- history: the bits the master has received since the last `requestFrom` or `beginTransmission` -/
  line : List Bool
  /-- history: how many of their bytes were read -/
  served : Nat
  /-- history: whether the byte in `waiting` was there before the last of them -/
  stale : Bool
  /-- history: what `read` and `peek` have returned -/
  answers : List Answer
  /-- history: what `requestFrom` has returned, and how many bits had been received -/
  returned : List (Nat × Nat)

namespace WireReads

/-- A call, the caller where it waits, the master at a symbol, or the end of a delta cycle. -/
inductive Event where
  | requestFrom (address : BitVec 16) (size : BitVec 8) (sendStop : Bool)
  | beginTransmission (address : BitVec 8)
  | read
  | peek
  | resume
  | symbol (sda : Bool)
  | update
deriving Repr, DecidableEq

/-- Before the first call. -/
def init (rwbit : Bool) : WireReads :=
  ⟨.outside, false, false, 0, .init fifoDepth, .init fifoDepth, ⟨.idle, rwbit, false, false, []⟩, false, [], 0,
    false, [], []⟩

/-- Some bits as a number, the most significant one first. -/
def byteOf (bits : List Bool) : Nat := bits.foldl (fun data b => 2 * data + b.toNat) 0

/-- Whether a byte of the present request is left. -/
def More (s : WireReads) : Prop := 8 * (s.served + 1) ≤ s.line.length

instance (s : WireReads) : Decidable s.More := inferInstanceAs (Decidable (_ ≤ _))

/-- What the next call of `read` or `peek` should return. -/
def expected (s : WireReads) : Int :=
  if s.More then byteOf ((s.line.drop (8 * s.served)).take 8) else -1

/-- A `read` or a `peek` returns. -/
def answer (got : Int) (s : WireReads) : WireReads :=
  { s with answers := s.answers ++ [⟨got, s.expected, s.taken && s.stale⟩] }

/-- A `requestFrom` returns. -/
def ret (value : Nat) (s : WireReads) : WireReads :=
  { s with phase := .outside, returned := s.returned ++ [(value, s.line.length)] }

/-- `while(from->num_available()) from->read()`, and the bytes of the present request are no more. -/
def dump (s : WireReads) : WireReads :=
  { s with
    fromFifo := Fifo.read^[s.fromFifo.numAvailable] s.fromFifo
    line := []
    served := 0
    stale := s.taken }

/-- `writebin` with eight bits. -/
def writebin (data : BitVec 8) (f : Fifo Char) : Fifo Char :=
  if f.numFree < 1 then f else (binary data).foldl Fifo.write f

/-- An address with its direction, and the clock for the answer. -/
def sendAddress (data : BitVec 8) (f : Fifo Char) : Fifo Char := (writebin data (f.write 'S')).write 'Z'

def requestFrom (address : BitVec 16) (size : BitVec 8) (sendStop : Bool) (s : WireReads) : WireReads :=
  let s := s.dump
  if s.fromFifo.numFree < size.toNat * 8 ∨ s.toFifo.numFree < 10 ∨ s.toFifo.numFree < size.toNat * 8 then
    s.ret 0
  else
    { s with
      phase := .addressed size sendStop
      woken := false
      toFifo := sendAddress (((address <<< 1) + 1).setWidth 8) s.toFifo }

def beginTransmission (address : BitVec 8) (s : WireReads) : WireReads :=
  let s := s.dump
  if s.fromFifo.numFree < 1 ∨ s.toFifo.numFree < 10 then s
  else { s with phase := .beginning, toFifo := sendAddress (address <<< 1) s.toFifo }

/-- The loop of `requestFrom` at byte `i`, and what follows the last. -/
def collect (size : BitVec 8) (sendStop : Bool) (i : Nat) (s : WireReads) : WireReads :=
  if i < size.toNat then { s with phase := .receiving size sendStop i 0, toFifo := s.toFifo.write 'Z' }
  else { s with toFifo := if sendStop then (s.toFifo.write 'N').write 'P' else s.toFifo }.ret size.toNat

/-- The caller goes on when there is what it waits for. -/
def resume (s : WireReads) : WireReads :=
  match s.phase with
  | .outside => s
  | .beginning =>
    match s.fromFifo.ready with
    | c :: _ => { s with phase := .outside, transmitting := c = 'A', fromFifo := s.fromFifo.read }
    | [] => s
  | .addressed size sendStop =>
    match s.woken, s.fromFifo.ready with
    | true, c :: _ =>
      let s := { s with woken := false, fromFifo := s.fromFifo.read }
      if c ≠ 'A' then s.ret 0 else s.collect size sendStop 0
    | _, _ => s
  | .receiving size sendStop i bit =>
    if s.woken then
      let s := { s with woken := false }
      if bit + 1 < 8 then
        { s with phase := .receiving size sendStop i (bit + 1), toFifo := s.toFifo.write 'Z' }
      else
        let s := { s with toFifo := if i + 1 ≠ size.toNat then s.toFifo.write 'A' else s.toFifo }
        s.collect size sendStop (i + 1)
    else s

/-- The master takes the next symbol, unless there is no room for what it has to say to it. -/
def symbol (sda : Bool) (s : WireReads) : WireReads :=
  match s.toFifo.ready with
  | p :: _ =>
    let m := s.master.symbol sda p
    if m.fromFifo.length ≤ s.fromFifo.numFree then
      { s with
        toFifo := s.toFifo.read
        master := { m with fromFifo := [] }
        fromFifo := m.fromFifo.foldl Fifo.write s.fromFifo
        line := if p = 'Z' ∧ s.master.state = .reading then s.line ++ [sda] else s.line }
    else s
  | [] => s

/-- Both FIFOs are updated, and `data_written_event` of `from` tells of what is new. -/
def update (s : WireReads) : WireReads :=
  { s with
    toFifo := s.toFifo.update
    fromFifo := s.fromFifo.update
    woken := s.woken || !s.fromFifo.fresh.isEmpty }

/-- `n` more bits of `read`. -/
def readBits : Nat → Nat → Fifo Char → Option Nat × Fifo Char
  | 0, data, f => (some data, f)
  | n + 1, data, f =>
    match f.ready.head? with
    | some '0' => readBits n (data <<< 1) f.read
    | some '1' => readBits n ((data <<< 1) + 1) f.read
    | _ => (none, f.read)

/-- `n` more bits of `peek`, which does not stop at other symbols. -/
def peekBits : Nat → BitVec 8 → Fifo Char → BitVec 8 × Fifo Char
  | 0, waiting, f => (waiting, f)
  | n + 1, waiting, f =>
    match f.ready.head? with
    | some '0' => peekBits n (waiting <<< 1) f.read
    | some '1' => peekBits n ((waiting <<< 1) + 1) f.read
    | _ => peekBits n (-1) f.read

/-- A byte has been read, if there was one. -/
def serve (s : WireReads) : WireReads := { s with served := if s.More then s.served + 1 else s.served }

def read (s : WireReads) : WireReads :=
  if s.taken then { (s.answer s.waiting.toNat).serve with taken := false, stale := false }
  else if s.fromFifo.numAvailable < 8 then (s.answer (-1)).serve
  else
    match readBits 8 0 s.fromFifo with
    | (some data, f) => { (s.answer data).serve with fromFifo := f }
    | (none, f) => { (s.answer (-1)).serve with fromFifo := f }

def peek (s : WireReads) : WireReads :=
  if s.taken then s.answer s.waiting.toNat
  else if s.fromFifo.numAvailable < 8 then s.answer (-1)
  else
    let r := peekBits 8 0 s.fromFifo
    { s.answer r.1.toNat with taken := true, waiting := r.1, fromFifo := r.2 }

def step (s : WireReads) : Event → WireReads
  | .requestFrom address size sendStop =>
    if s.phase = .outside then s.requestFrom address size sendStop else s
  | .beginTransmission address => if s.phase = .outside then s.beginTransmission address else s
  | .read => if s.phase = .outside then s.read else s
  | .peek => if s.phase = .outside then s.peek else s
  | .resume => s.resume
  | .symbol sda => s.symbol sda
  | .update => s.update

/-! ## §2 — the property -/

/-- Every answer was the next byte of its request, or -1 where there was none left; and a request has
received the bytes whose number it returned. -/
structure Current (s : WireReads) : Prop where
  answers : ∀ a ∈ s.answers, a.got = a.expected ∧ a.old = false
  returned : ∀ r ∈ s.returned, r.2 = 8 * r.1

/-- No byte waits that was peeked at before the present request. -/
def Unpeeked (s : WireReads) : Event → Prop
  | .read | .peek => s.phase = .outside → (s.taken && s.stale) = false
  | _ => True

/-! ## §3 — bits -/

theorem byteOf_append (bits : List Bool) (b : Bool) : byteOf (bits ++ [b]) = 2 * byteOf bits + b.toNat :=
  List.foldl_append ..

/-- A bit of `read`. -/
theorem readBits_bit {f : Fifo Char} {b : Bool} (n data : Nat)
    (hf : f.ready.head? = some (if b then '1' else '0')) :
    readBits (n + 1) data f = readBits n (2 * data + b.toNat) f.read := by
  have hshift : data <<< 1 = 2 * data := by rw [Nat.shiftLeft_eq, Nat.mul_comm, Nat.pow_one]
  rw [readBits, hf, hshift]
  cases b <;> rfl

/-- Bits, behind those that were read before them. -/
theorem readBits_bitSymbols (bits : List Bool) : ∀ (data : Nat) (rest : List Char) (f : Fifo Char),
    f.ready = TwoWire.bitSymbols bits ++ rest →
      (readBits bits.length data f).1 = some (bits.foldl (fun data b => 2 * data + b.toNat) data) ∧
        (readBits bits.length data f).2.ready = rest ∧ (readBits bits.length data f).2.fresh = f.fresh := by
  induction bits with
  | nil => exact fun data rest f hf => ⟨rfl, hf, rfl⟩
  | cons b bits ih =>
    intro data rest f hf
    have hread : f.read.ready = TwoWire.bitSymbols bits ++ rest := congrArg List.tail hf
    rw [List.length_cons, readBits_bit bits.length data (congrArg List.head? hf)]
    exact ih (2 * data + b.toNat) rest f.read hread

/-- A bit of `peek`: what leaves the eight bits is lost. -/
theorem peekBits_bit {f : Fifo Char} {b : Bool} (n : Nat) (w : BitVec 8)
    (hf : f.ready.head? = some (if b then '1' else '0')) :
    ∃ w' : BitVec 8, w'.toNat = (2 * w.toNat + b.toNat) % 256 ∧
      peekBits (n + 1) w f = peekBits n w' f.read := by
  rw [peekBits, hf]
  cases b with
  | false => exact ⟨w <<< 1, by simp only [Bool.toNat_false]; bv_omega, rfl⟩
  | true => exact ⟨(w <<< 1) + 1, by simp only [Bool.toNat_true]; bv_omega, rfl⟩

theorem peekBits_bitSymbols (bits : List Bool) : ∀ (w : BitVec 8) (rest : List Char) (f : Fifo Char),
    f.ready = TwoWire.bitSymbols bits ++ rest →
      (peekBits bits.length w f).1.toNat = bits.foldl (fun data b => (2 * data + b.toNat) % 256) w.toNat ∧
        (peekBits bits.length w f).2.ready = rest ∧ (peekBits bits.length w f).2.fresh = f.fresh := by
  induction bits with
  | nil => exact fun w rest f hf => ⟨rfl, hf, rfl⟩
  | cons b bits ih =>
    intro w rest f hf
    have hread : f.read.ready = TwoWire.bitSymbols bits ++ rest := congrArg List.tail hf
    obtain ⟨w', hw', hnext⟩ := peekBits_bit bits.length w (congrArg List.head? hf)
    rw [List.length_cons, hnext, List.foldl_cons, ← hw']
    exact ih w' rest f.read hread

theorem byteOf_lt (bits : List Bool) : byteOf bits < 2 ^ bits.length := by
  induction bits using List.reverseRecOn with
  | nil => exact Nat.one_pos
  | append_singleton bits b ih =>
    have hb : b.toNat ≤ 1 := Bool.toNat_le b
    rw [byteOf_append, List.length_append, List.length_singleton, Nat.pow_succ]
    omega

/-- Eight bits do not leave the byte. -/
theorem foldl_mod (bits : List Bool) (h : bits.length ≤ 8) :
    bits.foldl (fun data b => (2 * data + b.toNat) % 256) 0 = byteOf bits := by
  induction bits using List.reverseRecOn with
  | nil => rfl
  | append_singleton bits b ih =>
    have hlt := byteOf_lt (bits ++ [b])
    have hle : 2 ^ (bits ++ [b]).length ≤ 2 ^ 8 := Nat.pow_le_pow_right (by decide) h
    rw [List.length_append, List.length_singleton] at h
    rw [byteOf_append] at hlt ⊢
    rw [List.foldl_append, ih (by omega)]
    exact Nat.mod_eq_of_lt (by omega)

/-! ## §4 — the invariant -/

/-- How many bytes of the present request have left `from`. -/
def ahead (s : WireReads) : Nat := s.served + if s.taken && !s.stale then 1 else 0

/-- The caller is in none of the functions: `from` holds the bits that are left of the request. -/
structure Resting (s : WireReads) : Prop where
  ends : ∀ p ∈ s.toFifo.content, p = 'N' ∨ p = 'P'
  settled : s.fromFifo.fresh = []
  whole : 8 ∣ s.line.length
  ahead_le : 8 * s.ahead ≤ s.line.length
  unread : s.fromFifo.ready = TwoWire.bitSymbols (s.line.drop (8 * s.ahead))
  looked : s.taken = true → s.stale = false →
    s.waiting.toNat = byteOf ((s.line.drop (8 * s.served)).take 8)

/-- An address on its way to its answer: what is in the two FIFOs, and the master. -/
inductive Calling (rw : Bool) : List Char → List Char → Master → Prop where
  | pending (ps : List Char) (bs : List Bool) (m : Master) (hps : ∀ p ∈ ps, p = 'N' ∨ p = 'P') :
    Calling rw (ps ++ 'S' :: (TwoWire.bitSymbols (bs ++ [rw]) ++ ['Z'])) [] m
  | started (bs : List Bool) (m : Master) (hstate : m.state = .devid) :
    Calling rw (TwoWire.bitSymbols (bs ++ [rw]) ++ ['Z']) [] m
  | asked (m : Master) (hstate : m.state = .devid) (hrw : m.rwbit = rw) : Calling rw ['Z'] [] m
  | accepted (m : Master) (hstate : rw = true → m.state = .reading) : Calling rw [] ['A'] m
  | refused (m : Master) : Calling rw [] ['N'] m

/-- The clock of a bit on its way to the master, or the bit on its way to the caller. -/
inductive Clocking (s : WireReads) (k : Nat) : Prop where
  | asked (hto : s.toFifo.content = ['Z'] ∨ s.toFifo.content = ['A', 'Z']) (hline : s.line.length = k)
    (hwoken : s.woken = false) (hfresh : s.fromFifo.fresh = [])
  | received (hto : s.toFifo.content = []) (hline : s.line.length = k + 1)
    (hfresh : s.woken = true → s.fromFifo.fresh = [])

/-- A bit of a byte. -/
structure Receiving (size : BitVec 8) (i bit : Nat) (s : WireReads) : Prop where
  state : s.master.state = .reading
  byte : i < size.toNat
  bit_lt : bit < 8
  unread : s.fromFifo.content = TwoWire.bitSymbols s.line
  way : Clocking s (8 * i + bit)

/-- **The invariant** of the runs in which no old byte is returned. -/
structure Inv (s : WireReads) : Prop where
  current : Current s
  quiet : s.master.fromFifo = []
  old : s.stale = true → s.taken = true
  outside : s.phase = .outside → Resting s
  busy : s.phase ≠ .outside → s.stale = s.taken ∧ s.served = 0
  beginning : s.phase = .beginning → s.line = [] ∧ Calling false s.toFifo.content s.fromFifo.content s.master
  addressed : ∀ size sendStop, s.phase = .addressed size sendStop →
    s.line = [] ∧ Calling true s.toFifo.content s.fromFifo.content s.master
  receiving : ∀ size sendStop i bit, s.phase = .receiving size sendStop i bit → Receiving size i bit s

variable {s : WireReads}

theorem inv_init (rwbit : Bool) : Inv (init rwbit) where
  current := ⟨fun _ h => absurd h List.not_mem_nil, fun _ h => absurd h List.not_mem_nil⟩
  quiet := rfl
  old := fun h => Bool.noConfusion h
  outside := fun _ => ⟨fun _ h => absurd h List.not_mem_nil, rfl, Nat.dvd_zero 8, Nat.le_refl 0, rfl,
    fun h => Bool.noConfusion h⟩
  busy := fun h => absurd rfl h
  beginning := fun h => ReadPhase.noConfusion h
  addressed := fun _ _ h => ReadPhase.noConfusion h
  receiving := fun _ _ _ _ h => ReadPhase.noConfusion h

/-- The caller comes back. -/
theorem Resting.inv (h : Resting s) (hcurrent : Current s) (hquiet : s.master.fromFifo = [])
    (hold : s.stale = true → s.taken = true) (hphase : s.phase = .outside) : Inv s where
  current := hcurrent
  quiet := hquiet
  old := hold
  outside := fun _ => h
  busy := fun hp => absurd hphase hp
  beginning := fun hp => ReadPhase.noConfusion (hp.symm.trans hphase)
  addressed := fun _ _ hp => ReadPhase.noConfusion (hp.symm.trans hphase)
  receiving := fun _ _ _ _ hp => ReadPhase.noConfusion (hp.symm.trans hphase)

/-- At the end of a request nothing has been read of it. -/
theorem Resting.new (hends : ∀ p ∈ s.toFifo.content, p = 'N' ∨ p = 'P') (hfresh : s.fromFifo.fresh = [])
    (hwhole : 8 ∣ s.line.length) (hready : s.fromFifo.ready = TwoWire.bitSymbols s.line) (hstale : s.stale = s.taken)
    (hserved : s.served = 0) : Resting s := by
  have hahead : s.ahead = 0 := by
    unfold ahead
    rw [hserved, hstale, Bool.and_not_self]
    rfl
  refine ⟨hends, hfresh, hwhole, hahead ▸ Nat.zero_le _, hahead ▸ hready, fun ht hs => ?_⟩
  exact absurd ((ht.symm.trans hstale.symm).trans hs) (by decide)

/-! ## §5 — `read` and `peek` -/

theorem Current.answer (h : Current s) {got : Int} (hgot : got = s.expected)
    (hold : (s.taken && s.stale) = false) : Current (s.answer got) where
  answers := by
    intro a ha
    rcases List.mem_append.mp ha with ha | ha
    · exact h.answers a ha
    · obtain rfl := List.mem_singleton.mp ha
      exact ⟨hgot, hold⟩
  returned := h.returned

/-- The bits in `from` are whole bytes. -/
theorem Resting.length_ready (h : Resting s) : s.fromFifo.ready.length = s.line.length - 8 * s.ahead := by
  rw [h.unread]
  exact (List.length_map ..).trans (List.length_drop ..)

theorem Resting.more_iff (h : Resting s) (htaken : s.taken = false) :
    s.More ↔ ¬ s.fromFifo.numAvailable < 8 := by
  have hahead : s.ahead = s.served := by simp [ahead, htaken]
  have hlen := h.length_ready
  unfold More Fifo.numAvailable
  rw [hahead] at hlen
  omega

/-- The bits of the next byte are in front. -/
theorem Resting.next (h : Resting s) (htaken : s.taken = false) (hmore : s.More) :
    ((s.line.drop (8 * s.served)).take 8).length = 8 ∧
      s.fromFifo.ready = TwoWire.bitSymbols ((s.line.drop (8 * s.served)).take 8) ++
        TwoWire.bitSymbols (s.line.drop (8 * (s.served + 1))) := by
  have hahead : s.ahead = s.served := by simp [ahead, htaken]
  unfold More at hmore
  constructor
  · rw [List.length_take, List.length_drop]
    omega
  · rw [h.unread, hahead, ← TwoWire.bitSymbols_append, Nat.mul_succ, ← List.drop_drop,
      List.take_append_drop]

/-- A byte of the present request that was peeked at is the next one. -/
theorem Resting.taken (h : Resting s) (htaken : s.taken = true) (hstale : s.stale = false) :
    s.ahead = s.served + 1 ∧ s.More ∧ s.expected = s.waiting.toNat := by
  have hahead : s.ahead = s.served + 1 := by simp [ahead, htaken, hstale]
  have hmore : s.More := by
    have hle := h.ahead_le
    rwa [hahead] at hle
  refine ⟨hahead, hmore, ?_⟩
  rw [expected, if_pos hmore, h.looked htaken hstale]

/-- The byte of `peek` is read. -/
theorem Inv.read_taken (h : Inv s) (hphase : s.phase = .outside) (htaken : s.taken = true)
    (hstale : s.stale = false) : Inv s.read := by
  have hrest := h.outside hphase
  obtain ⟨hahead, hmore, hexpected⟩ := hrest.taken htaken hstale
  have hcurrent := h.current.answer hexpected.symm (by rw [hstale, Bool.and_false])
  have hread : s.read = { s.answer s.waiting.toNat with served := s.served + 1, taken := false, stale := false } := by
    unfold WireReads.read serve
    rw [if_pos htaken, if_pos (show (s.answer s.waiting.toNat).More from hmore)]
    rfl
  rw [hread]
  refine Resting.inv ?_ ⟨hcurrent.answers, hcurrent.returned⟩ h.quiet (fun hs => Bool.noConfusion hs) hphase
  refine ⟨hrest.ends, hrest.settled, hrest.whole, hmore, ?_, fun ht => Bool.noConfusion ht⟩
  show s.fromFifo.ready = TwoWire.bitSymbols (s.line.drop (8 * (s.served + 1)))
  rw [hrest.unread, hahead]

/-- There is nothing to read. -/
theorem Inv.read_none (h : Inv s) (hphase : s.phase = .outside) (htaken : s.taken = false)
    (hnone : s.fromFifo.numAvailable < 8) : s.expected = -1 ∧ Inv (s.answer (-1)) := by
  have hrest := h.outside hphase
  have hmore : ¬ s.More := fun hmore => (hrest.more_iff htaken).mp hmore hnone
  have hexpected : s.expected = -1 := if_neg hmore
  have hcurrent := h.current.answer hexpected.symm (by rw [htaken, Bool.false_and])
  refine ⟨hexpected, Resting.inv ?_ hcurrent h.quiet h.old hphase⟩
  exact ⟨hrest.ends, hrest.settled, hrest.whole, hrest.ahead_le, hrest.unread, hrest.looked⟩

theorem Inv.read (h : Inv s) (hphase : s.phase = .outside) (hok : (s.taken && s.stale) = false) :
    Inv s.read := by
  have hrest := h.outside hphase
  cases htaken : s.taken with
  | true =>
    rw [htaken, Bool.true_and] at hok
    exact h.read_taken hphase htaken hok
  | false =>
    by_cases hnone : s.fromFifo.numAvailable < 8
    · have hmore : ¬ s.More := fun hmore => (hrest.more_iff htaken).mp hmore hnone
      have hread : s.read = s.answer (-1) := by
        unfold WireReads.read serve
        rw [if_neg (by rw [htaken]; decide), if_pos hnone, if_neg (show ¬ (s.answer (-1)).More from hmore)]
      rw [hread]
      exact (h.read_none hphase htaken hnone).2
    · have hmore := (hrest.more_iff htaken).mpr hnone
      obtain ⟨hlen, hready⟩ := hrest.next htaken hmore
      obtain ⟨hdata, hleft, hfresh⟩ := readBits_bitSymbols _ 0 _ _ hready
      rw [hlen] at hdata hleft hfresh
      have hread : s.read = { s.answer (byteOf ((s.line.drop (8 * s.served)).take 8) : Nat) with
          served := s.served + 1, fromFifo := (readBits 8 0 s.fromFifo).2 } := by
        unfold WireReads.read serve
        rw [if_neg (by rw [htaken]; decide), if_neg hnone]
        split
        · rename_i data f hbits
          rw [hbits] at hdata
          obtain rfl := Option.some.inj hdata
          rw [if_pos (show (s.answer _).More from hmore), hbits]
          rfl
        · rename_i f hbits
          rw [hbits] at hdata
          cases hdata
      have hexpected : s.expected = (byteOf ((s.line.drop (8 * s.served)).take 8) : Nat) := if_pos hmore
      have hcurrent := h.current.answer hexpected.symm (by rw [htaken, Bool.false_and])
      rw [hread]
      refine Resting.inv ?_ ⟨hcurrent.answers, hcurrent.returned⟩ h.quiet h.old hphase
      have hahead : (s.served + 1) + (if s.taken && !s.stale then 1 else 0) = s.served + 1 := by
        rw [htaken]
        rfl
      refine ⟨hrest.ends, hfresh.trans hrest.settled, hrest.whole, ?_, ?_, fun ht => ?_⟩
      · show 8 * ((s.served + 1) + (if s.taken && !s.stale then 1 else 0)) ≤ s.line.length
        rw [hahead]
        exact hmore
      · show (readBits 8 0 s.fromFifo).2.ready =
          TwoWire.bitSymbols (s.line.drop (8 * ((s.served + 1) + (if s.taken && !s.stale then 1 else 0))))
        rw [hahead, hleft]
      · exact absurd (ht.symm.trans htaken) (by decide)

theorem Inv.peek (h : Inv s) (hphase : s.phase = .outside) (hok : (s.taken && s.stale) = false) :
    Inv s.peek := by
  have hrest := h.outside hphase
  unfold WireReads.peek
  cases htaken : s.taken with
  | true =>
    rw [htaken, Bool.true_and] at hok
    have hcurrent := h.current.answer (hrest.taken htaken hok).2.2.symm (by rw [hok, Bool.and_false])
    rw [if_pos rfl]
    refine Resting.inv ?_ hcurrent h.quiet h.old hphase
    exact ⟨hrest.ends, hrest.settled, hrest.whole, hrest.ahead_le, hrest.unread, hrest.looked⟩
  | false =>
    rw [if_neg (by decide)]
    by_cases hnone : s.fromFifo.numAvailable < 8
    · rw [if_pos hnone]
      exact (h.read_none hphase htaken hnone).2
    · have hmore := (hrest.more_iff htaken).mpr hnone
      obtain ⟨hlen, hready⟩ := hrest.next htaken hmore
      obtain ⟨hdata, hleft, hfresh⟩ := peekBits_bitSymbols _ 0 _ _ hready
      rw [hlen] at hdata hleft hfresh
      have hvalue : (peekBits 8 0 s.fromFifo).1.toNat = byteOf ((s.line.drop (8 * s.served)).take 8) :=
        hdata.trans (foldl_mod _ (Nat.le_of_eq hlen))
      have hstale : s.stale = false := Bool.eq_false_iff.mpr fun hs => by simp [h.old hs] at htaken
      have hexpected : s.expected = ((peekBits 8 0 s.fromFifo).1.toNat : Nat) := by
        rw [expected, if_pos hmore, hvalue]
      have hcurrent := h.current.answer hexpected.symm (by rw [htaken, Bool.false_and])
      have hahead : s.served + (if true && !s.stale then 1 else 0) = s.served + 1 := by
        rw [hstale]
        rfl
      rw [if_neg hnone]
      refine Resting.inv ?_ ⟨hcurrent.answers, hcurrent.returned⟩ h.quiet (fun _ => rfl) hphase
      refine ⟨hrest.ends, hfresh.trans hrest.settled, hrest.whole, ?_, ?_, fun _ _ => hvalue⟩
      · show 8 * (s.served + (if true && !s.stale then 1 else 0)) ≤ s.line.length
        rw [hahead]
        exact hmore
      · show (peekBits 8 0 s.fromFifo).2.ready =
          TwoWire.bitSymbols (s.line.drop (8 * (s.served + (if true && !s.stale then 1 else 0))))
        rw [hahead, hleft]

/-! ## §6 — the requests -/

theorem numFree_write (f : Fifo Char) (c : Char) : (f.write c).numFree = f.numFree - 1 := by
  unfold Fifo.numFree Fifo.write
  simp only [List.length_append, List.length_cons, List.length_nil]
  omega

/-- The symbols of an address, where there is room for them. -/
theorem content_sendAddress {f : Fifo Char} (hroom : ¬ f.numFree < 10) (data : BitVec 8) :
    (sendAddress data f).content = f.content ++ 'S' :: (binary data ++ ['Z']) := by
  have hfree : ¬ (f.write 'S').numFree < 1 := by
    rw [numFree_write]
    omega
  unfold sendAddress writebin
  rw [if_neg hfree]
  simp

/-- The last bit of an address is its direction. -/
theorem binary_last (data : BitVec 8) : ∃ bs, binary data = TwoWire.bitSymbols (bs ++ [data.getLsbD 0]) :=
  ⟨[7, 6, 5, 4, 3, 2, 1].map data.getLsbD, rfl⟩

/-- A new command dumps what is left of the one before. -/
theorem Inv.dump (h : Inv s) (hphase : s.phase = .outside) :
    Inv s.dump ∧ s.dump.fromFifo.content = [] := by
  have hrest := h.outside hphase
  have hready : s.dump.fromFifo.ready = [] := Fifo.ready_drain s.fromFifo
  have hfresh : s.dump.fromFifo.fresh = [] := (Fifo.fresh_reads _ s.fromFifo).trans hrest.settled
  refine ⟨Resting.inv ?_ ⟨h.current.answers, h.current.returned⟩ h.quiet (fun ht => ht) hphase, ?_⟩
  · exact Resting.new hrest.ends hfresh (Nat.dvd_zero 8) hready rfl rfl
  · show _ ++ _ = []
    rw [hready, hfresh]
    rfl

theorem Current.ret (h : Current s) (value : Nat) (hline : s.line.length = 8 * value) : Current (s.ret value) where
  answers := h.answers
  returned := by
    intro r hr
    rcases List.mem_append.mp hr with hr | hr
    · exact h.returned r hr
    · obtain rfl := List.mem_singleton.mp hr
      exact hline

/-- A request has been refused. -/
theorem Resting.ret (h : Resting s) (value : Nat) : Resting (s.ret value) :=
  ⟨h.ends, h.settled, h.whole, h.ahead_le, h.unread, h.looked⟩

theorem Inv.requestFrom (h : Inv s) (hphase : s.phase = .outside) (address : BitVec 16) (size : BitVec 8)
    (sendStop : Bool) : Inv (s.requestFrom address size sendStop) := by
  obtain ⟨hdump, hempty⟩ := h.dump hphase
  have hrest := hdump.outside hphase
  unfold WireReads.requestFrom
  dsimp only
  split
  · exact Resting.inv (hrest.ret 0) (hdump.current.ret 0 rfl) hdump.quiet hdump.old rfl
  · rename_i hroom
    have hroom : ¬ s.dump.toFifo.numFree < 10 := fun hlt => hroom (Or.inr (Or.inl hlt))
    obtain ⟨bs, hbs⟩ := binary_last (((address <<< 1) + 1).setWidth 8)
    have hread : (((address <<< 1) + 1).setWidth 8).getLsbD 0 = true := by
      rw [← BitVec.testBit_toNat, Nat.testBit_zero]
      exact decide_eq_true (by bv_omega)
    refine ⟨⟨hdump.current.answers, hdump.current.returned⟩, hdump.quiet, hdump.old,
      fun hp => ReadPhase.noConfusion hp, fun _ => ⟨rfl, rfl⟩, fun hp => ReadPhase.noConfusion hp,
      fun _ _ _ => ⟨rfl, ?_⟩, fun _ _ _ _ hp => ReadPhase.noConfusion hp⟩
    rw [hread] at hbs
    show Calling true (sendAddress _ s.dump.toFifo).content s.dump.fromFifo.content _
    rw [content_sendAddress hroom, hempty, hbs]
    exact .pending _ bs _ hrest.ends

theorem Inv.beginTransmission (h : Inv s) (hphase : s.phase = .outside) (address : BitVec 8) :
    Inv (s.beginTransmission address) := by
  obtain ⟨hdump, hempty⟩ := h.dump hphase
  have hrest := hdump.outside hphase
  unfold WireReads.beginTransmission
  dsimp only
  split
  · exact hdump
  · rename_i hroom
    have hroom : ¬ s.dump.toFifo.numFree < 10 := fun hlt => hroom (Or.inr hlt)
    obtain ⟨bs, hbs⟩ := binary_last (address <<< 1)
    have hwrite : (address <<< 1).getLsbD 0 = false := by simp
    refine ⟨⟨hdump.current.answers, hdump.current.returned⟩, hdump.quiet, hdump.old,
      fun hp => ReadPhase.noConfusion hp, fun _ => ⟨rfl, rfl⟩, fun _ => ⟨rfl, ?_⟩,
      fun _ _ hp => ReadPhase.noConfusion hp, fun _ _ _ _ hp => ReadPhase.noConfusion hp⟩
    rw [hwrite] at hbs
    show Calling false (sendAddress _ s.dump.toFifo).content s.dump.fromFifo.content _
    rw [content_sendAddress hroom, hempty, hbs]
    exact .pending _ bs _ hrest.ends

/-! ## §7 — the caller and the master -/

/-- The loop of `requestFrom` at a byte, or at its end. -/
theorem Inv.collect (hcurrent : Current s) (hquiet : s.master.fromFifo = []) (hstale : s.stale = s.taken)
    (hserved : s.served = 0) (hstate : s.master.state = .reading) (hfresh : s.fromFifo.fresh = [])
    (hwoken : s.woken = false) (hready : s.fromFifo.ready = TwoWire.bitSymbols s.line) {size : BitVec 8} {i : Nat}
    (hi : i ≤ size.toNat) (hline : s.line.length = 8 * i) (sendStop : Bool)
    (hto : s.toFifo.content = if 0 < i ∧ i < size.toNat then ['A'] else []) :
    Inv (s.collect size sendStop i) := by
  unfold WireReads.collect
  split
  · rename_i hlt
    refine ⟨⟨hcurrent.answers, hcurrent.returned⟩, hquiet, fun hs => hstale ▸ hs, fun hp => ReadPhase.noConfusion hp,
      fun _ => ⟨hstale, hserved⟩, fun hp => ReadPhase.noConfusion hp, fun _ _ hp => ReadPhase.noConfusion hp,
      fun size' stop' i' bit' hp => ?_⟩
    injection hp with h1 h2 h3 h4
    subst h1 h2 h3 h4
    refine ⟨hstate, hlt, by decide, ?_, .asked ?_ hline hwoken hfresh⟩
    · show s.fromFifo.ready ++ s.fromFifo.fresh = _
      rw [hfresh, List.append_nil, hready]
    · show (s.toFifo.write 'Z').content = _ ∨ (s.toFifo.write 'Z').content = _
      rw [Fifo.content_write, hto]
      by_cases h0 : 0 < i
      · exact Or.inr (by rw [if_pos ⟨h0, hlt⟩]; rfl)
      · exact Or.inl (by rw [if_neg fun h => h0 h.1]; rfl)
  · rename_i hge
    have hsize : i = size.toNat := by omega
    have hto : s.toFifo.content = [] := by rwa [if_neg fun h => hge h.2] at hto
    have hcurrent' := hcurrent.ret size.toNat (hsize ▸ hline)
    have hends : ∀ p ∈ (if sendStop then (s.toFifo.write 'N').write 'P' else s.toFifo).content,
        p = 'N' ∨ p = 'P' := by
      intro p hp
      split at hp
      · rw [Fifo.content_write, Fifo.content_write, hto] at hp
        simpa using hp
      · rw [hto] at hp
        exact absurd hp List.not_mem_nil
    have hrest : Resting { s with
        toFifo := if sendStop then (s.toFifo.write 'N').write 'P' else s.toFifo } :=
      Resting.new hends hfresh ⟨i, hline⟩ hready hstale hserved
    exact Resting.inv (hrest.ret _) ⟨hcurrent'.answers, hcurrent'.returned⟩ hquiet (fun hs => hstale ▸ hs) rfl

/-- An answer that can be read ends the way of the address. -/
theorem Calling.answered {rw : Bool} {to_ from_ : List Char} {m : Master} (h : Calling rw to_ from_ m)
    (hfrom : from_ ≠ []) :
    to_ = [] ∧ (from_ = ['N'] ∨ from_ = ['A'] ∧ (rw = true → m.state = .reading)) := by
  cases h with
  | pending | started | asked => exact absurd rfl hfrom
  | accepted _ hstate => exact ⟨rfl, Or.inr ⟨rfl, hstate⟩⟩
  | refused => exact ⟨rfl, Or.inl rfl⟩

theorem content_ne_nil {f : Fifo Char} {c : Char} {cs : List Char} (h : f.ready = c :: cs) : f.content ≠ [] := by
  unfold Fifo.content
  rw [h]
  exact List.cons_ne_nil _ _

/-- The answer that the caller has read was the only symbol in `from`. -/
theorem Calling.last {rw : Bool} {m : Master} (h : Calling rw s.toFifo.content s.fromFifo.content m) {c : Char}
    {cs : List Char} (hready : s.fromFifo.ready = c :: cs) :
    s.toFifo.content = [] ∧ (c = 'A' → rw = true → m.state = .reading) ∧ s.fromFifo.read.ready = [] ∧
      s.fromFifo.read.fresh = [] := by
  obtain ⟨hto, hfrom | ⟨hfrom, hstate⟩⟩ := h.answered (content_ne_nil hready)
  · obtain ⟨rfl, rfl, hfresh⟩ := Fifo.ready_of_content_singleton hfrom hready
    exact ⟨hto, fun hc => absurd hc (by decide), congrArg List.tail hready, hfresh⟩
  · obtain ⟨rfl, rfl, hfresh⟩ := Fifo.ready_of_content_singleton hfrom hready
    exact ⟨hto, fun _ => hstate, congrArg List.tail hready, hfresh⟩

theorem Inv.resume_beginning (h : Inv s) (hphase : s.phase = .beginning) : Inv s.resume := by
  obtain ⟨hline, hcalling⟩ := h.beginning hphase
  obtain ⟨hstale, hserved⟩ := h.busy (by rw [hphase]; exact ReadPhase.noConfusion)
  unfold WireReads.resume
  rw [hphase]
  dsimp only
  split
  · rename_i c cs hready
    obtain ⟨hto, -, hrest, hfresh⟩ := hcalling.last hready
    have hends : ∀ p ∈ s.toFifo.content, p = 'N' ∨ p = 'P' := fun p hp => absurd (hto ▸ hp) List.not_mem_nil
    refine Resting.inv ?_ ⟨h.current.answers, h.current.returned⟩ h.quiet h.old rfl
    exact Resting.new hends hfresh (by rw [hline]; exact Nat.dvd_zero 8) (by rw [hline]; exact hrest) hstale hserved
  · exact h

theorem Inv.resume_addressed (h : Inv s) {size : BitVec 8} {sendStop : Bool}
    (hphase : s.phase = .addressed size sendStop) : Inv s.resume := by
  obtain ⟨hline, hcalling⟩ := h.addressed size sendStop hphase
  obtain ⟨hstale, hserved⟩ := h.busy (by rw [hphase]; exact ReadPhase.noConfusion)
  unfold WireReads.resume
  rw [hphase]
  dsimp only
  split
  · rename_i hwoken c cs hready
    obtain ⟨hto, hstate, hrest, hfresh⟩ := hcalling.last hready
    split
    · have hends : ∀ p ∈ s.toFifo.content, p = 'N' ∨ p = 'P' := fun p hp => absurd (hto ▸ hp) List.not_mem_nil
      have hcurrent := h.current.ret 0 (by rw [hline]; rfl)
      refine Resting.inv ?_ ⟨hcurrent.answers, hcurrent.returned⟩ h.quiet h.old rfl
      refine Resting.new hends hfresh ?_ ?_ hstale hserved
      · show 8 ∣ s.line.length
        rw [hline]
        exact Nat.dvd_zero 8
      · show s.fromFifo.read.ready = TwoWire.bitSymbols s.line
        rw [hline]
        exact hrest
    · rename_i hc
      have hstate := hstate (by simpa using hc) rfl
      exact Inv.collect (s := { s with woken := false, fromFifo := s.fromFifo.read })
        ⟨h.current.answers, h.current.returned⟩ h.quiet hstale hserved hstate hfresh rfl
        (by rw [hline]; exact hrest) (Nat.zero_le _) (by rw [hline]; rfl) sendStop hto
  · exact h

theorem Inv.resume_receiving (h : Inv s) {size : BitVec 8} {sendStop : Bool} {i bit : Nat}
    (hphase : s.phase = .receiving size sendStop i bit) : Inv s.resume := by
  obtain ⟨hstate, hbyte, hbit, hunread, hway⟩ := h.receiving size sendStop i bit hphase
  obtain ⟨hstale, hserved⟩ := h.busy (by rw [hphase]; exact ReadPhase.noConfusion)
  unfold WireReads.resume
  rw [hphase]
  dsimp only
  split
  · rename_i hwoken
    cases hway with
    | asked _ _ hno _ => exact absurd (hno.symm.trans hwoken) (by decide)
    | received hto hline hfresh =>
      have hfresh := hfresh hwoken
      have hready : s.fromFifo.ready = TwoWire.bitSymbols s.line := by
        rw [← hunread]
        unfold Fifo.content
        rw [hfresh, List.append_nil]
      split
      · rename_i hlt
        refine ⟨⟨h.current.answers, h.current.returned⟩, h.quiet, h.old, fun hp => ReadPhase.noConfusion hp,
          fun _ => ⟨hstale, hserved⟩, fun hp => ReadPhase.noConfusion hp, fun _ _ hp => ReadPhase.noConfusion hp,
          fun size' stop' i' bit' hp => ?_⟩
        injection hp with h1 h2 h3 h4
        subst h1 h2 h3 h4
        refine ⟨hstate, hbyte, hlt, hunread, .asked (Or.inl ?_) hline rfl hfresh⟩
        show (s.toFifo.write 'Z').content = _
        rw [Fifo.content_write, hto]
        rfl
      · rename_i hlast
        have hseven : bit = 7 := by omega
        refine Inv.collect
          (s := { s with woken := false, toFifo := if i + 1 ≠ size.toNat then s.toFifo.write 'A' else s.toFifo })
          ⟨h.current.answers, h.current.returned⟩ h.quiet hstale hserved hstate hfresh rfl hready
          (Nat.succ_le_of_lt hbyte) (hline.trans (by omega)) sendStop ?_
        dsimp only
        by_cases hmore : i + 1 = size.toNat
        · rw [if_neg (by simpa using hmore), hto, if_neg fun hlt => by omega]
        · rw [if_pos hmore, Fifo.content_write, hto, if_pos ⟨Nat.succ_pos i, by omega⟩]
          rfl
  · exact h

theorem Inv.resume (h : Inv s) : Inv s.resume := by
  cases hphase : s.phase with
  | outside =>
    unfold WireReads.resume
    rwa [hphase]
  | beginning => exact h.resume_beginning hphase
  | addressed size sendStop => exact h.resume_addressed hphase
  | receiving size sendStop i bit => exact h.resume_receiving hphase

/-- The end of a delta cycle moves nothing. -/
theorem Inv.update (h : Inv s) : Inv s.update where
  current := ⟨h.current.answers, h.current.returned⟩
  quiet := h.quiet
  old := h.old
  outside := by
    intro hphase
    have hrest := h.outside hphase
    refine ⟨?_, rfl, hrest.whole, hrest.ahead_le, ?_, hrest.looked⟩
    · show ∀ p ∈ s.toFifo.update.content, p = 'N' ∨ p = 'P'
      rw [Fifo.content_update]
      exact hrest.ends
    · show s.fromFifo.ready ++ s.fromFifo.fresh = _
      rw [hrest.settled, List.append_nil]
      exact hrest.unread
  busy := h.busy
  beginning := by
    intro hphase
    show s.line = [] ∧ Calling false s.toFifo.update.content s.fromFifo.update.content s.master
    rw [Fifo.content_update, Fifo.content_update]
    exact h.beginning hphase
  addressed := by
    intro size sendStop hphase
    show s.line = [] ∧ Calling true s.toFifo.update.content s.fromFifo.update.content s.master
    rw [Fifo.content_update, Fifo.content_update]
    exact h.addressed size sendStop hphase
  receiving := by
    intro size sendStop i bit hphase
    obtain ⟨hstate, hbyte, hbit, hunread, hway⟩ := h.receiving size sendStop i bit hphase
    refine ⟨hstate, hbyte, hbit, (Fifo.content_update _).trans hunread, ?_⟩
    cases hway with
    | asked hto hline hwoken hfresh =>
      refine .asked ?_ hline ?_ rfl
      · show s.toFifo.update.content = _ ∨ s.toFifo.update.content = _
        rwa [Fifo.content_update]
      · show (s.woken || !s.fromFifo.fresh.isEmpty) = false
        rw [hwoken, hfresh]
        rfl
    | received hto hline hfresh => exact .received ((Fifo.content_update _).trans hto) hline fun _ => rfl

/-- An address at the master: the answer is the first thing that goes into `from`. -/
theorem Calling.symbol {rw : Bool} {p : Char} {ps from_ : List Char} {m : Master}
    (h : Calling rw (p :: ps) from_ m) (hquiet : m.fromFifo = []) (sda : Bool) :
    (p = 'Z' → m.state ≠ .reading) ∧
      Calling rw ps (from_ ++ (m.symbol sda p).fromFifo) { m.symbol sda p with fromFifo := [] } := by
  generalize hto : p :: ps = to_ at h
  cases h with
  | pending qs bs _ hqs =>
    cases qs with
    | nil =>
      injection hto with hp hps
      subst hp hps
      refine ⟨fun hp => absurd hp (by decide), ?_⟩
      rw [(Master.symbol_start sda).2, hquiet]
      exact .started bs _ rfl
    | cons q qs =>
      injection hto with hp hps
      subst hp hps
      have hp : p ≠ 'Z' := by
        rcases hqs p (List.mem_cons_self ..) with rfl | rfl <;> decide
      refine ⟨fun hz => absurd hz hp, ?_⟩
      rw [Master.fromFifo_symbol m sda hp, hquiet]
      exact .pending qs bs _ fun r hr => hqs r (List.mem_cons_of_mem _ hr)
  | started bs _ hstate =>
    have hnext : ∀ b : Bool, p = (if b then '1' else '0') →
        (p = 'Z' → m.state ≠ .reading) ∧ (m.symbol sda p).fromFifo = [] ∧
          (m.symbol sda p).state = .devid ∧ (m.symbol sda p).rwbit = b := by
      rintro b rfl
      obtain ⟨hkeep, hrw, hfrom⟩ := Master.symbol_bit (m := m) sda (Or.inl hstate) b
      refine ⟨fun _ hr => ?_, hfrom.trans hquiet, hkeep.trans hstate, hrw⟩
      exact State.noConfusion (hstate.symm.trans hr)
    cases bs with
    | nil =>
      injection hto with hp hps
      obtain ⟨hz, hfrom, hkeep, hrw⟩ := hnext rw hp
      refine ⟨hz, ?_⟩
      rw [hfrom, hps]
      exact .asked _ hkeep hrw
    | cons b bs =>
      injection hto with hp hps
      obtain ⟨hz, hfrom, hkeep, hrw⟩ := hnext b hp
      refine ⟨hz, ?_⟩
      rw [hfrom, hps]
      exact .started bs _ hkeep
  | asked _ hstate hrw =>
    injection hto with hp hps
    subst hp hps
    refine ⟨fun _ hr => State.noConfusion (hstate.symm.trans hr), ?_⟩
    have hanswer : (m.symbol sda 'Z').fromFifo = [if sda then 'N' else 'A'] ∧
        (rw = true → sda = false → (m.symbol sda 'Z').state = .reading) := by
      cases rw with
      | false =>
        refine ⟨?_, fun h => Bool.noConfusion h⟩
        rw [(Master.symbol_ask sda (Or.inl ⟨hstate, hrw⟩)).2, hquiet]
        rfl
      | true =>
        obtain ⟨hnext, hfrom⟩ := Master.symbol_ask_read sda hstate hrw
        refine ⟨by rw [hfrom, hquiet]; rfl, fun _ hsda => ?_⟩
        rw [hnext, hsda]
        rfl
    rw [hanswer.1]
    cases sda with
    | false => exact .accepted _ fun hr => hanswer.2 hr rfl
    | true => exact .refused _
  | accepted | refused => exact absurd hto (List.cons_ne_nil _ _)

/-- The master at a symbol, with room for its answer. -/
theorem Inv.symbol (h : Inv s) (sda : Bool) : Inv (s.symbol sda) := by
  unfold WireReads.symbol
  split
  · rename_i p ps hready
    have hto := Fifo.content_read hready
    dsimp only
    split
    · -- what is left of `to`, and what `from` has got
      have hfrom : ∀ cs, (cs.foldl Fifo.write s.fromFifo).content = s.fromFifo.content ++ cs :=
        fun cs => Fifo.content_writes cs s.fromFifo
      refine ⟨⟨h.current.answers, h.current.returned⟩, rfl, h.old, ?_, h.busy, ?_, ?_, ?_⟩
      · intro hphase
        have hrest := h.outside hphase
        have hp : p ≠ 'Z' := by
          rcases hrest.ends p (hto ▸ List.mem_cons_self ..) with rfl | rfl <;> decide
        have hnone : (s.master.symbol sda p).fromFifo = [] :=
          (Master.fromFifo_symbol s.master sda hp).trans h.quiet
        rw [hnone, if_neg fun hz => hp hz.1]
        exact ⟨fun q hq => hrest.ends q (hto ▸ List.mem_cons_of_mem _ hq), hrest.settled, hrest.whole,
          hrest.ahead_le, hrest.unread, hrest.looked⟩
      · intro hphase
        obtain ⟨hline, hcalling⟩ := h.beginning hphase
        rw [hto] at hcalling
        obtain ⟨hz, hnext⟩ := hcalling.symbol h.quiet sda
        refine ⟨?_, ?_⟩
        · exact (if_neg fun hp => hz hp.1 hp.2).trans hline
        · exact (hfrom _).symm ▸ hnext
      · intro size sendStop hphase
        obtain ⟨hline, hcalling⟩ := h.addressed size sendStop hphase
        rw [hto] at hcalling
        obtain ⟨hz, hnext⟩ := hcalling.symbol h.quiet sda
        refine ⟨?_, ?_⟩
        · exact (if_neg fun hp => hz hp.1 hp.2).trans hline
        · exact (hfrom _).symm ▸ hnext
      · intro size sendStop i bit hphase
        obtain ⟨hstate, hbyte, hbit, hunread, hway⟩ := h.receiving size sendStop i bit hphase
        cases hway with
        | received hnone _ _ => exact absurd (hto.symm.trans hnone) (List.cons_ne_nil _ _)
        | asked hone hline hwoken hfresh =>
          rcases hone with hone | hone
          · rw [hto] at hone
            injection hone with hp hrest
            subst hp
            obtain ⟨hkeep, hbits⟩ := Master.symbol_clock sda hstate
            rw [h.quiet, List.nil_append] at hbits
            have hnow : (if 'Z' = 'Z' ∧ s.master.state = .reading then s.line ++ [sda] else s.line) =
                s.line ++ [sda] := if_pos ⟨rfl, hstate⟩
            refine ⟨hkeep, hbyte, hbit, ?_, .received hrest ?_ fun hw => absurd (hwoken.symm.trans hw) (by decide)⟩
            · refine (hfrom _).trans ?_
              rw [hnow, hbits, hunread, TwoWire.bitSymbols_append]
              rfl
            · refine (congrArg List.length hnow).trans ?_
              rw [List.length_append, hline]
              rfl
          · rw [hto] at hone
            injection hone with hp hrest
            subst hp
            have hnone : (s.master.symbol sda 'A').fromFifo = [] :=
              (Master.fromFifo_symbol s.master sda (by decide)).trans h.quiet
            rw [hnone, if_neg fun hz => absurd hz.1 (by decide)]
            exact ⟨Master.symbol_acknowledge sda hstate, hbyte, hbit, hunread,
              .asked (Or.inl hrest) hline hwoken hfresh⟩
    · exact h
  · exact h

/-! ## §8 — the result -/

/-- **One step** in which no old byte is returned. -/
theorem Inv.step (h : Inv s) (e : Event) (hok : s.Unpeeked e) : Inv (s.step e) := by
  cases e with
  | requestFrom address size sendStop =>
    show Inv (if s.phase = .outside then s.requestFrom address size sendStop else s)
    split
    · rename_i hphase
      exact h.requestFrom hphase address size sendStop
    · exact h
  | beginTransmission address =>
    show Inv (if s.phase = .outside then s.beginTransmission address else s)
    split
    · rename_i hphase
      exact h.beginTransmission hphase address
    · exact h
  | read =>
    show Inv (if s.phase = .outside then s.read else s)
    split
    · rename_i hphase
      exact h.read hphase (hok hphase)
    · exact h
  | peek =>
    show Inv (if s.phase = .outside then s.peek else s)
    split
    · rename_i hphase
      exact h.peek hphase (hok hphase)
    · exact h
  | resume => exact h.resume
  | symbol sda => exact h.symbol sda
  | update => exact h.update

/-- The byte that `peek` has left is returned as if it were new. -/
theorem not_current (hold : (s.taken && s.stale) = true) : ¬ Current s.read ∧ ¬ Current s.peek := by
  have htaken : s.taken = true := (Bool.and_eq_true_iff.mp hold).1
  have hlast : (⟨s.waiting.toNat, s.expected, s.taken && s.stale⟩ : Answer) ∈
      s.answers ++ [⟨s.waiting.toNat, s.expected, s.taken && s.stale⟩] :=
    List.mem_append_right _ (List.mem_singleton_self _)
  have hno : ¬ (s.taken && s.stale) = false := by rw [hold]; decide
  unfold WireReads.read WireReads.peek
  rw [if_pos htaken, if_pos htaken]
  exact ⟨fun h => hno (h.answers _ hlast).2, fun h => hno (h.answers _ hlast).2⟩

/-- **Reads return the present request** exactly as long as no `read` and no `peek` finds a byte that was
peeked at before it. -/
theorem reads_current (rwbit : Bool) (es : List Event) :
    Always (fun _ s => Current s) step [] (init rwbit) es ↔ Throughout Unpeeked step (init rwbit) es := by
  refine always_iff_of_invariant (I := fun _ s => Inv s) (fun _ _ hI => hI.current)
    (fun _ _ e hI hok => hI.step e hok) ?_ es [] _ (inv_init rwbit)
  intro _ s e _ hbad
  cases e with
  | read =>
    obtain ⟨hphase, hold⟩ := Classical.not_imp.mp hbad
    show ¬ Current (if s.phase = .outside then s.read else s)
    rw [if_pos hphase]
    exact (not_current (by simpa using hold)).1
  | peek =>
    obtain ⟨hphase, hold⟩ := Classical.not_imp.mp hbad
    show ¬ Current (if s.phase = .outside then s.peek else s)
    rw [if_pos hphase]
    exact (not_current (by simpa using hold)).2
  | _ => exact absurd trivial hbad

/-- A request of one byte, from the call to the return, with the bits that the slave sends. -/
def oneByte (bits : List Bool) : List Event :=
  ([.requestFrom 0x24 1 true, .update] : List Event) ++ List.replicate 12 (.symbol false : Event) ++
    ([.update, .resume] : List Event) ++ bits.flatMap fun b => [Event.update, .symbol b, .update, .resume]

/-- A byte is peeked at, and another one is requested. -/
def peekedByte : List Event :=
  oneByte [false, true, false, true, false, true, false, true] ++ ([.peek] : List Event) ++
    oneByte [true, false, true, false, true, false, true, false] ++ ([.read] : List Event)

/-- The second request has received `0xaa`, and `0x55` is read. -/
theorem peeked_byte_returned :
    (peekedByte.foldl step (init false)).answers = [⟨0x55, 0x55, false⟩, ⟨0x55, 0xaa, true⟩] ∧
      ¬ Always (fun _ s => Current s) step [] (init false) peekedByte := by
  have hanswers : (peekedByte.foldl step (init false)).answers = [⟨0x55, 0x55, false⟩, ⟨0x55, 0xaa, true⟩] := by
    decide +kernel
  refine ⟨hanswers, fun hall => ?_⟩
  have hlast := hall.last.answers ⟨0x55, 0xaa, true⟩ (hanswers ▸ by decide)
  exact absurd hlast.2 (by decide)

end WireReads

end Espmod.I2c
