/-
# Espmod.I2c.Pn532 — the PN532 on the bus

`pn532::i2c_th` takes the bytes of a write into its FIFO `from`, and in a read it gives the status byte
1 and then the FIFO `to`, or zeros where `to` was empty at the address. It drives the data line only at
a fall of the clock, so that its side of the line never moves while the clock is high, and every
transfer of the master goes through (`transfers`).
-/
import Espmod.I2c.Transfers

namespace Espmod.I2c

/-! ## §1 — the thread -/

/-- `PN532_ID`. -/
def PN532_ID : BitVec 8 := 0x24

inductive BufferState where
  | unknown
  | notused
  | valid
  | invalid
deriving Repr, DecidableEq

/-- The variables of `i2c_th` and the two FIFOs, with what the consumer of `from` has taken. -/
structure Pn532 where
  i2cstate : I2cState
  i : Int
  devid : Nat
  data : Nat
  bufferState : BufferState
  /-- it drives `sda` low, and otherwise leaves it -/
  sdaLow : Bool
  toFifo : List (BitVec 8)
  fromFifo : List (BitVec 8)
  consumed : List (BitVec 8)
deriving Repr, DecidableEq

namespace Pn532

def flushTo (s : Pn532) : Pn532 := { s with toFifo := [] }

/-- The start bit. -/
def start (s : Pn532) : Pn532 :=
  { s with i2cstate := .devid, i := 7, devid := 0, bufferState := .unknown }

/-- The stop bit: a buffer that was given out is flushed. -/
def stop (s : Pn532) : Pn532 :=
  let s := if s.bufferState = .valid then s.flushTo else s
  { s with i2cstate := .idle }

/-- The next byte of a valid buffer. -/
def next (s : Pn532) : Pn532 :=
  match s.toFifo with
  | [] => { s with data := 0 }
  | m :: rest => { s with data := m.toNat, toFifo := rest }

/-- The rise of the clock, with the level of `sda`. -/
def rise (sda : Bool) (s : Pn532) : Pn532 :=
  match s.i2cstate with
  | .idle => s
  | .devid =>
    let s :=
      if s.i > 0 then { s with devid := shiftIn s.devid sda }
      else if s.devid = PN532_ID.toNat ∧ sda then
        { s with
          i2cstate := .ackrd
          bufferState := if s.toFifo = [] then .invalid else .valid }
      else if s.devid = PN532_ID.toNat ∧ !sda then
        { s with i2cstate := .ackwr, bufferState := .notused }
      else { s with i2cstate := .retz }
    { s with i := s.i - 1 }
  | .retz => { s with i2cstate := .idle }
  | .ackrd | .ackwr =>
    let s := { s with i := 7 }
    match s.bufferState with
    | .invalid => { s with data := 0x00, i2cstate := .read }
    | .valid => { s with data := 0x01, i2cstate := .read }
    | _ => { s with data := 0, i2cstate := .wrdata, fromFifo := [] }
  | .wrdata =>
    let s : Pn532 := { s with data := shiftIn s.data sda }
    if s.i = 0 then { s with i2cstate := .ackwrd } else { s with i := s.i - 1 }
  | .ackwrd =>
    { s with
      fromFifo := s.fromFifo ++ [BitVec.ofNat 8 s.data]
      data := 0
      i := 7
      i2cstate := .wrdata }
  | .acknack =>
    if sda then
      let s := { s with i2cstate := .idle }
      if s.bufferState = .valid then s.flushTo else s
    else if s.bufferState = .invalid then { s with i2cstate := .read, i := 7, data := 0x7f }
    else { s with i2cstate := .read, i := 7 }.next
  | .read => if s.i = 0 then { s with i2cstate := .acknack } else { s with i := s.i - 1 }

/-- The fall of the clock. -/
def fall (s : Pn532) : Pn532 :=
  match s.i2cstate with
  | .retz => { s with sdaLow := false }
  | .ackrd | .ackwr | .ackwrd => { s with sdaLow := true }
  | .wrdata | .acknack => { s with sdaLow := false }
  | .read => { s with sdaLow := s.bufferState = .invalid ∨ !s.data.testBit s.i.toNat }
  | _ => s

/-- The consumer of `from` takes a byte; nobody else touches the FIFOs during a transfer. -/
inductive Event where
  | take
deriving Repr, DecidableEq

def world : Event → Pn532 → Pn532
  | .take, s => { s with fromFifo := s.fromFifo.tail, consumed := s.consumed ++ s.fromFifo.head?.toList }

/-- `i2c_th` as a slave. -/
def slave : Slave Pn532 Event where
  low := sdaLow
  start := start
  stop := stop
  rise := rise
  fall := fall
  world := world
  low_start _ := rfl
  low_stop s := by
    unfold stop flushTo
    split <;> rfl
  low_world e _ := by
    cases e
    rfl

/-- What a read of `n` bytes returns: the status byte and the FIFO, or zeros for an empty one. -/
def returned (fifo : List (BitVec 8)) (n : Nat) : List (BitVec 8) :=
  if fifo = [] then List.replicate n 0 else (0x01 :: fifo ++ List.replicate n 0).take n

/-! ## §2 — the address -/

/-- The thread moves its side of the data line at a fall of the clock only. -/
theorem rise_sdaLow (v : Bool) (s : Pn532) : (s.rise v).sdaLow = s.sdaLow := by
  unfold rise next flushTo
  dsimp only
  repeat' split
  all_goals rfl

theorem steady (v : Bool) (s : Pn532) : Bus.Steady slave v s := by
  have h : slave.low (slave.rise (v && !slave.low s) s) = slave.low s := rise_sdaLow _ s
  unfold Bus.Steady
  rw [h]

theorem clocked_eq (v : Bool) (s : Pn532) :
    Bus.clocked slave v s = (s.rise (v && !s.sdaLow)).fall := rfl

/-- Nothing has been put into `from` since the state `w`. -/
def Held (w s : Pn532) : Prop := ∃ old, s.consumed = w.consumed ++ old ∧ old ++ s.fromFifo = w.fromFifo

theorem held_rfl (w : Pn532) : Held w w := ⟨[], (List.append_nil _).symm, rfl⟩

/-- The consumer takes the head of a list. -/
theorem head_append_tail (fifo : List (BitVec 8)) : fifo.head?.toList ++ fifo.tail = fifo := by
  cases fifo <;> rfl

theorem Held.take {w s : Pn532} (h : Held w s) : Held w (world .take s) := by
  obtain ⟨old, hconsumed, hfifo⟩ := h
  refine ⟨old ++ s.fromFifo.head?.toList, ?_, ?_⟩
  · show s.consumed ++ _ = _
    rw [hconsumed, List.append_assoc]
  · show _ ++ s.fromFifo.tail = _
    rw [List.append_assoc, head_append_tail, hfifo]

/-- The thread has taken these bits of its address. -/
structure Addressed (rw : Bool) (fifo : List (BitVec 8)) (w : Pn532) (l : List Bool) (s : Pn532) : Prop where
  count : l.length < 8 → s.i2cstate = .devid ∧ s.i = 7 - l.length ∧ s.devid = l.foldl shiftIn 0
  full : l.length = 8 → s.i2cstate = (if rw then .ackrd else .ackwr) ∧
    s.bufferState = if rw then (if fifo = [] then .invalid else .valid) else .notused
  sdaLow : s.sdaLow = decide (l.length = 8)
  toFifo : s.toFifo = fifo
  held : Held w s

variable {rw : Bool} {fifo : List (BitVec 8)} {l : List Bool} {w s : Pn532}

theorem stable_addressed (l : List Bool) : Bus.Stable slave (Addressed rw fifo w l) := by
  rintro ⟨⟩ s h
  exact ⟨h.count, h.full, h.sdaLow, h.toFifo, h.held.take⟩

theorem Addressed.step {v : Bool} {r : List Bool}
    (hl : l ++ v :: r = bitsOf (addressByte PN532_ID rw)) (h : Addressed rw fifo w l s) :
    Addressed rw fifo w (l ++ [v]) (Bus.clocked slave v s) := by
  obtain ⟨hlen, -, hr⟩ := bitsOf_split hl
  obtain ⟨hstate, hi, hdevid⟩ := h.count hlen
  have hlow : s.sdaLow = false := by rw [h.sdaLow]; exact decide_eq_false (by omega)
  have hv : (v && !s.sdaLow) = v := by rw [hlow, Bool.not_false, Bool.and_true]
  rw [clocked_eq, hv]
  by_cases h7 : l.length = 7
  · -- the last bit is the direction
    obtain rfl := hr h7
    obtain ⟨hid, rfl⟩ := addressByte_bits (by decide) hl
    have hrise : s.rise v =
        { s with
          i := s.i - 1
          i2cstate := if v then .ackrd else .ackwr
          bufferState := if v then (if fifo = [] then .invalid else .valid) else .notused } := by
      have hi0 : ¬s.i > 0 := by rw [hi, h7]; decide
      have hid' : s.devid = PN532_ID.toNat := hdevid.trans hid
      unfold rise
      rw [hstate]
      cases v <;> simp [hi0, hid', h.toFifo]
    rw [hrise]
    cases v <;>
      exact
        { count := fun hlt => absurd hlt (by simp [h7])
          full := fun _ => ⟨rfl, rfl⟩
          sdaLow := by simp [fall, h7]
          toFifo := h.toFifo
          held := h.held }
  · have hrise : s.rise v = { s with devid := shiftIn s.devid v, i := s.i - 1 } := by
      have hi0 : s.i > 0 := by omega
      unfold rise
      rw [hstate]
      simp [hi0]
    have hfall : (s.rise v).fall = s.rise v := by
      unfold fall
      rw [hrise]
      simp only [hstate]
    rw [hfall, hrise]
    exact
      { count := fun _ => ⟨hstate, by simp [hi]; omega, by simp [hdevid]⟩
        full := fun h8 => absurd h8 (by simp [h7])
        sdaLow := by simp [hlow, h7]
        toFifo := h.toFifo
        held := h.held }

/-- The address of a transfer, up to its acknowledgement. -/
theorem address (rw : Bool) {Q : Pn532 → Prop} {out : List Char} {cs : List Cond} (hQ : Bus.Stable slave Q)
    (hask : ∀ s, Addressed rw fifo w (bitsOf (addressByte PN532_ID rw)) s →
      Q (Bus.clocked slave true s)) :
    Bus.Triple slave (Bus.Boundary slave (Addressed rw fifo w []) .devid none out cs)
      (sendByte (addressByte PN532_ID rw))
      (Bus.Boundary slave Q (if rw then .reading else .writing) none (out ++ ['A']) cs) := by
  have hdir : (addressByte PN532_ID rw).getLsbD 0 = rw := by cases rw <;> rfl
  refine Bus.Triple.sendByte (Or.inl ⟨rfl, hdir⟩) stable_addressed hQ ?_ ?_
  · exact fun l v r hl s hs => ⟨steady v s, hs.step hl⟩
  · exact fun s hs => ⟨hs.sdaLow, steady true s, hask s hs⟩

/-! ## §3 — a write -/

/-- These bytes have been put into `from` since the state `w`, behind what was left over: the consumer has
taken some of them, and the rest is there. -/
def Given (w : Pn532) (taken : List (BitVec 8)) (s : Pn532) : Prop :=
  ∃ old got, s.consumed = w.consumed ++ old ++ got ∧ old <+: w.fromFifo ∧ got ++ s.fromFifo = taken

theorem Given.take {taken : List (BitVec 8)} (h : Given w taken s) : Given w taken (world .take s) := by
  obtain ⟨old, got, hconsumed, hold, hfifo⟩ := h
  refine ⟨old, got ++ s.fromFifo.head?.toList, ?_, hold, ?_⟩
  · show s.consumed ++ _ = _
    rw [hconsumed, List.append_assoc _ got]
  · show _ ++ s.fromFifo.tail = _
    rw [List.append_assoc, head_append_tail, hfifo]

/-- The thread has taken these bytes, and these bits of the next one. -/
structure Taking (w : Pn532) (taken : List (BitVec 8)) (l : List Bool) (s : Pn532) : Prop where
  count : l.length < 8 → s.i2cstate = .wrdata ∧ s.i = 7 - l.length ∧ s.data = l.foldl shiftIn 0
  full : l.length = 8 → s.i2cstate = .ackwrd ∧ s.data = l.foldl shiftIn 0
  sdaLow : s.sdaLow = decide (l.length = 8)
  given : Given w taken s

variable {taken : List (BitVec 8)}

theorem stable_taking (l : List Bool) : Bus.Stable slave (Taking w taken l) := by
  rintro ⟨⟩ s h
  exact ⟨h.count, h.full, h.sdaLow, h.given.take⟩

/-- The address of a write is acknowledged, and what was left in `from` is dumped. -/
theorem Addressed.write (h : Addressed false fifo w (bitsOf (addressByte PN532_ID false)) s) :
    Taking w [] [] (Bus.clocked slave true s) := by
  obtain ⟨hstate, hbuffer⟩ := h.full rfl
  have hlow : s.sdaLow = true := h.sdaLow
  have hrise : s.rise false = { s with i := 7, data := 0, i2cstate := .wrdata, fromFifo := [] } := by
    unfold rise
    rw [if_neg Bool.false_ne_true] at hstate hbuffer
    simp only [hstate, hbuffer]
  rw [clocked_eq, hlow, Bool.not_true, Bool.and_false, hrise]
  exact
    { count := fun _ => ⟨rfl, rfl, rfl⟩
      full := nofun
      sdaLow := rfl
      given := by
        obtain ⟨old, hconsumed, hfifo⟩ := h.held
        exact ⟨old, [], hconsumed.trans (List.append_nil _).symm, ⟨s.fromFifo, hfifo⟩, rfl⟩ }

theorem Taking.step {data : BitVec 8} {v : Bool} {r : List Bool} (hl : l ++ v :: r = bitsOf data)
    (h : Taking w taken l s) : Taking w taken (l ++ [v]) (Bus.clocked slave v s) := by
  obtain ⟨hlen, -, -⟩ := bitsOf_split hl
  obtain ⟨hstate, hi, hdata⟩ := h.count hlen
  have hlow : s.sdaLow = false := by rw [h.sdaLow]; exact decide_eq_false (by omega)
  have hv : (v && !s.sdaLow) = v := by rw [hlow, Bool.not_false, Bool.and_true]
  rw [clocked_eq, hv]
  by_cases h7 : l.length = 7
  · have hrise : s.rise v = { s with data := shiftIn s.data v, i2cstate := .ackwrd } := by
      have hi0 : s.i = 0 := by rw [hi, h7]; rfl
      unfold rise
      rw [hstate]
      simp only [hi0, if_true]
    rw [hrise]
    exact
      { count := fun hlt => absurd hlt (by simp [h7])
        full := fun _ => ⟨rfl, by simp [fall, hdata]⟩
        sdaLow := by simp [fall, h7]
        given := h.given }
  · have hrise : s.rise v = { s with data := shiftIn s.data v, i := s.i - 1 } := by
      have hi0 : ¬s.i = 0 := by omega
      unfold rise
      rw [hstate]
      simp only [hi0, if_false]
    have hfall : (s.rise v).fall = s.rise v := by
      unfold fall
      rw [hrise]
      simp only [hstate, hlow]
    rw [hfall, hrise]
    exact
      { count := fun _ => ⟨hstate, by simp [hi]; omega, by simp [hdata]⟩
        full := fun h8 => absurd h8 (by simp [h7])
        sdaLow := by simp [hlow, h7]
        given := h.given }

/-- A byte is acknowledged and goes into `from`. -/
theorem Taking.next {data : BitVec 8} (h : Taking w taken (bitsOf data) s) :
    Taking w (taken ++ [data]) [] (Bus.clocked slave true s) := by
  obtain ⟨hstate, hdata⟩ := h.full rfl
  have hlow : s.sdaLow = true := h.sdaLow
  rw [foldl_shiftIn_bitsOf] at hdata
  have hrise : s.rise false =
      { s with
        fromFifo := s.fromFifo ++ [data]
        data := 0
        i := 7
        i2cstate := .wrdata } := by
    unfold rise
    simp only [hstate, hdata, BitVec.ofNat_toNat, BitVec.setWidth_eq]
  rw [clocked_eq, hlow, Bool.not_true, Bool.and_false, hrise]
  obtain ⟨old, got, hconsumed, hold, hfifo⟩ := h.given
  exact
    { count := fun _ => ⟨rfl, rfl, rfl⟩
      full := nofun
      sdaLow := rfl
      given := by
        refine ⟨old, got, hconsumed, hold, ?_⟩
        show got ++ (s.fromFifo ++ [data]) = _
        rw [← List.append_assoc, hfifo] }

theorem sendBytes {out : List Char} {cs : List Cond} (data : List (BitVec 8)) :
    Bus.Triple slave (Bus.Boundary slave (Taking w [] []) .writing none out cs)
      (data.flatMap sendByte)
      (Bus.Boundary slave (Taking w data []) .writing none (out ++ List.replicate data.length 'A') cs) := by
  refine Bus.Triple.sendBytes (W := fun taken => Taking w taken []) (fun _ => stable_taking []) ?_
  intro taken d r out _
  refine Bus.Triple.sendByte (R := Taking w taken) (Or.inr ⟨rfl, rfl⟩) stable_taking
    (stable_taking []) ?_ ?_
  · exact fun l v r hl s hs => ⟨steady v s, hs.step hl⟩
  · exact fun s hs => ⟨hs.sdaLow, steady true s, hs.next⟩

/-! ## §4 — a read -/

/-- Byte `k` of a read: the status, then the FIFO, then zeros; an empty FIFO gives zeros alone. -/
def byteAt (fifo : List (BitVec 8)) (k : Nat) : BitVec 8 :=
  if fifo = [] then 0 else (0x01 :: fifo)[k]?.getD 0

/-- The thread sends byte `k` of a read, and has sent these bits of it. -/
structure Sending (fifo : List (BitVec 8)) (k : Nat) (l : List Bool) (s : Pn532) : Prop where
  buffer : s.bufferState = if fifo = [] then .invalid else .valid
  data : fifo ≠ [] → s.data = (byteAt fifo k).toNat ∧ s.toFifo = fifo.drop k
  count : l.length < 8 → s.i2cstate = .read ∧ s.i = 7 - l.length ∧
    s.sdaLow = !(byteAt fifo k).getLsbD (7 - l.length)
  full : l.length = 8 → s.i2cstate = .acknack ∧ s.sdaLow = false

variable {k : Nat}

theorem stable_sending (l : List Bool) : Bus.Stable slave (Sending fifo k l) := by
  rintro ⟨⟩ s h
  exact ⟨h.buffer, h.data, h.count, h.full⟩

/-- With the byte and the bit count in place the fall of the clock puts the bit on the line. -/
theorem sending_fall {j : Nat} (hj : l.length = j) (hj8 : j < 8) (hstate : s.i2cstate = .read)
    (hbuffer : s.bufferState = if fifo = [] then .invalid else .valid) (hi : s.i = 7 - j)
    (hdata : fifo ≠ [] → s.data = (byteAt fifo k).toNat ∧ s.toFifo = fifo.drop k) :
    Sending fifo k l s.fall := by
  have hfall : s.fall = { s with sdaLow := !(byteAt fifo k).getLsbD (7 - j) } := by
    have hnat : s.i.toNat = 7 - j := by omega
    unfold fall
    simp only [hstate, hbuffer, hnat]
    by_cases hf : fifo = []
    · simp [hf, byteAt]
    · simp [hf, (hdata hf).1, BitVec.getLsbD]
  rw [hfall]
  exact
    { buffer := hbuffer
      data := hdata
      count := fun _ => ⟨hstate, by rw [hj]; exact hi, by rw [hj]⟩
      full := fun h8 => absurd h8 (by omega) }

/-- The address of a read is acknowledged, and the status byte comes first. -/
theorem Addressed.read (h : Addressed true fifo w (bitsOf (addressByte PN532_ID true)) s) :
    Sending fifo 0 [] (Bus.clocked slave true s) := by
  obtain ⟨hstate, hbuffer⟩ := h.full rfl
  rw [if_pos rfl] at hstate hbuffer
  have hlow : s.sdaLow = true := h.sdaLow
  have hrise : s.rise false =
      { s with i := 7, data := if fifo = [] then 0 else 1, i2cstate := .read } := by
    unfold rise
    simp only [hstate, hbuffer]
    by_cases hf : fifo = [] <;> simp [hf]
  rw [clocked_eq, hlow, Bool.not_true, Bool.and_false, hrise]
  refine sending_fall rfl (by decide) rfl hbuffer rfl fun hf => ⟨?_, h.toFifo⟩
  simp [byteAt, hf]

theorem Sending.step {v : Bool} {r : List Bool} (hl : l ++ v :: r = bitsOf (byteAt fifo k))
    (h : Sending fifo k l s) :
    s.sdaLow = !v ∧ Sending fifo k (l ++ [v]) (Bus.clocked slave true s) := by
  obtain ⟨hlen, hv, -⟩ := bitsOf_split hl
  obtain ⟨hstate, hi, hlow⟩ := h.count hlen
  refine ⟨hlow.trans (by rw [hv]), ?_⟩
  rw [clocked_eq]
  generalize (true && !s.sdaLow) = level
  by_cases h7 : l.length = 7
  · have hrise : s.rise level = { s with i2cstate := .acknack } := by
      have hi0 : s.i = 0 := by rw [hi, h7]; rfl
      unfold rise
      simp only [hstate, hi0, if_true]
    rw [hrise]
    exact
      { buffer := h.buffer
        data := h.data
        count := fun hlt => absurd hlt (by simp [h7])
        full := fun _ => ⟨rfl, rfl⟩ }
  · have hrise : s.rise level = { s with i := s.i - 1 } := by
      have hi0 : ¬s.i = 0 := by omega
      unfold rise
      simp only [hstate, hi0, if_false]
    rw [hrise]
    refine sending_fall (j := l.length + 1) (by simp) (by omega) hstate h.buffer ?_ h.data
    change s.i - 1 = _
    rw [hi]
    push_cast
    omega

/-- What is taken from the FIFO after byte `k` is byte `k + 1`. -/
theorem next_eq (hf : fifo ≠ []) (hto : s.toFifo = fifo.drop k) :
    s.next = { s with data := (byteAt fifo (k + 1)).toNat, toFifo := fifo.drop (k + 1) } := by
  have hbyte : byteAt fifo (k + 1) = fifo[k]?.getD 0 := by
    unfold byteAt
    rw [if_neg hf, List.getElem?_cons_succ]
  unfold next
  by_cases hk : k < fifo.length
  · have hdrop : s.toFifo = fifo[k] :: fifo.drop (k + 1) := by
      rw [hto, List.drop_eq_getElem_cons hk]
    rw [hdrop, hbyte, List.getElem?_eq_getElem hk]
    rfl
  · have hlen : fifo.length ≤ k := by omega
    have hdrop : s.toFifo = [] := by rw [hto, List.drop_eq_nil_iff.mpr hlen]
    have hdrop' : fifo.drop (k + 1) = s.toFifo := by
      rw [hdrop, List.drop_eq_nil_iff.mpr (by omega)]
    rw [hbyte, List.getElem?_eq_none hlen, hdrop']
    simp only [hdrop]
    rfl

/-- The master wants more: the next byte is the next one of the FIFO. -/
theorem Sending.more (h : Sending fifo k (bitsOf (byteAt fifo k)) s) :
    Sending fifo (k + 1) [] (Bus.clocked slave false s) := by
  obtain ⟨hstate, hlow⟩ := h.full rfl
  rw [clocked_eq, Bool.false_and]
  by_cases hf : fifo = []
  · have hbuffer : s.bufferState = .invalid := by rw [h.buffer, if_pos hf]
    have hrise : s.rise false = { s with i2cstate := .read, i := 7, data := 0x7f } := by
      unfold rise
      simp only [hstate, hbuffer, Bool.false_eq_true, if_false, if_true]
    rw [hrise]
    exact sending_fall rfl (by decide) rfl h.buffer rfl fun hne => absurd hf hne
  · obtain ⟨-, hto⟩ := h.data hf
    have hbuffer : s.bufferState = .valid := by rw [h.buffer, if_neg hf]
    have hrise : s.rise false =
        { s with
          i2cstate := .read
          i := 7
          data := (byteAt fifo (k + 1)).toNat
          toFifo := fifo.drop (k + 1) } := by
      have hnext := next_eq (s := { s with i2cstate := .read, i := 7 }) hf hto
      unfold rise
      simp only [hstate, hbuffer, Bool.false_eq_true, if_false, reduceCtorEq]
      simpa only [hbuffer] using hnext
    rw [hrise]
    exact sending_fall rfl (by decide) rfl h.buffer rfl fun _ => ⟨rfl, rfl⟩

/-- These bytes of a read are over. -/
def Sent (fifo sent : List (BitVec 8)) : Prop := sent = (List.range sent.length).map (byteAt fifo)

theorem Sent.snoc {sent : List (BitVec 8)} (h : Sent fifo sent) :
    Sent fifo (sent ++ [byteAt fifo sent.length]) := by
  unfold Sent at h ⊢
  rw [List.length_append, List.length_singleton, List.range_succ, List.map_append, List.map_singleton,
    ← h]

/-- The thread is out of a read. -/
def Done (fifo sent : List (BitVec 8)) (s : Pn532) : Prop :=
  Sent fifo sent ∧ s.i2cstate = .idle ∧ s.sdaLow = false

theorem stable_done {sent : List (BitVec 8)} : Bus.Stable slave (Done fifo sent) := by
  rintro ⟨⟩ s h
  exact h

theorem Sending.last (h : Sending fifo k (bitsOf (byteAt fifo k)) s) :
    (Bus.clocked slave true s).i2cstate = .idle ∧ (Bus.clocked slave true s).sdaLow = false := by
  obtain ⟨hstate, hlow⟩ := h.full rfl
  have hidle : (s.rise true).i2cstate = .idle := by
    unfold rise flushTo
    simp only [hstate, if_true]
    split <;> rfl
  have hfall : (s.rise true).fall = s.rise true := by
    unfold fall
    simp only [hidle]
  rw [clocked_eq, hlow, Bool.not_false, Bool.and_true, hfall]
  exact ⟨hidle, (rise_sdaLow true s).trans hlow⟩

/-- The bytes of a read, from the status byte on. -/
theorem readBytes {out : List Char} {cs : List Cond} (n : Nat) :
    Bus.Triple slave (Bus.Boundary slave (Sending fifo 0 []) .reading none out cs)
      ((List.replicate n (readByte false)).flatten ++ readByte true)
      (fun b => ∃ sent, sent.length = n + 1 ∧
        Bus.Boundary slave (Done fifo sent) .idle none (out ++ bitSymbols sent) cs b) := by
  let W (sent : List (BitVec 8)) (d : BitVec 8) (s : Pn532) : Prop :=
    Sent fifo sent ∧ d = byteAt fifo sent.length ∧ Sending fifo sent.length [] s
  -- the bits of one byte, for either answer
  have hbyte (last : Bool) {Q : Pn532 → Prop} (sent : List (BitVec 8)) (out : List Char)
      (hQ : Bus.Stable slave Q)
      (hanswer : ∀ s, Sending fifo sent.length (bitsOf (byteAt fifo sent.length)) s →
        Q (Bus.clocked slave last s)) :
      Bus.Triple slave (Bus.Boundary slave (Sending fifo sent.length []) .reading none out cs)
        (readByte last)
        (Bus.Boundary slave Q (if last then .idle else .reading) none
          (out ++ binary (byteAt fifo sent.length)) cs) := by
    refine Bus.Triple.readByte stable_sending hQ ?_ fun s hs => ⟨steady last s, hanswer s hs⟩
    intro l v r hl s hs
    exact ⟨(hs.step hl).1, steady true s, (hs.step hl).2⟩
  have hstart (b : Bus Pn532) (hb : Bus.Boundary slave (Sending fifo 0 []) .reading none out cs b) :
      Bus.Boundary slave (fun s => ∃ d, W [] d s) .reading none out cs b :=
    hb.mono fun s hs => ⟨byteAt fifo 0, rfl, rfl, hs⟩
  refine (Bus.Triple.readBytes (W := W) (F := Done fifo) ?_ ?_ n).mono hstart
  · intro sent d out b b' hb hrun
    obtain ⟨-, ⟨hsent, rfl, -⟩, -⟩ := hb.slave
    refine hbyte false sent out ?_ (fun s hs => ?_) b b' (hb.mono fun s hs => hs.2.2) hrun
    · rintro e s ⟨d, hs, hd, h⟩
      exact ⟨d, hs, hd, stable_sending [] e s h⟩
    · have hlen : (sent ++ [byteAt fifo sent.length]).length = sent.length + 1 := by simp
      exact ⟨_, hsent.snoc, rfl, by rw [hlen]; exact hs.more⟩
  · intro sent d out b b' hb hrun
    obtain ⟨-, ⟨hsent, rfl, -⟩, -⟩ := hb.slave
    refine hbyte true sent out ?_ (fun s hs => ?_) b b' (hb.mono fun s hs => hs.2.2) hrun
    · rintro ⟨⟩ s h
      exact h
    · exact ⟨hsent.snoc, hs.last⟩

theorem returned_eq (fifo : List (BitVec 8)) (n : Nat) :
    returned fifo n = (List.range n).map (byteAt fifo) := by
  unfold returned
  by_cases hf : fifo = []
  · have hbyte : byteAt fifo = fun _ => 0 := funext fun k => by simp [byteAt, hf]
    rw [if_pos hf, hbyte, List.map_const', List.length_range]
  · rw [if_neg hf]
    apply List.ext_getElem
    · simp
      omega
    · intro k hk _
      simp only [List.getElem_take, List.getElem_map, List.getElem_range, byteAt, hf, if_false]
      by_cases hlen : k < (0x01 :: fifo).length
      · rw [List.getElem_append_left hlen, List.getElem?_eq_getElem hlen, Option.getD_some]
      · rw [List.getElem_append_right (by omega), List.getElem?_eq_none (by omega),
          List.getElem_replicate, Option.getD_none]

/-! ## §5 — transfers -/

/-- The thread before a transfer. -/
def Before (fifo : List (BitVec 8)) (w s : Pn532) : Prop := s.toFifo = fifo ∧ Held w s

theorem stable_before : Bus.Stable slave (Before fifo w) := by
  rintro ⟨⟩ s h
  exact ⟨h.1, h.2.take⟩

theorem Before.start (h : Before fifo w s) (hlow : s.sdaLow = false) :
    Addressed rw fifo w [] (slave.fall (slave.start s)) :=
  { count := fun _ => ⟨rfl, rfl, rfl⟩
    full := nofun
    sdaLow := hlow
    toFifo := h.1
    held := h.2 }

theorem stable_given {data : List (BitVec 8)} : Bus.Stable slave (Given w data) := by
  rintro ⟨⟩ s h
  exact h.take

/-- The stop after a write finds the thread at the first bit of a byte. -/
theorem Taking.stop {data : List (BitVec 8)} (h : Taking w data [] s) :
    slave.low (slave.rise false s) = false ∧ Given w data (slave.stop (slave.rise false s)) := by
  obtain ⟨hstate, hi, -⟩ := h.count (by decide)
  have hrise : s.rise false = { s with data := shiftIn s.data false, i := s.i - 1 } := by
    have hi0 : ¬s.i = 0 := by rw [hi]; decide
    unfold rise
    simp only [hstate, hi0, if_false]
  have hstop : (s.rise false).stop.consumed = s.consumed ∧ (s.rise false).stop.fromFifo = s.fromFifo := by
    rw [hrise]
    unfold Pn532.stop flushTo
    split <;> exact ⟨rfl, rfl⟩
  obtain ⟨old, got, hconsumed, hold, hfifo⟩ := h.given
  refine ⟨(rise_sdaLow false s).trans h.sdaLow, old, got, hstop.1.trans hconsumed, hold, ?_⟩
  change got ++ (s.rise false).stop.fromFifo = data
  rw [hstop.2, hfifo]

variable {out : List Char} {cs : List Cond}

theorem writeBody_triple (data : List (BitVec 8)) :
    Bus.Triple slave (Bus.Boundary slave (Addressed false fifo w []) .devid none out cs)
      (writeBody PN532_ID data)
      (Bus.Boundary slave (Taking w data []) .writing none
        (out ++ ['A'] ++ List.replicate data.length 'A') cs) := by
  have haddress : Bus.Triple slave _ _
      (Bus.Boundary slave (Taking w [] []) .writing none (out ++ ['A']) cs) :=
    address false (stable_taking []) fun s (hs : Addressed false fifo w _ s) => hs.write
  exact haddress.seq (sendBytes data)

theorem readBody_triple (n : Nat) :
    Bus.Triple slave (Bus.Boundary slave (Addressed true fifo w []) .devid none out cs)
      (readBody PN532_ID n)
      (fun b => ∃ sent, sent.length = n + 1 ∧
        Bus.Boundary slave (Done fifo sent) .idle none (out ++ ['A'] ++ bitSymbols sent) cs b) := by
  have haddress : Bus.Triple slave _ _
      (Bus.Boundary slave (Sending fifo 0 []) .reading none (out ++ ['A']) cs) :=
    address true (stable_sending []) fun s (hs : Addressed true fifo w _ s) => hs.read
  exact haddress.seq (readBytes n)

variable {b₀ b₁ b₂ b₃ : Bus Pn532}

/-- The bytes of a write arrive in `from` in order, where the consumer may have taken the first of them, and
each is acknowledged. -/
theorem writes (data : List (BitVec 8))
    (h : RunsTransfer slave (writeBody PN532_ID data) b₀ b₁ b₂ b₃) :
    Given b₀.slave data b₃.slave ∧
      b₃.master.fromFifo = b₀.master.fromFifo ++ 'A' :: List.replicate data.length 'A' ∧
      OnlyEnds b₀ b₁ b₂ b₃ ∧ AtRest slave b₃ := by
  have hbody (cs : List Cond) : Bus.Triple slave
      (Bus.Boundary slave (Addressed false b₀.slave.toFifo b₀.slave []) .devid none
        b₀.master.fromFifo cs)
      (writeBody PN532_ID data)
      (fun b => ∃ _ : Unit, Bus.Boundary slave (Taking b₀.slave data []) .writing none
        (b₀.master.fromFifo ++ ['A'] ++ List.replicate data.length 'A') cs b) := by
    intro b b' hb hrun
    exact ⟨(), writeBody_triple data b b' hb hrun⟩
  obtain ⟨-, hslave, hout, hends, hrest⟩ := h.result ⟨rfl, held_rfl _⟩ stable_before (stable_addressed [])
    (fun _ => stable_taking []) (fun _ => stable_given) (fun s => Before.start) hbody
    (fun _ s hs => hs.stop)
  rw [List.append_assoc] at hout
  exact ⟨hslave, hout, hends, hrest⟩

/-- A read returns the bytes of the FIFO behind the status byte. -/
theorem reads (n : Nat) (h : RunsTransfer slave (readBody PN532_ID n) b₀ b₁ b₂ b₃) :
    b₃.master.fromFifo =
        b₀.master.fromFifo ++ 'A' :: bitSymbols (returned b₀.slave.toFifo (n + 1)) ∧
      OnlyEnds b₀ b₁ b₂ b₃ ∧ AtRest slave b₃ := by
  have hbody (cs : List Cond) : Bus.Triple slave
      (Bus.Boundary slave (Addressed true b₀.slave.toFifo b₀.slave []) .devid none
        b₀.master.fromFifo cs)
      (readBody PN532_ID n)
      (fun b => ∃ sent : { sent : List (BitVec 8) // sent.length = n + 1 },
        Bus.Boundary slave (Done b₀.slave.toFifo sent) .idle none
          (b₀.master.fromFifo ++ ['A'] ++ bitSymbols sent) cs b) := by
    intro b b' hb hrun
    obtain ⟨sent, hlen, hsent⟩ := readBody_triple n b b' hb hrun
    exact ⟨⟨sent, hlen⟩, hsent⟩
  have hstop (sent : { sent : List (BitVec 8) // sent.length = n + 1 }) (s : Pn532)
      (hs : Done b₀.slave.toFifo sent s) :
      slave.low (slave.rise false s) = false ∧
        Done b₀.slave.toFifo sent (slave.stop (slave.rise false s)) := by
    have hlow : slave.low (slave.rise false s) = false := (rise_sdaLow false s).trans hs.2.2
    exact ⟨hlow, hs.1, rfl, (slave.low_stop _).trans hlow⟩
  obtain ⟨⟨sent, hlen⟩, hslave, hout, hends, hrest⟩ := h.result ⟨rfl, held_rfl _⟩ stable_before
    (stable_addressed []) (fun _ => stable_done) (fun _ => stable_done) (fun s => Before.start)
    hbody hstop
  have hsent : sent = returned b₀.slave.toFifo (n + 1) := by
    rw [returned_eq, ← hlen]
    exact hslave.1
  rw [hout, List.append_assoc, ← hsent]
  exact ⟨rfl, hends, hrest⟩

/-- **The master and the PN532**: every write puts its bytes into `from`, where they are but for the first
ones that its consumer has taken; every read gives what `to` holds; and the slave takes nothing else for a
start or a stop. -/
theorem transfers :
    (∀ data, RunsTransfer slave (writeBody PN532_ID data) b₀ b₁ b₂ b₃ →
      (∃ old got, b₃.slave.consumed = b₀.slave.consumed ++ old ++ got ∧ old <+: b₀.slave.fromFifo ∧
          got ++ b₃.slave.fromFifo = data) ∧
        b₃.master.fromFifo = b₀.master.fromFifo ++ 'A' :: List.replicate data.length 'A' ∧
        OnlyEnds b₀ b₁ b₂ b₃ ∧ AtRest slave b₃) ∧
    (∀ n, RunsTransfer slave (readBody PN532_ID n) b₀ b₁ b₂ b₃ →
      b₃.master.fromFifo =
          b₀.master.fromFifo ++ 'A' :: bitSymbols (returned b₀.slave.toFifo (n + 1)) ∧
        OnlyEnds b₀ b₁ b₂ b₃ ∧ AtRest slave b₃) :=
  ⟨writes, reads⟩

/-- The thread with these bytes in `to`, before it has done anything. -/
def init (fifo : List (BitVec 8)) : Pn532 := ⟨.idle, 0, 0, 0, .unknown, false, fifo, [], []⟩

/-- Bytes with either bit at either end are written, and a FIFO of such bytes is read past its end. -/
theorem transfers_bothWays :
    (transferred slave (writeBody PN532_ID [0x81, 0x7e]) (.init (init []))).slave.fromFifo =
        [0x81, 0x7e] ∧
      (∃ old got, (transferred slave (writeBody PN532_ID [0x81, 0x7e]) (.init (init []))).slave.consumed =
          [] ++ old ++ got ∧ old <+: [] ∧
        got ++ (transferred slave (writeBody PN532_ID [0x81, 0x7e]) (.init (init []))).slave.fromFifo =
          [0x81, 0x7e]) ∧
      (transferred slave (readBody PN532_ID 3) (.init (init [0x81, 0x7e]))).master.fromFifo =
        'A' :: bitSymbols [0x01, 0x81, 0x7e, 0x00] := by
  have hwrite := transfers.1 [0x81, 0x7e] (runsTransfer_symbols (atRest_init (s := init []) rfl) _)
  have hread := transfers.2 3 (runsTransfer_symbols (atRest_init (s := init [0x81, 0x7e]) rfl) _)
  exact ⟨by decide +kernel, hwrite.1, hread.1⟩

end Pn532

end Espmod.I2c
