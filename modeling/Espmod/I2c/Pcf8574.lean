/-
# Espmod.I2c.Pcf8574 — the PCF8574 on the bus

`pcf8574::i2c_th` drives the pins with the last byte of a write, and returns in a read the levels it
has sampled at the acknowledgement before each byte. After an acknowledgement it keeps the data line
low until the clock has risen for the first bit of the next byte: a one there is taken as a stop
(`Taking.lost`), so a write goes through exactly when all its bytes are below 0x80 (`transfers_done`).
-/
import Espmod.Gpio.ReturnPath
import Espmod.I2c.Transfers

namespace Espmod.I2c

open Espmod.Gpio

/-! ## §1 — the thread -/

/-- The variables of `i2c_th`, what it drives, and the levels on its pins. -/
structure Pcf8574 where
  i2cstate : I2cState
  i : Int
  devid : Nat
  data : Nat
  deviceId : BitVec 8
  drive : BitVec 8
  /-- it drives `sda` low, and otherwise leaves it -/
  sdaLow : Bool
  /-- what it drives on its pins -/
  sig : List GnLogic
  /-- the levels that its pins have -/
  levels : List GnLogic
  /-- the levels of the pins at each acknowledgement after which the master reads a byte -/
  acked : List (List GnLogic)
deriving Repr, DecidableEq

namespace Pcf8574

/-- One pin in the loop of `sampleport`. -/
def samplePin (samp : BitVec 8) (level : GnLogic) (cnt : Nat) : BitVec 8 :=
  if !level.scLogic.islogic then samp
  else if level.scLogic.ishigh then samp ||| 1#8 <<< cnt
  else samp

/-- `pcf8574::sampleport`. -/
def sampleport (levels : List GnLogic) : BitVec 8 :=
  levels.zipIdx.foldl (fun samp (level, cnt) => samplePin samp level cnt) 0

/-- The pins driven with a byte, ones and zeros strong. -/
def driveStrong (drive : BitVec 8) (sig : List GnLogic) : List GnLogic :=
  sig.mapIdx fun cnt _ => if drive.getLsbD cnt then .logic1 else .logic0

/-- The ones of a byte made weak. -/
def weaken (drive : BitVec 8) (sig : List GnLogic) : List GnLogic :=
  sig.mapIdx fun cnt level => if drive.getLsbD cnt then .logicW1 else level

/-- The start bit. -/
def start (s : Pcf8574) : Pcf8574 := { s with i2cstate := .devid, i := 7, devid := 0 }

/-- The stop bit. -/
def stop (s : Pcf8574) : Pcf8574 := { s with i2cstate := .idle }

/-- The pins are sampled into `data`. -/
def sample (s : Pcf8574) : Pcf8574 := { s with data := (sampleport s.levels).toNat }

/-- The rise of the clock, with the level of `sda`. -/
def rise (sda : Bool) (s : Pcf8574) : Pcf8574 :=
  match s.i2cstate with
  | .idle => s
  | .devid =>
    let s :=
      if s.i > 0 then { s with devid := shiftIn s.devid sda }
      else if s.devid = s.deviceId.toNat ∧ sda then { s with i2cstate := .ackrd }
      else if s.devid = s.deviceId.toNat ∧ !sda then { s with i2cstate := .ackwr }
      else { s with i2cstate := .retz }
    { s with i := s.i - 1 }
  | .retz => { s with i2cstate := .idle }
  | .ackrd => { s with i := 7, i2cstate := .read, acked := s.acked ++ [s.levels] }.sample
  | .ackwr => { s with i := 7, data := 0, i2cstate := .wrdata }
  | .wrdata =>
    -- the data line is released here, while the clock is already high
    let s : Pcf8574 := if s.i = 7 then { s with sdaLow := false } else s
    let s : Pcf8574 := { s with data := shiftIn s.data sda }
    if s.i = 0 then { s with i2cstate := .ackwrd } else { s with i := s.i - 1 }
  | .ackwrd =>
    { s with
      drive := BitVec.ofNat 8 s.data
      sig := driveStrong (BitVec.ofNat 8 s.data) s.sig
      data := 0
      i := 7
      i2cstate := .wrdata }
  | .acknack =>
    if sda then { s with i2cstate := .idle }
    else { s with i2cstate := .read, i := 7, acked := s.acked ++ [s.levels] }.sample
  | .read => if s.i = 0 then { s with i2cstate := .acknack } else { s with i := s.i - 1 }

/-- The fall of the clock. -/
def fall (s : Pcf8574) : Pcf8574 :=
  match s.i2cstate with
  | .retz => { s with sdaLow := false }
  | .ackrd | .ackwr | .ackwrd => { s with sdaLow := true }
  | .wrdata => if s.i = 7 ∧ s.drive ≠ 0 then { s with sig := weaken s.drive s.sig } else s
  | .acknack => { s with sdaLow := false }
  | .read => { s with sdaLow := !s.data.testBit s.i.toNat }
  | _ => s

/-- The pins take other levels. -/
inductive Event where
  | levels (levels : List GnLogic)
deriving Repr, DecidableEq

def world : Event → Pcf8574 → Pcf8574
  | .levels levels, s => { s with levels := levels }

/-- `i2c_th` as a slave. -/
def slave : Slave Pcf8574 Event where
  low := sdaLow
  start := start
  stop := stop
  rise := rise
  fall := fall
  world := world
  low_start _ := rfl
  low_stop _ := rfl
  low_world e _ := by
    cases e
    rfl

/-- After the constructor, with this many pins. -/
def init (deviceId : BitVec 8) (pins : Nat) : Pcf8574 :=
  ⟨.idle, 0, 0, 0, deviceId, 0xff, false, List.replicate pins .logicW1, [], []⟩

/-- A pin that reads as one: driven high, weakly or not, in conflict, or analog. -/
def high : GnLogic → Bool
  | .logic1 | .logicW1 | .logicA | .logicX => true
  | .logic0 | .logicW0 | .logicZ => false

/-- The levels of the eight pins as bits, the last pin first; a pin that there is not is zero. -/
def pinSymbols (levels : List GnLogic) : List Char :=
  [7, 6, 5, 4, 3, 2, 1, 0].map fun cnt => Bus.symbolOf (levels[cnt]?.any high)

/-- The pins driven with a byte, ones weak and zeros strong. -/
def driven (data : BitVec 8) (pins : Nat) : List GnLogic :=
  (List.range pins).map fun cnt => if data.getLsbD cnt then .logicW1 else .logic0

/-- A write of these bytes and a last one, or a read of `n` bytes and a last one. -/
inductive Transfer where
  | write (data : List (BitVec 8)) (last : BitVec 8)
  | read (n : Nat)
deriving Repr, DecidableEq

/-- The symbols of a transfer between its start and its stop. -/
def Transfer.body (deviceId : BitVec 8) : Transfer → List Char
  | .write data last => writeBody deviceId (data ++ [last])
  | .read n => readBody deviceId n

/-- The transfer did what it is for. -/
def Transfer.Done (b₀ b₁ b₂ b₃ : Bus Pcf8574) : Transfer → Prop
  | .write data last =>
    b₃.master.fromFifo = b₀.master.fromFifo ++ 'A' :: List.replicate (data ++ [last]).length 'A' ∧
      b₃.slave.sig = driven last b₀.slave.sig.length ∧ OnlyEnds b₀ b₁ b₂ b₃
  | .read n =>
    ∃ acked : List (List GnLogic), acked.length = n + 1 ∧ b₃.slave.acked = b₀.slave.acked ++ acked ∧
      b₃.master.fromFifo = b₀.master.fromFifo ++ 'A' :: acked.flatMap pinSymbols ∧ OnlyEnds b₀ b₁ b₂ b₃

/-- No byte to the slave begins with a one. -/
def Transfer.Small : Transfer → Prop
  | .write data last => ∀ d ∈ data ++ [last], d.toNat < 0x80
  | .read _ => True

/-! ## §2 — the address -/

variable {id : BitVec 8} {pins : Nat} {w : List (List GnLogic)} {rw : Bool} {l : List Bool}
  {s : Pcf8574} {out : List Char} {cs : List Cond}

/-- Only at the first bit of a byte to it does the thread move its side of the data line with the
clock. -/
theorem rise_sdaLow (v : Bool) (h : s.i2cstate = .wrdata → s.i ≠ 7) :
    (s.rise v).sdaLow = s.sdaLow := by
  have hwrite : s.i2cstate = .wrdata → ¬s.i = 7 := h
  unfold rise sample
  dsimp only
  repeat' split
  all_goals first | rfl | simp_all

theorem clocked_eq (v : Bool) (s : Pcf8574) :
    Bus.clocked slave v s = (s.rise (v && !s.sdaLow)).fall := rfl

theorem steady (v : Bool) (h : s.i2cstate = .wrdata → s.i ≠ 7) : Bus.Steady slave v s := by
  have he : slave.low (slave.rise (v && !slave.low s) s) = slave.low s := rise_sdaLow _ h
  unfold Bus.Steady
  rw [he]

/-- The thread has taken these bits of its address. -/
structure Addressed (id : BitVec 8) (pins : Nat) (w : List (List GnLogic)) (rw : Bool) (l : List Bool)
    (s : Pcf8574) : Prop where
  count : l.length < 8 → s.i2cstate = .devid ∧ s.i = 7 - l.length ∧ s.devid = l.foldl shiftIn 0
  full : l.length = 8 → s.i2cstate = if rw then .ackrd else .ackwr
  sdaLow : s.sdaLow = decide (l.length = 8)
  deviceId : s.deviceId = id
  pins : s.sig.length = pins
  acked : s.acked = w

theorem stable_addressed (l : List Bool) : Bus.Stable slave (Addressed id pins w rw l) := by
  rintro ⟨levels⟩ s h
  exact ⟨h.count, h.full, h.sdaLow, h.deviceId, h.pins, h.acked⟩

theorem Addressed.steady {v : Bool} (hlen : l.length < 8) (h : Addressed id pins w rw l s) :
    Bus.Steady slave v s := by
  obtain ⟨hstate, -⟩ := h.count hlen
  exact Pcf8574.steady v (by rw [hstate]; exact nofun)

theorem Addressed.step (hid : id.toNat < 0x80) {v : Bool} {r : List Bool}
    (hl : l ++ v :: r = bitsOf (addressByte id rw)) (h : Addressed id pins w rw l s) :
    Addressed id pins w rw (l ++ [v]) (Bus.clocked slave v s) := by
  obtain ⟨hlen, -, hr⟩ := bitsOf_split hl
  obtain ⟨hstate, hi, hdevid⟩ := h.count hlen
  have hlow : s.sdaLow = false := by rw [h.sdaLow]; exact decide_eq_false (by omega)
  have hv : (v && !s.sdaLow) = v := by rw [hlow, Bool.not_false, Bool.and_true]
  rw [clocked_eq, hv]
  by_cases h7 : l.length = 7
  · -- the last bit is the direction
    obtain rfl := hr h7
    obtain ⟨haddress, rfl⟩ := addressByte_bits hid hl
    have hrise : s.rise v =
        { s with i := s.i - 1, i2cstate := if v then .ackrd else .ackwr } := by
      have hi0 : ¬s.i > 0 := by rw [hi, h7]; decide
      have hid' : s.devid = s.deviceId.toNat := by rw [hdevid, haddress, h.deviceId]
      unfold rise
      rw [hstate]
      cases v <;> simp [hi0, hid']
    rw [hrise]
    cases v <;>
      exact
        { count := fun hlt => absurd hlt (by simp [h7])
          full := fun _ => rfl
          sdaLow := by simp [fall, h7]
          deviceId := h.deviceId
          pins := h.pins
          acked := h.acked }
  · have hrise : s.rise v = { s with devid := shiftIn s.devid v, i := s.i - 1 } := by
      have hi0 : s.i > 0 := by omega
      unfold rise
      rw [hstate]
      simp [hi0]
    have hfall : (s.rise v).fall = s.rise v := by
      unfold fall
      rw [hrise]
      simp only [hstate]
    rw [hfall, hrise]
    exact
      { count := fun _ => ⟨hstate, by simp [hi]; omega, by simp [hdevid]⟩
        full := fun h8 => absurd h8 (by simp [h7])
        sdaLow := by simp [hlow, h7]
        deviceId := h.deviceId
        pins := h.pins
        acked := h.acked }

/-- The address of a transfer, up to its acknowledgement. -/
theorem address (hid : id.toNat < 0x80) {Q : Pcf8574 → Prop} (hQ : Bus.Stable slave Q)
    (hask : ∀ s, Addressed id pins w rw (bitsOf (addressByte id rw)) s →
      Q (Bus.clocked slave true s)) :
    Bus.Triple slave (Bus.Boundary slave (Addressed id pins w rw []) .devid none out cs)
      (sendByte (addressByte id rw))
      (Bus.Boundary slave Q (if rw then .reading else .writing) none (out ++ ['A']) cs) := by
  have hdir : (addressByte id rw).getLsbD 0 = rw := by
    cases rw <;> simp [addressByte]
  refine Bus.Triple.sendByte (Or.inl ⟨rfl, hdir⟩) stable_addressed hQ ?_ ?_
  · exact fun l v r hl s hs => ⟨hs.steady (bitsOf_split hl).1, hs.step hid hl⟩
  · intro s hs
    have hstate := hs.full rfl
    refine ⟨hs.sdaLow, steady true ?_, hask s hs⟩
    rw [hstate]
    cases rw <;> exact nofun

/-! ## §3 — a write -/

/-- The thread has taken these bytes, and these bits of the next one. -/
structure Taking (pins : Nat) (taken : List (BitVec 8)) (l : List Bool) (s : Pcf8574) : Prop where
  count : l.length < 8 → s.i2cstate = .wrdata ∧ s.i = 7 - l.length ∧ s.data = l.foldl shiftIn 0
  full : l.length = 8 → s.i2cstate = .ackwrd ∧ s.data = l.foldl shiftIn 0
  sdaLow : s.sdaLow = decide (l.length = 0 ∨ l.length = 8)
  sig : ∀ last, taken.getLast? = some last → s.sig = driven last pins
  pins : s.sig.length = pins

variable {taken : List (BitVec 8)}

theorem stable_taking (l : List Bool) : Bus.Stable slave (Taking pins taken l) := by
  rintro ⟨levels⟩ s h
  exact ⟨h.count, h.full, h.sdaLow, h.sig, h.pins⟩

theorem weaken_length (drive : BitVec 8) (sig : List GnLogic) :
    (weaken drive sig).length = sig.length := List.length_mapIdx

theorem driven_length (data : BitVec 8) (pins : Nat) : (driven data pins).length = pins := by
  rw [driven, List.length_map, List.length_range]

/-- The pins of a new byte: driven strong, and the ones made weak at the fall of the clock. -/
theorem weaken_driveStrong (data : BitVec 8) (sig : List GnLogic) :
    weaken data (driveStrong data sig) = driven data sig.length := by
  unfold weaken driveStrong driven
  apply List.ext_getElem
  · simp
  · intro cnt h _
    simp only [List.getElem_mapIdx, List.getElem_map, List.getElem_range]
    cases data.getLsbD cnt <;> rfl

/-- A byte without ones has nothing to be made weak. -/
theorem driveStrong_zero (sig : List GnLogic) : driveStrong 0 sig = driven 0 sig.length := by
  unfold driveStrong driven
  apply List.ext_getElem
  · simp
  · intro cnt h _
    simp

/-- The first bit of a byte. -/
theorem first_bit (data : BitVec 8) : data.getLsbD (7 - 0) = decide (0x80 ≤ data.toNat) := by
  have h := BitVec.msb_eq_decide data
  rwa [BitVec.msb_eq_getLsbD_last] at h

/-- The address of a write is acknowledged; the data line stays low. -/
theorem Addressed.write (h : Addressed id pins w false (bitsOf (addressByte id false)) s) :
    Taking pins [] [] (Bus.clocked slave true s) := by
  have hstate : s.i2cstate = .ackwr := h.full rfl
  have hlow : s.sdaLow = true := h.sdaLow
  have hrise : s.rise false = { s with i := 7, data := 0, i2cstate := .wrdata } := by
    unfold rise
    simp only [hstate]
  rw [clocked_eq, hlow, Bool.not_true, Bool.and_false, hrise]
  unfold fall
  split
  all_goals try contradiction
  split
  · exact
      { count := fun _ => ⟨rfl, rfl, rfl⟩
        full := nofun
        sdaLow := hlow
        sig := nofun
        pins := (weaken_length _ _).trans h.pins }
  · exact
      { count := fun _ => ⟨rfl, rfl, rfl⟩
        full := nofun
        sdaLow := hlow
        sig := nofun
        pins := h.pins }

/-- A bit of a byte at the rise of the clock. -/
theorem rise_wrdata (v : Bool) (hstate : s.i2cstate = .wrdata) (hlow : s.i ≠ 7 → s.sdaLow = false) :
    s.rise v =
      if s.i = 0 then { s with sdaLow := false, data := shiftIn s.data v, i2cstate := .ackwrd }
      else { s with sdaLow := false, data := shiftIn s.data v, i := s.i - 1 } := by
  unfold rise
  rw [hstate]
  dsimp only
  by_cases h7 : s.i = 7
  · simp only [h7]
    rfl
  · simp only [if_neg h7, hlow h7, hstate]

/-- A bit of a byte. The first one is taken as a zero whatever the master sends, and goes through
when it is one. -/
theorem Taking.step {data : BitVec 8} {v : Bool} {r : List Bool} (hl : l ++ v :: r = bitsOf data)
    (hfirst : l = [] → v = false) (h : Taking pins taken l s) :
    Bus.Steady slave v s ∧ Taking pins taken (l ++ [v]) (Bus.clocked slave v s) := by
  obtain ⟨hlen, -, -⟩ := bitsOf_split hl
  obtain ⟨hstate, hi, hdata⟩ := h.count hlen
  have hv : (v && !s.sdaLow) = v := by
    cases l with
    | nil => rw [hfirst rfl, Bool.false_and]
    | cons a l =>
      have hlow : s.sdaLow = false := by
        rw [h.sdaLow]
        exact decide_eq_false (by simp only [List.length_cons] at hlen ⊢; omega)
      rw [hlow, Bool.not_false, Bool.and_true]
  have hsteady : Bus.Steady slave v s := by
    cases l with
    | nil =>
      rw [hfirst rfl]
      rfl
    | cons a l => exact steady v fun _ => by simp only [List.length_cons] at hi; omega
  refine ⟨hsteady, ?_⟩
  have hrise := rise_wrdata v hstate fun h7 => by
    rw [h.sdaLow]
    exact decide_eq_false (by omega)
  rw [clocked_eq, hv]
  by_cases h7 : l.length = 7
  · have hi0 : s.i = 0 := by rw [hi, h7]; rfl
    rw [hrise, if_pos hi0]
    exact
      { count := fun hlt => absurd hlt (by simp [h7])
        full := fun _ => ⟨rfl, by simp [fall, hdata]⟩
        sdaLow := by simp [fall, h7]
        sig := h.sig
        pins := h.pins }
  · have hi0 : ¬s.i = 0 := by omega
    rw [if_neg hi0] at hrise
    have hfall : (s.rise v).fall = s.rise v := by
      have hi7 : ¬s.i - 1 = 7 := by omega
      unfold fall
      rw [hrise]
      simp only [hstate, hi7, false_and, if_false]
    rw [hfall, hrise]
    exact
      { count := fun _ => ⟨hstate, by simp [hi]; omega, by simp [hdata]⟩
        full := fun h8 => absurd h8 (by simp [h7])
        sdaLow := by simp [h7]
        sig := h.sig
        pins := h.pins }

/-- A byte is acknowledged, and the pins are driven with it. -/
theorem Taking.next {data : BitVec 8} (h : Taking pins taken (bitsOf data) s) :
    Taking pins (taken ++ [data]) [] (Bus.clocked slave true s) := by
  obtain ⟨hstate, hdata⟩ := h.full rfl
  have hlow : s.sdaLow = true := h.sdaLow
  rw [foldl_shiftIn_bitsOf] at hdata
  have hrise : s.rise false =
      { s with
        drive := data
        sig := driveStrong data s.sig
        data := 0
        i := 7
        i2cstate := .wrdata } := by
    unfold rise
    simp only [hstate, hdata, BitVec.ofNat_toNat, BitVec.setWidth_eq]
  have hfall : (s.rise false).fall = { s.rise false with sig := driven data pins } := by
    rw [hrise]
    unfold fall
    dsimp only
    by_cases h0 : data = 0
    · rw [if_neg (by simp [h0]), h0, driveStrong_zero, h.pins]
    · rw [if_pos ⟨rfl, h0⟩, weaken_driveStrong, h.pins]
  rw [clocked_eq, hlow, Bool.not_true, Bool.and_false, hfall, hrise]
  exact
    { count := fun _ => ⟨rfl, rfl, rfl⟩
      full := nofun
      sdaLow := hlow
      sig := fun last hlast => by
        rw [List.getLast?_append] at hlast
        simp only [List.getLast?_singleton, Option.some_or, Option.some.injEq] at hlast
        rw [hlast]
      pins := driven_length data pins }

/-- Bytes below 0x80 are acknowledged. -/
theorem sendBytes {data : List (BitVec 8)} (hsmall : ∀ d ∈ data, d.toNat < 0x80) :
    Bus.Triple slave (Bus.Boundary slave (Taking pins [] []) .writing none out cs)
      (data.flatMap sendByte)
      (Bus.Boundary slave (Taking pins data []) .writing none
        (out ++ List.replicate data.length 'A') cs) := by
  refine Bus.Triple.sendBytes (W := fun taken => Taking pins taken []) (fun _ => stable_taking []) ?_
  intro taken d r out hdata
  have hd : d.toNat < 0x80 := hsmall d (by rw [← hdata]; simp)
  refine Bus.Triple.sendByte (R := Taking pins taken) (Or.inr ⟨rfl, rfl⟩) stable_taking
    (stable_taking []) ?_ ?_
  · intro l v r hl s hs
    refine hs.step hl fun hnil => ?_
    obtain ⟨-, hv, -⟩ := bitsOf_split hl
    rw [hv, hnil, List.length_nil, first_bit]
    exact decide_eq_false (by omega)
  · intro s hs
    obtain ⟨hstate, -⟩ := hs.full rfl
    exact ⟨hs.sdaLow, steady true (by rw [hstate]; exact nofun), hs.next⟩

/-- **A byte from 0x80 on is lost**: the thread releases the data line with the clock high, and takes
its own release for a stop. -/
theorem Taking.lost (ready : Bool) {b : Bus Pcf8574}
    (h : Bus.Boundary slave (Taking pins taken []) .writing none out cs b) :
    (b.symbol slave (Bus.symbolOf true) ready).conds = cs ++ [Cond.stop] := by
  refine h.release (Or.inr rfl) (fun s hs => ?_) ready
  obtain ⟨hstate, hi, -⟩ := hs.count (by decide)
  have hrise := rise_wrdata false hstate fun h7 => absurd hi h7
  have hi0 : ¬s.i = 0 := by rw [hi]; decide
  rw [if_neg hi0] at hrise
  exact ⟨hs.sdaLow, congrArg Pcf8574.sdaLow hrise⟩

/-! ## §4 — a read -/

theorem high_eq (level : GnLogic) : level.scLogic.ishigh = high level := by cases level <;> decide

/-- A pin in the loop adds its own bit. -/
theorem getLsbD_samplePin (samp : BitVec 8) (level : GnLogic) (cnt : Nat) {i : Nat} (hi : i < 8) :
    (samplePin samp level cnt).getLsbD i = (samp.getLsbD i || decide (i = cnt) && high level) := by
  have hbit : (1#8 <<< cnt).getLsbD i = decide (i = cnt) := by
    rw [BitVec.getLsbD_shiftLeft]
    by_cases heq : i = cnt
    · subst heq
      simp [hi]
    · by_cases hlt : i < cnt
      · simp [heq, hlt]
      · have hne : i - cnt ≠ 0 := by omega
        simp [heq, hne]
  unfold samplePin
  rw [GnLogic.ScLogic.islogic_eq, high_eq]
  cases high level with
  | false => simp
  | true =>
    show (samp ||| 1#8 <<< cnt).getLsbD i = _
    rw [BitVec.getLsbD_or, hbit, Bool.and_true]

/-- **The bits of a sample** are the levels of the pins. -/
theorem getLsbD_sampleport (levels : List GnLogic) {i : Nat} (hi : i < 8) :
    (sampleport levels).getLsbD i = levels[i]?.any high := by
  have hloop : ∀ (levels : List GnLogic) (k : Nat) (samp : BitVec 8),
      ((levels.zipIdx k).foldl (fun samp (level, cnt) => samplePin samp level cnt) samp).getLsbD i =
        (samp.getLsbD i || decide (k ≤ i) && levels[i - k]?.any high) := by
    intro levels
    induction levels with
    | nil => simp
    | cons level levels ih =>
      intro k samp
      rw [List.zipIdx_cons, List.foldl_cons, ih, getLsbD_samplePin samp level k hi]
      by_cases heq : i = k
      · subst heq
        simp
      · by_cases hlt : k < i
        · have hsub : i - k = (i - (k + 1)) + 1 := by omega
          rw [hsub, List.getElem?_cons_succ]
          have h₁ : k + 1 ≤ i := hlt
          have h₂ : k ≤ i := Nat.le_of_lt hlt
          simp [heq, h₁, h₂]
        · have h₁ : ¬ k + 1 ≤ i := by omega
          have h₂ : ¬ k ≤ i := by omega
          simp [heq, h₁, h₂]
  have h := hloop levels 0 0
  rw [Nat.sub_zero] at h
  simpa [sampleport] using h

theorem binary_sampleport (levels : List GnLogic) : binary (sampleport levels) = pinSymbols levels := by
  unfold binary pinSymbols
  refine List.map_congr_left fun i hi => ?_
  have hlt : i < 8 := by
    simp only [List.mem_cons, List.not_mem_nil, or_false] at hi
    omega
  rw [getLsbD_sampleport levels hlt]
  rfl

theorem bitSymbols_sampleport (acked : List (List GnLogic)) :
    bitSymbols (acked.map sampleport) = acked.flatMap pinSymbols := by
  unfold bitSymbols
  rw [List.flatMap_map]
  exact congrArg (fun f => acked.flatMap f) (funext binary_sampleport)

/-- What the pins had, as a byte. -/
def Sampled (w : List (List GnLogic)) (bytes : List (BitVec 8)) (s : Pcf8574) : Prop :=
  ∃ acked, s.acked = w ++ acked ∧ acked.map sampleport = bytes

/-- One more sample. -/
theorem Sampled.snoc {bytes : List (BitVec 8)} {t : Pcf8574} (h : Sampled w bytes s)
    (ht : t.acked = s.acked ++ [s.levels]) : Sampled w (bytes ++ [sampleport s.levels]) t := by
  obtain ⟨acked, hacked, hbytes⟩ := h
  refine ⟨acked ++ [s.levels], ?_, ?_⟩
  · rw [ht, hacked, List.append_assoc]
  · rw [List.map_append, hbytes, List.map_singleton]

/-- The thread has sent these bytes, and these bits of the next one. -/
structure Sending (w : List (List GnLogic)) (sent : List (BitVec 8)) (data : BitVec 8) (l : List Bool)
    (s : Pcf8574) : Prop where
  sampled : Sampled w (sent ++ [data]) s
  holds : s.data = data.toNat
  count : l.length < 8 → s.i2cstate = .read ∧ s.i = 7 - l.length ∧
    s.sdaLow = !data.getLsbD (7 - l.length)
  full : l.length = 8 → s.i2cstate = .acknack ∧ s.sdaLow = false

variable {sent : List (BitVec 8)} {data : BitVec 8}

theorem stable_sending (l : List Bool) : Bus.Stable slave (Sending w sent data l) := by
  rintro ⟨levels⟩ s h
  exact ⟨h.sampled, h.holds, h.count, h.full⟩

/-- The fall of the clock puts the bit on the line. -/
theorem sending_fall {j : Nat} (hj : l.length = j) (hj8 : j < 8) (hstate : s.i2cstate = .read)
    (hi : s.i = 7 - j) (hsampled : Sampled w (sent ++ [data]) s) (hdata : s.data = data.toNat) :
    Sending w sent data l s.fall := by
  have hfall : s.fall = { s with sdaLow := !data.getLsbD (7 - j) } := by
    have hnat : s.i.toNat = 7 - j := by omega
    unfold fall
    simp only [hstate, hdata, hnat, BitVec.getLsbD]
  rw [hfall]
  exact
    { sampled := hsampled
      holds := hdata
      count := fun _ => ⟨hstate, by rw [hj]; exact hi, by rw [hj]⟩
      full := fun h8 => absurd h8 (by omega) }

/-- The address of a read is acknowledged, and the pins are sampled. -/
theorem Addressed.read (h : Addressed id pins w true (bitsOf (addressByte id true)) s) :
    ∃ data, Sending w [] data [] (Bus.clocked slave true s) := by
  have hstate : s.i2cstate = .ackrd := h.full rfl
  have hlow : s.sdaLow = true := h.sdaLow
  have hrise : s.rise false =
      { s with i := 7, i2cstate := .read, acked := s.acked ++ [s.levels] }.sample := by
    unfold rise
    simp only [hstate]
  rw [clocked_eq, hlow, Bool.not_true, Bool.and_false, hrise]
  have hnone : Sampled w [] s := ⟨[], h.acked.trans (List.append_nil w).symm, rfl⟩
  exact ⟨sampleport s.levels, sending_fall rfl (by decide) rfl rfl (hnone.snoc rfl) rfl⟩

theorem Sending.step {v : Bool} {r : List Bool} (hl : l ++ v :: r = bitsOf data)
    (h : Sending w sent data l s) :
    s.sdaLow = !v ∧ Bus.Steady slave true s ∧
      Sending w sent data (l ++ [v]) (Bus.clocked slave true s) := by
  obtain ⟨hlen, hv, -⟩ := bitsOf_split hl
  obtain ⟨hstate, hi, hlow⟩ := h.count hlen
  refine ⟨hlow.trans (by rw [hv]), steady true (by rw [hstate]; exact nofun), ?_⟩
  rw [clocked_eq]
  generalize (true && !s.sdaLow) = level
  by_cases h7 : l.length = 7
  · have hrise : s.rise level = { s with i2cstate := .acknack } := by
      have hi0 : s.i = 0 := by rw [hi, h7]; rfl
      unfold rise
      simp only [hstate, hi0, if_true]
    rw [hrise]
    exact
      { sampled := h.sampled
        holds := h.holds
        count := fun hlt => absurd hlt (by simp [h7])
        full := fun _ => ⟨rfl, rfl⟩ }
  · have hrise : s.rise level = { s with i := s.i - 1 } := by
      have hi0 : ¬s.i = 0 := by omega
      unfold rise
      simp only [hstate, hi0, if_false]
    rw [hrise]
    refine sending_fall (j := l.length + 1) (by simp) (by omega) hstate ?_ h.sampled h.holds
    change s.i - 1 = _
    rw [hi]
    push_cast
    omega

/-- The master wants more: the pins are sampled again. -/
theorem Sending.more (h : Sending w sent data (bitsOf data) s) :
    ∃ data', Sending w (sent ++ [data]) data' [] (Bus.clocked slave false s) := by
  obtain ⟨hstate, -⟩ := h.full rfl
  have hrise : s.rise false =
      { s with i2cstate := .read, i := 7, acked := s.acked ++ [s.levels] }.sample := by
    unfold rise
    simp only [hstate, Bool.false_eq_true, if_false]
  rw [clocked_eq, Bool.false_and, hrise]
  exact ⟨sampleport s.levels, sending_fall rfl (by decide) rfl rfl (h.sampled.snoc rfl) rfl⟩

/-- The thread is out of a read. -/
def Sent (w : List (List GnLogic)) (sent : List (BitVec 8)) (s : Pcf8574) : Prop :=
  Sampled w sent s ∧ s.i2cstate = .idle ∧ s.sdaLow = false

theorem stable_sent : Bus.Stable slave (Sent w sent) := by
  rintro ⟨levels⟩ s h
  exact h

theorem Sending.last (h : Sending w sent data (bitsOf data) s) :
    Sent w (sent ++ [data]) (Bus.clocked slave true s) := by
  obtain ⟨hstate, hlow⟩ := h.full rfl
  have hrise : s.rise true = { s with i2cstate := .idle } := by
    unfold rise
    simp only [hstate, if_true]
  rw [clocked_eq, hlow, Bool.not_false, Bool.and_true, hrise]
  exact ⟨h.sampled, rfl, hlow⟩

/-- The bytes of a read, from the acknowledgement of the address on. -/
theorem readBytes (n : Nat) :
    Bus.Triple slave
      (Bus.Boundary slave (fun s => ∃ data, Sending w [] data [] s) .reading none out cs)
      ((List.replicate n (readByte false)).flatten ++ readByte true)
      (fun b => ∃ sent, sent.length = n + 1 ∧
        Bus.Boundary slave (Sent w sent) .idle none (out ++ bitSymbols sent) cs b) := by
  -- the bits of one byte, for either answer
  have hbyte (last : Bool) {Q : Pcf8574 → Prop} (sent : List (BitVec 8)) (data : BitVec 8)
      (out : List Char) (hQ : Bus.Stable slave Q)
      (hanswer : ∀ s, Sending w sent data (bitsOf data) s → Q (Bus.clocked slave last s)) :
      Bus.Triple slave (Bus.Boundary slave (Sending w sent data []) .reading none out cs)
        (readByte last)
        (Bus.Boundary slave Q (if last then .idle else .reading) none (out ++ binary data) cs) := by
    refine Bus.Triple.readByte stable_sending hQ (fun l v r hl s hs => hs.step hl) fun s hs => ?_
    obtain ⟨hstate, -⟩ := hs.full rfl
    exact ⟨steady last (by rw [hstate]; exact nofun), hanswer s hs⟩
  refine Bus.Triple.readBytes (W := fun sent data => Sending w sent data []) (F := Sent w) ?_ ?_ n
  · intro sent data out
    refine hbyte false sent data out ?_ fun s hs => hs.more
    rintro e s ⟨data', h⟩
    exact ⟨data', stable_sending [] e s h⟩
  · intro sent data out
    exact hbyte true sent data out stable_sent fun s hs => hs.last

/-! ## §5 — transfers -/

/-- The thread before a transfer. -/
def Before (id : BitVec 8) (pins : Nat) (w : List (List GnLogic)) (s : Pcf8574) : Prop :=
  s.deviceId = id ∧ s.sig.length = pins ∧ s.acked = w

theorem stable_before : Bus.Stable slave (Before id pins w) := by
  rintro ⟨levels⟩ s h
  exact h

theorem Before.start (h : Before id pins w s) (hlow : s.sdaLow = false) :
    Addressed id pins w rw [] (slave.fall (slave.start s)) :=
  { count := fun _ => ⟨rfl, rfl, rfl⟩
    full := nofun
    sdaLow := hlow
    deviceId := h.1
    pins := h.2.1
    acked := h.2.2 }

theorem writeBody_triple (hid : id.toNat < 0x80) {bytes : List (BitVec 8)}
    (hsmall : ∀ d ∈ bytes, d.toNat < 0x80) :
    Bus.Triple slave (Bus.Boundary slave (Addressed id pins w false []) .devid none out cs)
      (writeBody id bytes)
      (Bus.Boundary slave (Taking pins bytes []) .writing none
        (out ++ ['A'] ++ List.replicate bytes.length 'A') cs) := by
  have haddress : Bus.Triple slave _ _
      (Bus.Boundary slave (Taking pins [] []) .writing none (out ++ ['A']) cs) :=
    address hid (stable_taking []) fun s (hs : Addressed id pins w false _ s) => hs.write
  exact haddress.seq (sendBytes hsmall)

theorem readBody_triple (hid : id.toNat < 0x80) (n : Nat) :
    Bus.Triple slave (Bus.Boundary slave (Addressed id pins w true []) .devid none out cs)
      (readBody id n)
      (fun b => ∃ sent, sent.length = n + 1 ∧
        Bus.Boundary slave (Sent w sent) .idle none (out ++ ['A'] ++ bitSymbols sent) cs b) := by
  have hstable : Bus.Stable slave (fun s => ∃ data, Sending w [] data [] s) := by
    rintro e s ⟨data, h⟩
    exact ⟨data, stable_sending [] e s h⟩
  have haddress : Bus.Triple slave _ _
      (Bus.Boundary slave (fun s => ∃ data, Sending w [] data [] s) .reading none (out ++ ['A']) cs) :=
    address hid hstable fun s (hs : Addressed id pins w true _ s) => hs.read
  exact haddress.seq (readBytes n)

/-- The pins are driven with the last byte of a write. -/
def Shown (pins : Nat) (last : BitVec 8) (s : Pcf8574) : Prop := s.sig = driven last pins

/-- The stop after a write finds the thread at the first bit of a byte, where it releases the line. -/
theorem Taking.stop {last : BitVec 8} (h : Taking pins (taken ++ [last]) [] s) :
    slave.low (slave.rise false s) = false ∧ Shown pins last (slave.stop (slave.rise false s)) := by
  obtain ⟨hstate, hi, -⟩ := h.count (by decide)
  have hi0 : ¬s.i = 0 := by rw [hi]; decide
  have hrise := rise_wrdata false hstate fun h7 => absurd hi h7
  rw [if_neg hi0] at hrise
  have hsig : (s.rise false).sig = s.sig := (congrArg Pcf8574.sig hrise).trans rfl
  exact ⟨congrArg Pcf8574.sdaLow hrise, hsig.trans (h.sig last (by simp))⟩

variable {b₀ b₁ b₂ b₃ : Bus Pcf8574}

theorem writes {last : BitVec 8} (hid : b₀.slave.deviceId.toNat < 0x80)
    (hsmall : ∀ d ∈ taken ++ [last], d.toNat < 0x80)
    (h : RunsTransfer slave (writeBody b₀.slave.deviceId (taken ++ [last])) b₀ b₁ b₂ b₃) :
    (Transfer.write taken last).Done b₀ b₁ b₂ b₃ := by
  have hbody (cs : List Cond) : Bus.Triple slave
      (Bus.Boundary slave
        (Addressed b₀.slave.deviceId b₀.slave.sig.length b₀.slave.acked false []) .devid none
        b₀.master.fromFifo cs)
      (writeBody b₀.slave.deviceId (taken ++ [last]))
      (fun b => ∃ _ : Unit,
        Bus.Boundary slave (Taking b₀.slave.sig.length (taken ++ [last]) []) .writing none
          (b₀.master.fromFifo ++ ['A'] ++ List.replicate (taken ++ [last]).length 'A') cs b) := by
    intro b b' hb hrun
    exact ⟨(), writeBody_triple hid hsmall b b' hb hrun⟩
  obtain ⟨-, hslave, hout, hends, -⟩ := h.result ⟨rfl, rfl, rfl⟩ stable_before (stable_addressed [])
    (fun _ => stable_taking []) (fun _ => by rintro ⟨levels⟩ s hs; exact hs) (fun s => Before.start)
    hbody (fun _ s hs => hs.stop)
  rw [List.append_assoc] at hout
  exact ⟨hout, hslave, hends⟩

theorem reads (n : Nat) (hid : b₀.slave.deviceId.toNat < 0x80)
    (h : RunsTransfer slave (readBody b₀.slave.deviceId n) b₀ b₁ b₂ b₃) :
    (Transfer.read n).Done b₀ b₁ b₂ b₃ := by
  have hbody (cs : List Cond) : Bus.Triple slave
      (Bus.Boundary slave
        (Addressed b₀.slave.deviceId b₀.slave.sig.length b₀.slave.acked true []) .devid none
        b₀.master.fromFifo cs)
      (readBody b₀.slave.deviceId n)
      (fun b => ∃ sent : { sent : List (BitVec 8) // sent.length = n + 1 },
        Bus.Boundary slave (Sent b₀.slave.acked sent) .idle none
          (b₀.master.fromFifo ++ ['A'] ++ bitSymbols sent) cs b) := by
    intro b b' hb hrun
    obtain ⟨sent, hlen, hsent⟩ := readBody_triple hid n b b' hb hrun
    exact ⟨⟨sent, hlen⟩, hsent⟩
  have hstop (sent : { sent : List (BitVec 8) // sent.length = n + 1 }) (s : Pcf8574)
      (hs : Sent b₀.slave.acked sent s) :
      slave.low (slave.rise false s) = false ∧
        Sent b₀.slave.acked sent (slave.stop (slave.rise false s)) := by
    have hrise : slave.rise false s = s := by
      change s.rise false = s
      unfold rise
      simp only [hs.2.1]
    rw [hrise]
    exact ⟨hs.2.2, hs.1, rfl, hs.2.2⟩
  obtain ⟨⟨sent, hlen⟩, hslave, hout, hends, -⟩ := h.result ⟨rfl, rfl, rfl⟩ stable_before
    (stable_addressed []) (fun _ => stable_sent) (fun _ => stable_sent) (fun s => Before.start)
    hbody hstop
  obtain ⟨acked, hacked, hbytes⟩ := hslave.1
  have hsent : sent = acked.map sampleport := hbytes.symm
  subst hsent
  refine ⟨acked, (List.length_map _).symm.trans hlen, hacked, ?_, hends⟩
  rw [hout, List.append_assoc, bitSymbols_sampleport]
  rfl

/-- A byte from 0x80 on is taken for a stop in the middle of the transfer. -/
theorem lost {before after : List (BitVec 8)} {d : BitVec 8}
    (hid : b₀.slave.deviceId.toNat < 0x80) (hbefore : ∀ d ∈ before, d.toNat < 0x80)
    (hd : 0x80 ≤ d.toNat)
    (h : RunsTransfer slave (writeBody b₀.slave.deviceId (before ++ d :: after)) b₀ b₁ b₂ b₃) :
    ¬OnlyEnds b₀ b₁ b₂ b₃ := by
  rintro ⟨hstart, hbody, -⟩
  have hb₀ : Bus.Rest slave (Before b₀.slave.deviceId b₀.slave.sig.length b₀.slave.acked)
      b₀.master.fromFifo b₀.conds b₀ := { h.rest with slave := ⟨rfl, rfl, rfl⟩ }
  have hb₁ : Bus.Boundary slave
      (Addressed b₀.slave.deviceId b₀.slave.sig.length b₀.slave.acked false []) .devid none
      b₀.master.fromFifo (b₀.conds ++ [Cond.start]) b₁ :=
    Bus.Triple.symbol (fun b e hb => hb.world stable_before e)
      (fun b e hb => hb.world (stable_addressed []) e)
      (fun b ready hb => hb.start (fun s => Before.start) ready) b₀ b₁ hb₀ h.start
  have hsymbols : writeBody b₀.slave.deviceId (before ++ d :: after) =
      writeBody b₀.slave.deviceId before ++ (Bus.symbolOf true ::
        ((bitsOf d).tail.map Bus.symbolOf ++ 'Z' :: after.flatMap sendByte)) := by
    have hfirst : binary d = Bus.symbolOf true :: (bitsOf d).tail.map Bus.symbolOf := by
      have hbit : d.getLsbD 7 = true := (first_bit d).trans (decide_eq_true hd)
      rw [binary_eq, ← hbit]
      rfl
    simp [writeBody, sendByte, hfirst]
  have hrun := h.body
  rw [hsymbols] at hrun
  obtain ⟨b, hrun, hrest⟩ := hrun.split _ _ rfl
  obtain ⟨b', hone, hrest⟩ := hrest.split [_] _ rfl
  have hb := writeBody_triple hid hbefore b₁ b hb₁ hrun
  have hb' : b₀.conds ++ [Cond.start] ++ [Cond.stop] <+: b'.conds := by
    refine Bus.Triple.symbol (B := fun b => b₀.conds ++ [Cond.start] ++ [Cond.stop] <+: b.conds)
      (fun b e hb => hb.world (stable_taking []) e) (fun b e hb => hb.trans (Bus.settle_conds b))
      (fun b ready hb => ?_) b b' hb hone
    exact ⟨[], by rw [List.append_nil, Taking.lost ready hb]⟩
  -- the conditions at the end of the body would then be more than the start
  have hlen := (hb'.trans hrest.conds).length_le
  rw [hbody, hstart] at hlen
  simp only [List.length_append, List.length_singleton] at hlen
  omega

/-- The first byte of a list that is not below 0x80. -/
theorem first_large : ∀ {bytes : List (BitVec 8)}, ¬(∀ d ∈ bytes, d.toNat < 0x80) →
    ∃ (before : List (BitVec 8)) (d : BitVec 8) (after : List (BitVec 8)),
      bytes = before ++ d :: after ∧ (∀ d ∈ before, d.toNat < 0x80) ∧ 0x80 ≤ d.toNat
  | [], h => absurd nofun h
  | d :: bytes, h => by
    by_cases hd : d.toNat < 0x80
    · have hrest : ¬(∀ d ∈ bytes, d.toNat < 0x80) := fun hall =>
        h (List.forall_mem_cons.mpr ⟨hd, hall⟩)
      obtain ⟨before, e, after, he, hbefore, hlarge⟩ := first_large hrest
      exact ⟨d :: before, e, after, by rw [he]; rfl, List.forall_mem_cons.mpr ⟨hd, hbefore⟩, hlarge⟩
    · exact ⟨[], d, bytes, rfl, nofun, by omega⟩

/-- **The master and the PCF8574**: a transfer does what it is for exactly when no byte of a write
begins with a one. -/
theorem transfers_done (t : Transfer) (hid : b₀.slave.deviceId.toNat < 0x80)
    (h : RunsTransfer slave (t.body b₀.slave.deviceId) b₀ b₁ b₂ b₃) :
    t.Done b₀ b₁ b₂ b₃ ↔ t.Small := by
  cases t with
  | read n => exact ⟨fun _ => trivial, fun _ => reads n hid h⟩
  | write taken last =>
    refine ⟨fun hdone => ?_, fun hsmall => writes hid hsmall h⟩
    by_contra hlarge
    obtain ⟨before, d, after, he, hbefore, hd⟩ := first_large hlarge
    have hrun : RunsTransfer slave (writeBody b₀.slave.deviceId (taken ++ [last])) b₀ b₁ b₂ b₃ := h
    rw [he] at hrun
    exact lost hid hbefore hd hrun hdone.2.2

/-- A write of 0x0a to four pins. -/
theorem transfers_small :
    (Transfer.write [] 0x0a).Done (.init (init 0x20 4)) (Bus.symbols slave ['S'] (.init (init 0x20 4)))
      (Bus.symbols slave (writeBody 0x20 [0x0a]) (Bus.symbols slave ['S'] (.init (init 0x20 4))))
      (transferred slave (writeBody 0x20 [0x0a]) (.init (init 0x20 4))) := by
  have hsmall : (Transfer.write [] 0x0a).Small := fun d hd => by
    rw [List.mem_singleton.mp hd]
    decide
  exact (transfers_done (.write [] 0x0a) (by decide) (runsTransfer_symbols (atRest_init rfl) _)).mpr hsmall

/-- A write of 0x80 is refused, its first bit is taken for a stop, and the pins stay as they were. -/
theorem write_lost :
    RunsTransfer slave ((Transfer.write [] 0x80).body 0x20) (.init (init 0x20 4))
        (Bus.symbols slave ['S'] (.init (init 0x20 4)))
        (Bus.symbols slave (writeBody 0x20 [0x80]) (Bus.symbols slave ['S'] (.init (init 0x20 4))))
        (transferred slave (writeBody 0x20 [0x80]) (.init (init 0x20 4))) ∧
      (transferred slave (writeBody 0x20 [0x80]) (.init (init 0x20 4))).master.fromFifo = ['A', 'N'] ∧
      (transferred slave (writeBody 0x20 [0x80]) (.init (init 0x20 4))).conds =
        [.start, .stop, .stop] ∧
      (transferred slave (writeBody 0x20 [0x80]) (.init (init 0x20 4))).slave.sig ≠ driven 0x80 4 := by
  refine ⟨runsTransfer_symbols (atRest_init rfl) _, ?_, ?_, ?_⟩
  all_goals decide +kernel

end Pcf8574

end Espmod.I2c
