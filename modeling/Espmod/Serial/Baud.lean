/-
# Espmod.Serial.Baud — bit periods and the detection of the rate

`set_baud` multiplies the period of 115200 baud by an integer quotient of the rates. The product of
rate and quotient is 115200 less a remainder, and the error of the period is that remainder: it grows
over a frame, and the eighth data bit is where a receiver first looks at the wrong bit. Above 115200
baud the quotient and the period are 0.

When the rate is to be detected, `intake` measures the first low pulse and looks the rate up in a ladder
of times. It subtracts the later time from the earlier one: the difference wraps to almost 2^64
picoseconds, whatever the pulse, and the answer is always the lowest rate. `getautorate` passes that
on through a `bool`.
-/
import Espmod.Serial.Uart
import Mathlib.Algebra.Group.Nat.Defs
import Mathlib.Tactic.IntervalCases

namespace Espmod.Serial

/-! ## §1 — the period -/

/-- `pn532_hsu::set_baud`. -/
def Pn532Hsu.setBaud (rate : Nat) : Nat := 8680 * (115200 / rate)

/-- The times at which `intake` looks at the line, from `now` on and `cnt` of them. -/
def intakeLoop (period : Nat) : Nat → Nat → List Nat
  | 0, _ => []
  | cnt + 1, now => now :: intakeLoop period cnt (now + period)

/-- The looks at a frame whose start bit begins at 0: `wait(baudperiod/2)`, `wait(baudperiod)`, and one
period from look to look. -/
def intakeSamples (period : Nat) : List Nat := intakeLoop period 8 (period / 2 + period)

/-- The bit of a frame sent at exactly `rate` that is on the line at `t` nanoseconds: 0 is the start bit,
1 to 8 are the data bits. -/
def cell (rate t : Nat) : Nat := t * rate / 1000000000

/-- **The period does**: a receiver with this period looks at each data bit of a frame sent at the rate
while that bit is on the line. -/
structure Receives (rate period : Nat) : Prop where
  positive : 0 < period
  inside : ∀ i t, (intakeSamples period)[i]? = some t → cell rate t = i + 1

theorem getElem?_intakeLoop (period cnt now i : Nat) :
    (intakeLoop period cnt now)[i]? = if i < cnt then some (now + i * period) else none := by
  induction cnt generalizing now i with
  | zero => rfl
  | succ cnt ih =>
    cases i with
    | zero => simp [intakeLoop]
    | succ i =>
      rw [intakeLoop, List.getElem?_cons_succ, ih]
      simp only [Nat.add_lt_add_iff_right]
      congr 2
      rw [Nat.succ_mul]
      omega

/-- The look at data bit `i`, in half nanoseconds of the quotient. -/
theorem sample_time (q i : Nat) :
    8680 * q / 2 + 8680 * q + i * (8680 * q) = 4340 * q * (2 * i + 3) := by
  have hhalf : 8680 * q / 2 = 4340 * q := by omega
  have hdouble : 8680 * q = 2 * (4340 * q) := by omega
  rw [hhalf, hdouble, Nat.mul_add, Nat.mul_comm i, Nat.mul_assoc 2, Nat.mul_left_comm (4340 * q) 2]
  omega

theorem receives_setBaud (rate : Nat) : Receives rate (setBaud rate) ↔ 115200 % rate ≤ 6769 := by
  have hdiv := Nat.div_add_mod 115200 rate
  have hcell : ∀ i, cell rate (4340 * (115200 / rate) * (2 * i + 3)) =
      4340 * (rate * (115200 / rate)) * (2 * i + 3) / 1000000000 := by
    intro i
    unfold cell
    congr 1
    rw [Nat.mul_right_comm, Nat.mul_assoc 4340, Nat.mul_comm (115200 / rate)]
  generalize hs : rate * (115200 / rate) = s at hdiv hcell
  have htime : ∀ i < 8, (intakeSamples (setBaud rate))[i]? =
      some (4340 * (115200 / rate) * (2 * i + 3)) := by
    intro i hi
    unfold intakeSamples setBaud
    rw [getElem?_intakeLoop, if_pos hi, sample_time]
  constructor
  · intro h
    -- the last look is the one with the largest error
    have hlast := h.inside 7 _ (htime 7 (by omega))
    rw [hcell] at hlast
    omega
  · intro h
    have hquotient : 0 < 115200 / rate := by
      rcases Nat.eq_zero_or_pos (115200 / rate) with hzero | hpos
      · rw [hzero, Nat.mul_zero] at hs
        omega
      · exact hpos
    refine ⟨Nat.mul_pos (by decide) hquotient, fun i t ht => ?_⟩
    have hi : i < 8 := by
      unfold intakeSamples at ht
      rw [getElem?_intakeLoop] at ht
      by_contra hno
      rw [if_neg hno] at ht
      exact nomatch ht
    rw [htime i hi] at ht
    obtain rfl := Option.some.inj ht
    rw [hcell]
    interval_cases i <;> omega

/-- **Which rates work**: those that 115200 leaves a small remainder by, for `uart` and `pn532_hsu`
alike. -/
theorem rates_received (rate : Nat) :
    (Receives rate (setBaud rate) ↔ 115200 % rate ≤ 6769) ∧
      (Receives rate (Pn532Hsu.setBaud rate) ↔ 115200 % rate ≤ 6769) :=
  ⟨receives_setBaud rate, receives_setBaud rate⟩

/-- 74880 baud gets the period of 115200, and 230400 none. -/
theorem rates_missed : ¬ Receives 74880 (setBaud 74880) ∧ ¬ Receives 230400 (setBaud 230400) := by
  constructor
  · intro h
    have hlast := h.inside 7 73780 (by decide)
    revert hlast
    decide
  · intro h
    have hpositive := h.positive
    revert hpositive
    decide

/-! ## §2 — the detection

Times are in picoseconds here, as the simulator keeps them. -/

/-- The difference of two `sc_time`, in 64 bits. -/
def timeSub (a b : Nat) : Nat := (a + 2 ^ 64 - b) % 2 ^ 64

/-- The rate `intake` selects for a difference of times. -/
def ladder (delta : Nat) : Nat :=
  if delta ≥ 2000000000 then 300
  else if delta ≥ 3000000000 then 300
  else if delta ≥ 1000000000 then 600
  else if delta ≥ 800000000 then 1200
  else if delta ≥ 400000000 then 2400
  else if delta ≥ 200000000 then 4800
  else if delta ≥ 100000000 then 9600
  else if delta ≥ 50000000 then 19200
  else if delta ≥ 20000000 then 38400
  else if delta ≥ 15000000 then 57600
  else if delta ≥ 12000000 then 74880
  else if delta ≥ 7000000 then 115200
  else if delta ≥ 4000000 then 230400
  else if delta ≥ 3000000 then 256000
  else if delta ≥ 2000000 then 460800
  else if delta ≥ 900000 then 921600
  else if delta ≥ 400000 then 1843200
  else if delta ≥ 200000 then 3686400
  else 3686400

/-- Where `intake` is. -/
inductive Intake where
  | listening
  /-- in a low pulse that began at `start` -/
  | measuring (start : Nat)
  /-- waiting for the frame to end -/
  | settling (due : Nat)
  /-- in a frame -/
  | receiving
deriving Repr, DecidableEq

/-- The receiving side of `uart`. -/
structure Autobaud where
  now : Nat
  rx : Bool
  baudrate : Nat
  baudperiod : Nat
  autodetect : Bool
  intake : Intake
deriving Repr, DecidableEq

namespace Autobaud

def setBaud (rate : Nat) (u : Autobaud) : Autobaud :=
  { u with baudrate := rate, baudperiod := 1000 * Serial.setBaud rate }

/-- `get_baud` returns a `bool`. -/
def getBaud (u : Autobaud) : Bool := u.baudrate != 0

/-- `getautorate`. -/
def getautorate (u : Autobaud) : Nat := if u.autodetect then 0 else u.getBaud.toNat

/-- The end of the wait for a rise, or for two milliseconds. -/
def detected (start : Nat) (u : Autobaud) : Autobaud :=
  let v := u.setBaud (ladder (timeSub start u.now))
  { v with intake := .settling (v.now + v.baudperiod * 10) }

/-- The line changes. -/
def edge (u : Autobaud) : Autobaud :=
  let v := { u with rx := !u.rx }
  match u.intake with
  | .listening =>
    if v.rx then v
    else if u.autodetect then { v with intake := .measuring u.now }
    else { v with intake := .receiving }
  | .measuring start => v.detected start
  | .settling _ => v
  | .receiving => v

/-- Time passes by `d`, or until a wait is over. -/
def pass (d : Nat) (u : Autobaud) : Autobaud :=
  match u.intake with
  | .measuring start =>
    if u.now + d < start + 2000000000 then { u with now := u.now + d }
    else { u with now := start + 2000000000 }.detected start
  | .settling due =>
    if u.now + d < due then { u with now := u.now + d }
    else { u with now := due, autodetect := false, intake := .listening }
  | _ => { u with now := u.now + d }

/-- A receiver that is to detect the rate, on a line that is high. -/
def waiting (now rate : Nat) : Autobaud := ⟨now, true, rate, 1000 * Serial.setBaud rate, true, .listening⟩

/-! ## §3 — what should be detected -/

/-- The table: how long the pulse is at least, and the rate. -/
def table : List (Nat × Nat) :=
  [(3000000000, 300), (1000000000, 600), (800000000, 1200), (400000000, 2400), (200000000, 4800),
    (100000000, 9600), (50000000, 19200), (20000000, 38400), (15000000, 57600), (12000000, 74880),
    (7000000, 115200), (4000000, 230400), (3000000, 256000), (2000000, 460800), (900000, 921600),
    (400000, 1843200), (200000, 3686400)]

/-- The rate of the bracket that contains `w`. -/
def bracket (w : Nat) : Nat := ((table.find? fun row => decide (row.1 ≤ w)).map Prod.snd).getD 3686400

/-- The first low pulse: it ends within two milliseconds, or it does not. -/
inductive Pulse where
  | ends (w : Nat) (pos : 0 < w) (short : w < 2000000000)
  | stays

/-- When the pulse has been measured. -/
def measured (u : Autobaud) : Pulse → Autobaud
  | .ends w _ _ => (u.edge.pass w).edge
  | .stays => u.edge.pass 2000000000

/-- When the wait for the end of the frame is over. -/
def finished (u : Autobaud) (p : Pulse) : Autobaud :=
  (u.measured p).pass ((u.measured p).baudperiod * 10)

/-- **The detection succeeds**: the rate of the bracket is selected, `getautorate` returns 0 until the
detection is over and then the rate, and the receiver listens for a frame. A pulse that stays selects
the lowest rate. -/
def Detects (u : Autobaud) (p : Pulse) : Prop :=
  match p with
  | .ends w _ _ =>
    (u.measured p).baudrate = bracket w ∧
      (∀ d < w, (u.edge.pass d).getautorate = 0) ∧
      (∀ d < (u.measured p).baudperiod * 10, ((u.measured p).pass d).getautorate = 0) ∧
      (u.finished p).getautorate = bracket w ∧
      (u.finished p).intake = .listening ∧ (u.finished p).autodetect = false
  | .stays => (u.measured p).baudrate = 300

/-! ## §4 — what is detected -/

/-- **The difference wraps**, and is never short. -/
theorem ladder_timeSub {start w : Nat} (hpos : 0 < w) (hw : w ≤ 2000000000) :
    ladder (timeSub start (start + w)) = 300 := by
  have hdelta : timeSub start (start + w) = 2 ^ 64 - w := by
    unfold timeSub
    rw [Nat.add_sub_add_left]
    exact Nat.mod_eq_of_lt (by omega)
  unfold ladder
  rw [hdelta, if_pos (by omega)]

theorem pass_measuring {u : Autobaud} {start d : Nat} (h : u.intake = .measuring start) :
    u.pass d = if u.now + d < start + 2000000000 then { u with now := u.now + d }
      else { u with now := start + 2000000000 }.detected start := by
  unfold pass
  rw [h]

theorem edge_measuring {u : Autobaud} {start : Nat} (h : u.intake = .measuring start) :
    u.edge = { u with rx := !u.rx }.detected start := by
  unfold edge
  rw [h]

theorem baudrate_detected (u : Autobaud) (start : Nat) :
    (u.detected start).baudrate = ladder (timeSub start u.now) := rfl

/-- A pulse is measured as the lowest rate. -/
theorem measured_rate (now rate : Nat) (p : Pulse) : ((waiting now rate).measured p).baudrate = 300 := by
  have hstart : (waiting now rate).edge.intake = .measuring now := rfl
  cases p with
  | ends w pos short =>
    have hshort : (waiting now rate).edge.now + w < now + 2000000000 := Nat.add_lt_add_left short now
    unfold measured
    dsimp only
    rw [pass_measuring hstart, if_pos hshort]
    have hmeasuring : ({ (waiting now rate).edge with now := (waiting now rate).edge.now + w } :
        Autobaud).intake = .measuring now := rfl
    rw [edge_measuring hmeasuring, baudrate_detected]
    exact ladder_timeSub pos (Nat.le_of_lt short)
  | stays =>
    have hlong : ¬ (waiting now rate).edge.now + 2000000000 < now + 2000000000 := Nat.lt_irrefl _
    unfold measured
    dsimp only
    rw [pass_measuring hstart, if_neg hlong, baudrate_detected]
    exact ladder_timeSub (Nat.succ_pos _) (Nat.le_refl _)

/-- No pulse that ends in time is in the bracket of the lowest rate. -/
theorem bracket_ne {w : Nat} (hw : w < 2000000000) : bracket w ≠ 300 := by
  unfold bracket
  cases hfind : table.find? fun row => decide (row.1 ≤ w) with
  | none => decide
  | some row =>
    have hrow := List.find?_some hfind
    have hmem := List.mem_of_find?_eq_some hfind
    have hlowest : ∀ r ∈ table, r.2 = 300 → r.1 = 3000000000 := by decide
    intro h300
    rw [hlowest row hmem h300, decide_eq_true_eq] at hrow
    omega

/-- **The detection of the rate** succeeds exactly for the pulse that does not end. -/
theorem detects_iff (now rate : Nat) (p : Pulse) : (waiting now rate).Detects p ↔ p = .stays := by
  cases p with
  | ends w pos short =>
    constructor
    · intro h
      exact absurd (h.1.symm.trans (measured_rate now rate (.ends w pos short))) (bracket_ne short)
    · intro h
      exact nomatch h
  | stays => exact ⟨fun _ => rfl, fun _ => measured_rate now rate .stays⟩

/-- The start bit of a frame at 115200 baud, with the next bit high. -/
def startBit : Pulse := .ends 8680000 (by decide) (by decide)

/-- It is in the bracket of that rate. 300 is selected, and `getautorate` returns 1. -/
theorem rate_undetected :
    ¬ (waiting 0 115200).Detects startBit ∧ bracket 8680000 = 115200 ∧
      ((waiting 0 115200).measured startBit).baudrate = 300 ∧
      ((waiting 0 115200).finished startBit).getautorate = 1 := by
  have hrate : ((waiting 0 115200).measured startBit).baudrate = 300 := by decide
  have hbracket : bracket 8680000 = 115200 := by decide
  refine ⟨fun h => ?_, hbracket, hrate, by decide⟩
  exact absurd ((hrate.symm.trans h.1).trans hbracket) (by decide)

end Autobaud

end Espmod.Serial
