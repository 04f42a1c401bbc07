/-
# Espmod.Ledc.Channel — one channel of the LED controller

A thread runs for each channel. It waits for a change of the channel's registers or of the counter of the
selected timer, computes from the duty where in the counter's cycle the output falls, and drives the
output. `calc_points` also counts the cycles of a fade; its comparison `dithcycles == 0` is about the
array and not about its element, so that a fade never goes up.

The channels of the two groups share the code. It reads their registers with the constants of the group,
and a low-speed channel selects among the last four of the eight timers.
-/
import Espmod.Pcnt.Unit

namespace Espmod.Ledc

open Espmod.Pcnt (Field rdfield)

/-! ## §1 — registers -/

/-- The fields of the registers of a channel. -/
structure Fields where
  idleLv : Field
  sigOutEn : Field
  timerSel : Field
  dutyStart : Field
  dutyInc : Field
  dutyNum : Field
  dutyCycle : Field
  dutyScale : Field

/-- `LEDC_…_HSCH0`. -/
def hsch0 : Fields where
  idleLv := ⟨0x1, 3⟩
  sigOutEn := ⟨0x1, 2⟩
  timerSel := ⟨0x3, 0⟩
  dutyStart := ⟨0x1, 31⟩
  dutyInc := ⟨0x1, 30⟩
  dutyNum := ⟨0x3FF, 20⟩
  dutyCycle := ⟨0x3FF, 10⟩
  dutyScale := ⟨0x3FF, 0⟩

/-- `LEDC_…_LSCH0`. -/
def lsch0 : Fields where
  idleLv := ⟨0x1, 3⟩
  sigOutEn := ⟨0x1, 2⟩
  timerSel := ⟨0x3, 0⟩
  dutyStart := ⟨0x1, 31⟩
  dutyInc := ⟨0x1, 30⟩
  dutyNum := ⟨0x3FF, 20⟩
  dutyCycle := ⟨0x3FF, 10⟩
  dutyScale := ⟨0x3FF, 0⟩

def ledcDutyHsch0 : BitVec 32 := 0x01FFFFFF

def LEDC_CHANNELS : Nat := 16

def LEDC_CYCLES : Int := 16

def LEDC_TIMERS : Nat := 8

/-- The constants of the group of a channel. -/
def fields (ls : Bool) : Fields := if ls then lsch0 else hsch0

/-- `RDFIELD` with the mask of one field and the shift of another. -/
def rdfieldAs (sig : BitVec 32) (mask shift : Field) : BitVec 32 :=
  (sig &&& (mask.v <<< mask.s)) >>> shift.s

/-! ## §2 — the thread -/

/-- The local variables of a channel's thread, its elements of the arrays, what it has driven and how
often it has notified its duty-end event. -/
structure Chan where
  /-- the selected timer; none yet is -1 -/
  sel : Option Nat
  dithtimes : BitVec 32
  dithcycles : BitVec 32
  thislp : BitVec 32
  thiscyc : Int
  dutyR : BitVec 32
  out : Bool
  ends : Nat
deriving Repr, DecidableEq

/-- The signals of a channel and the eight counters, and which of them have changed in this delta
cycle. -/
structure Look where
  conf0 : BitVec 32
  conf1 : BitVec 32
  hpoint : BitVec 32
  duty : BitVec 32
  timerCnt : Nat → BitVec 32
  conf0Ev : Bool
  conf1Ev : Bool
  hpointEv : Bool
  dutyEv : Bool
  timerCntEv : Nat → Bool

/-- `calc_points`. -/
def calcPoints (ls : Bool) (conf1 duty : BitVec 32) (startDither : Bool) (c : Chan) : Chan :=
  let f := fields ls
  let dutyStart := rdfield conf1 f.dutyStart > 0
  let dutyNum := rdfieldAs conf1 f.dutyNum f.dutyNum
  let dutyCycle := rdfieldAs conf1 f.dutyCycle f.dutyCycle
  let dutyInc := rdfieldAs conf1 f.dutyCycle f.dutyInc != 0
  let dutyScale := rdfieldAs conf1 f.dutyCycle f.dutyScale
  let lp := duty >>> 4
  let lp := if ((duty &&& 0x0f).toNat : Int) > c.thiscyc then lp + 1 else lp
  let (c, lp) :=
    if dutyStart then
      if startDither then ({ c with dithtimes := dutyNum, dithcycles := dutyCycle }, lp)
      else
        let c := { c with dithcycles := c.dithcycles - 1, ends := c.ends + 1 }
        -- the address of the array, which is not 0
        let dithcyclesIsNull := false
        if dithcyclesIsNull && dutyInc then
          ({ c with dithcycles := dutyCycle, dithtimes := c.dithtimes - 1 }, lp + dutyScale)
        else if c.dithcycles = 0 then
          ({ c with dithcycles := dutyCycle, dithtimes := c.dithtimes - 1 }, lp - dutyScale)
        else (c, lp)
    else (c, lp)
  { c with dutyR := lp &&& ledcDutyHsch0, thislp := lp &&& ledcDutyHsch0 }

/-- The thread waits for the registers, and when a timer is selected for its counter. -/
def wakes (l : Look) (c : Chan) : Bool :=
  match c.sel with
  | none => l.conf0Ev
  | some sel => l.conf0Ev || l.conf1Ev || l.hpointEv || l.dutyEv || l.timerCntEv sel

/-- Where the counter is in the cycle. -/
def level (l : Look) (sel : Nat) (c : Chan) : Bool :=
  if c.thislp + l.hpoint ≤ l.timerCnt sel then false
  else if l.hpoint ≤ l.timerCnt sel then true
  else false

/-- A stopped channel whose configuration changes shows its idle level. -/
def idle (ls : Bool) (l : Look) (outen : Bool) (c : Chan) : Chan :=
  if l.conf0Ev && !outen then { c with out := rdfield l.conf0 (fields ls).idleLv != 0 } else c

/-- The points are computed again when the registers change or a cycle of the counter begins; with
whether they are (`recheckpoints`). -/
def recheck (ls : Bool) (l : Look) (sel : Nat) (c : Chan) : Chan × Bool :=
  if l.dutyEv || l.conf0Ev then ({ calcPoints ls l.conf1 l.duty true c with thiscyc := 0 }, true)
  else if l.timerCnt sel = 0 then
    let thiscyc := if c.thiscyc + 1 = LEDC_CYCLES then 0 else c.thiscyc + 1
    (calcPoints ls l.conf1 l.duty false { c with thiscyc := thiscyc }, true)
  else (c, false)

/-- `channel`, from one wait to the next. -/
def channel (ls : Bool) (l : Look) (c : Chan) : Chan :=
  if wakes l c then
    let outen := rdfield l.conf0 (fields ls).sigOutEn != 0
    let sel := rdfield l.conf0 (fields ls).timerSel + if ls then LEDC_TIMERS / 2 else 0
    let c := idle ls l outen { c with sel := some sel }
    let (c, recheckpoints) := recheck ls l sel c
    if outen && (l.timerCntEv sel || recheckpoints) then { c with out := level l sel c } else c
  else c

end Espmod.Ledc
