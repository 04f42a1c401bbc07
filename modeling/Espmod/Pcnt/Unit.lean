/-
# Espmod.Pcnt.Unit — one unit of the pulse counter

`pcntmod` runs two threads for each unit. `capture` waits for a change of the unit's input bus, then
for the next APB edge, and samples the bus; for each of the two channels whose signal has changed
since the last sample it notifies an event, at once or, with the filter on, after the filter time.
`count` waits for either of the two events or for a reset and updates the counter, which is a signal.

Both threads can run in one delta cycle, and so can both events happen in one: an event stays
`triggered` until the delta cycle ends, and a thread that waits for several is woken once. The steps
of the model are the turn of each thread, the turn of `updateth`, the end of a delta cycle and the
passing of time.
-/
import Espmod.Lib.Signal

namespace Espmod.Pcnt

open Espmod.Lib

/-! ## §1 — registers -/

/-- A field of a 32-bit register: its mask before the shift, and the shift. -/
structure Field where
  v : BitVec 32
  s : Nat

/-- `RDFIELD`. -/
def rdfield (sig : BitVec 32) (f : Field) : Nat := ((sig &&& (f.v <<< f.s)) >>> f.s).toNat

def pcntCh1LctrlMode : Field := ⟨0x3, 30⟩
def pcntCh1HctrlMode : Field := ⟨0x3, 28⟩
def pcntCh1PosMode : Field := ⟨0x3, 26⟩
def pcntCh1NegMode : Field := ⟨0x3, 24⟩
def pcntCh0LctrlMode : Field := ⟨0x3, 22⟩
def pcntCh0HctrlMode : Field := ⟨0x3, 20⟩
def pcntCh0PosMode : Field := ⟨0x3, 18⟩
def pcntCh0NegMode : Field := ⟨0x3, 16⟩
def pcntThrThres1En : Field := ⟨0x1, 15⟩
def pcntThrThres0En : Field := ⟨0x1, 14⟩
def pcntThrLLimEn : Field := ⟨0x1, 13⟩
def pcntThrHLimEn : Field := ⟨0x1, 12⟩
def pcntThrZeroEn : Field := ⟨0x1, 11⟩
def pcntFilterEn : Field := ⟨0x1, 10⟩
def pcntFilterThres : Field := ⟨0x3FF, 0⟩
def pcntCntThres1 : Field := ⟨0xFFFF, 16⟩
def pcntCntThres0 : Field := ⟨0xFFFF, 0⟩
def pcntCntLLim : Field := ⟨0xFFFF, 16⟩
def pcntCntHLim : Field := ⟨0xFFFF, 0⟩

/-- `PCNT_CNT_PAUSE_U0_M` and `PCNT_PLUS_CNT_RST_U0_M`; each unit has two bits of the register. -/
def pcntCntPauseM : BitVec 32 := 0x2
def pcntPlusCntRstM : BitVec 32 := 0x1

/-- Whether the reset bit of unit `un` is set. -/
def inReset (ctrl : BitVec 32) (un : Nat) : Bool := ctrl &&& (pcntPlusCntRstM <<< (un * 2)) != 0

/-! ## §2 — events of the simulator -/

/-- `sc_event`: the time of a pending notification, and whether it has happened in this delta
cycle. -/
structure ScEvent where
  due : Option Nat
  triggered : Bool
deriving Repr, DecidableEq

namespace ScEvent

def quiet : ScEvent := ⟨none, false⟩

/-- An immediate notification, which also cancels a pending one. -/
def notify (_ : ScEvent) : ScEvent := ⟨none, true⟩

/-- A timed notification; of two pending ones the earlier counts. -/
def notifyAt (t : Nat) (e : ScEvent) : ScEvent :=
  match e.due with
  | some t' => if t' ≤ t then e else { e with due := some t }
  | none => { e with due := some t }

/-- The delta cycle ends. -/
def clear (e : ScEvent) : ScEvent := { e with triggered := false }

/-- Time has come to `t`. -/
def fire (t : Nat) (e : ScEvent) : ScEvent := if e.due = some t then ⟨none, true⟩ else e

end ScEvent

/-! ## §3 — the unit -/

/-- `pcntbus_t`. -/
structure PcntBus where
  sigCh0 : Bool
  sigCh1 : Bool
  ctrlCh0 : Bool
  ctrlCh1 : Bool
deriving Repr, DecidableEq

/-- A unit of `pcntmod`, its two threads and the bus it looks at. `apbPeriod` is
`clockpacer.get_apb_period()`. -/
structure PcntUnit where
  apbPeriod : Nat
  conf0 : Signal (BitVec 32)
  conf1 : Signal (BitVec 32)
  conf2 : Signal (BitVec 32)
  ctrl : Signal (BitVec 32)
  cnt : Signal (BitVec 16)
  intRaw : Signal Bool
  bus : PcntBus
  now : Nat
  /-- `capture` has seen the bus change and waits for the APB edge -/
  armed : Bool
  lastlvl : PcntBus
  fctrl0 : Nat
  fctrl1 : Nat
  filtered0 : ScEvent
  filtered1 : ScEvent
  /-- `reset_un` has been notified in this delta cycle -/
  reset : Bool
  /-- `count` has been woken and has not run since -/
  counting : Bool
deriving Repr, DecidableEq

namespace PcntUnit

/-- The unit at the start of simulation, with every register clear. -/
def new (apbPeriod : Nat) : PcntUnit where
  apbPeriod := apbPeriod
  conf0 := .init 0
  conf1 := .init 0
  conf2 := .init 0
  ctrl := .init 0
  cnt := .init 0
  intRaw := .init false
  bus := ⟨false, false, false, false⟩
  now := 0
  armed := false
  lastlvl := ⟨false, false, false, false⟩
  fctrl0 := 0
  fctrl1 := 0
  filtered0 := .quiet
  filtered1 := .quiet
  reset := false
  counting := false

/-! ## §4 — counting -/

/-- The new count of `docnt` before the limits: `mode` of the edge, `ctl` the mode at the present
control level. -/
def newCount (cnt : BitVec 16) (mode ctl : Nat) : BitVec 16 :=
  if ctl = 0 ∧ mode = 1 then cnt + 1
  else if ctl = 1 ∧ mode = 2 then cnt + 1
  else if ctl = 0 ∧ mode = 2 then cnt - 1
  else if ctl = 1 ∧ mode = 1 then cnt - 1
  else cnt

/-- `pcntmod::docnt`. -/
def docnt (un : Nat) (siglvl ctrllvl : Bool) (ch : Nat) (u : PcntUnit) : PcntUnit :=
  if u.ctrl.cur &&& ((pcntPlusCntRstM ||| pcntCntPauseM) <<< (un * 2)) ≠ 0 then u
  else
    let conf0 := u.conf0.cur
    let conf1 := u.conf1.cur
    let conf2 := u.conf2.cur
    let mode :=
      if ch = 0 then
        (if siglvl then rdfield conf0 pcntCh0PosMode else rdfield conf0 pcntCh0NegMode)
      else (if siglvl then rdfield conf0 pcntCh1PosMode else rdfield conf0 pcntCh1NegMode)
    let lctrl := if ch = 0 then rdfield conf0 pcntCh0LctrlMode else rdfield conf0 pcntCh1LctrlMode
    let hctrl := if ch = 0 then rdfield conf0 pcntCh0HctrlMode else rdfield conf0 pcntCh1HctrlMode
    let nc := if ctrllvl then newCount u.cnt.cur mode hctrl else newCount u.cnt.cur mode lctrl
    -- the limits are compared as signed numbers, and hitting one starts again at zero
    let atLimit :=
      rdfield conf0 pcntThrLLimEn ≠ 0 ∧ nc.sle (BitVec.ofNat 16 (rdfield conf2 pcntCntLLim)) = true
        ∨ rdfield conf0 pcntThrHLimEn ≠ 0
          ∧ (BitVec.ofNat 16 (rdfield conf2 pcntCntHLim)).sle nc = true
    let nc := if atLimit then 0 else nc
    let raised := atLimit
      ∨ rdfield conf0 pcntThrThres0En ≠ 0 ∧ nc = BitVec.ofNat 16 (rdfield conf1 pcntCntThres0)
      ∨ rdfield conf0 pcntThrThres1En ≠ 0 ∧ nc = BitVec.ofNat 16 (rdfield conf1 pcntCntThres1)
      ∨ nc = 0 ∧ rdfield conf0 pcntThrZeroEn ≠ 0
    { u with
      intRaw := if raised then u.intRaw.write true else u.intRaw
      cnt := u.cnt.write nc }

/-- One turn of `count`. -/
def count (un : Nat) (u : PcntUnit) : PcntUnit :=
  let p := u.bus
  let u := { u with counting := false }
  if u.reset then { u with cnt := u.cnt.write 0 }
  else if u.filtered0.triggered then
    docnt un p.sigCh0 (if u.now < u.fctrl0 then !p.ctrlCh0 else p.ctrlCh0) 0 u
  else docnt un p.sigCh1 (if u.now < u.fctrl1 then !p.ctrlCh1 else p.ctrlCh1) 1 u

/-! ## §5 — capturing -/

def filterThres (u : PcntUnit) : Nat :=
  if 0 < rdfield u.conf0.cur pcntFilterEn then rdfield u.conf0.cur pcntFilterThres else 0

/-- The time from which a control level that has just changed counts, after `cur`. -/
def fctrlAfter (u : PcntUnit) : Nat :=
  if 0 < u.filterThres then u.now + u.filterThres * u.apbPeriod else u.now

/-- The control inputs of a sample. The second channel looks at the time of the first. -/
def captureCtrl (lvl : PcntBus) (u : PcntUnit) : PcntUnit :=
  let u :=
    if lvl.ctrlCh0 ≠ u.lastlvl.ctrlCh0 then
      (if u.now ≤ u.fctrl0 then { u with fctrl0 := 0 } else { u with fctrl0 := u.fctrlAfter })
    else u
  if lvl.ctrlCh1 ≠ u.lastlvl.ctrlCh1 then
    (if u.now ≤ u.fctrl0 then { u with fctrl0 := 0 } else { u with fctrl1 := u.fctrlAfter })
  else u

def notify0 (u : PcntUnit) : PcntUnit :=
  if 0 < u.filterThres then
    { u with filtered0 := u.filtered0.notifyAt (u.now + u.apbPeriod * u.filterThres) }
  else { u with filtered0 := u.filtered0.notify, counting := true }

def notify1 (u : PcntUnit) : PcntUnit :=
  if 0 < u.filterThres then
    { u with filtered1 := u.filtered1.notifyAt (u.now + u.apbPeriod * u.filterThres) }
  else { u with filtered1 := u.filtered1.notify, counting := true }

/-- The signal inputs of a sample. -/
def captureSig (un : Nat) (lvl : PcntBus) (u : PcntUnit) : PcntUnit :=
  if inReset u.ctrl.cur un then u
  else
    let u := if lvl.sigCh0 ≠ u.lastlvl.sigCh0 then u.notify0 else u
    if lvl.sigCh1 ≠ u.lastlvl.sigCh1 then u.notify1 else u

/-- `capture`, from the APB edge to the next wait. -/
def capture (un : Nat) (u : PcntUnit) : PcntUnit :=
  let lvl := u.bus
  { captureSig un lvl (captureCtrl lvl u) with lastlvl := lvl, armed := false }

/-! ## §6 — steps -/

/-- A turn of `updateth` for the unit: the registers are copied and a reset bit is announced. -/
def updateth (un : Nat) (conf0 conf1 conf2 ctrl : BitVec 32) (u : PcntUnit) : PcntUnit :=
  { u with
    conf0 := u.conf0.write conf0
    conf1 := u.conf1.write conf1
    conf2 := u.conf2.write conf2
    ctrl := u.ctrl.write ctrl
    reset := u.reset || inReset ctrl un
    counting := u.counting || inReset ctrl un }

/-- The end of a delta cycle: the signals are updated, the bus to `lvl`, and events are over. -/
def commit (lvl : PcntBus) (u : PcntUnit) : PcntUnit :=
  { u with
    conf0 := u.conf0.update
    conf1 := u.conf1.update
    conf2 := u.conf2.update
    ctrl := u.ctrl.update
    cnt := u.cnt.update
    intRaw := u.intRaw.update
    bus := lvl
    armed := u.armed || decide (lvl ≠ u.bus)
    filtered0 := u.filtered0.clear
    filtered1 := u.filtered1.clear
    reset := false }

/-- Time passes by `d`, or up to the next pending notification. -/
def advance (d : Nat) (u : PcntUnit) : PcntUnit :=
  let t := (u.filtered0.due.toList ++ u.filtered1.due.toList).foldl min (u.now + d)
  { u with
    now := t
    filtered0 := u.filtered0.fire t
    filtered1 := u.filtered1.fire t
    counting := decide (u.filtered0.due = some t ∨ u.filtered1.due = some t) }

/-- Something that happens to a unit. -/
inductive PcntEvent where
  | sample
  | count
  | updateth (conf0 conf1 conf2 ctrl : BitVec 32)
  | delta (lvl : PcntBus)
  | advance (d : Nat)
deriving Repr, DecidableEq

/-- What it does. A thread takes its turn when it is due, and a delta cycle ends, and time passes, only
when `count` has nothing to do. -/
def step (un : Nat) (u : PcntUnit) : PcntEvent → PcntUnit
  | .sample => if u.armed then u.capture un else u
  | .count => if u.counting then u.count un else u
  | .updateth conf0 conf1 conf2 ctrl => u.updateth un conf0 conf1 conf2 ctrl
  | .delta lvl => if u.counting then u else u.commit lvl
  | .advance d => if u.counting then u else (u.commit u.bus).advance d

end PcntUnit

end Espmod.Pcnt
