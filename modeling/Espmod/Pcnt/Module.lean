/-
# Espmod.Pcnt.Module — the pulse counter and its register struct

Firmware does not talk to the eight units. It stores into the struct `PCNT` and calls `update`, which
wakes `updateth` to copy the configuration into the module's signals and then waits for the next APB
edge; and `returnth`, woken by a change of a counter or of a raw interrupt, copies the counters, the
interrupts and the comparator states back into the struct.
-/
import Espmod.Pcnt.Unit

namespace Espmod.Pcnt

open Espmod.Lib

/-! ## §1 — the register struct -/

/-- `status_unit` of `pcnt_dev_t`. -/
structure StatusUnit where
  thres0Lat : Bool
  thres1Lat : Bool
  lLimLat : Bool
  hLimLat : Bool
  zeroLat : Bool
deriving Repr, DecidableEq

/-- `pcnt_dev_t`. -/
structure PcntDev where
  conf0 : Fin 8 → BitVec 32
  conf1 : Fin 8 → BitVec 32
  conf2 : Fin 8 → BitVec 32
  cntUnit : Fin 8 → BitVec 32
  intRaw : BitVec 32
  intSt : BitVec 32
  intEna : BitVec 32
  intClr : BitVec 32
  statusUnit : Fin 8 → StatusUnit
  ctrl : BitVec 32

/-- `initstruct`. -/
def PcntDev.zero : PcntDev where
  conf0 _ := 0
  conf1 _ := 0
  conf2 _ := 0
  cntUnit _ := 0
  intRaw := 0
  intSt := 0
  intEna := 0
  intClr := 0
  statusUnit _ := ⟨false, false, false, false, false⟩
  ctrl := 0

/-- The bit of unit `i` in the word of `int_raw`. -/
def rawBit (raw : Fin 8 → Bool) (w : BitVec 32) (i : Fin 8) : BitVec 32 :=
  w ||| (if raw i then (1 : BitVec 32) <<< i.val else 0)

/-- The word, all eight bits. -/
def rawWord (raw : Fin 8 → Bool) : BitVec 32 := (List.finRange 8).foldl (rawBit raw) 0

/-! ## §2 — the module -/

/-- A signal of the unit that `returnth` waits for is about to change. -/
def PcntUnit.changing (u : PcntUnit) : Bool :=
  decide (u.cnt.next ≠ u.cnt.cur ∨ u.intRaw.next ≠ u.intRaw.cur)

/-- No signal of the unit waits for the update phase. -/
def PcntUnit.Quiet (u : PcntUnit) : Prop :=
  u.conf0.Quiet ∧ u.conf1.Quiet ∧ u.conf2.Quiet ∧ u.ctrl.Quiet ∧ u.cnt.Quiet ∧ u.intRaw.Quiet

instance (u : PcntUnit) : Decidable u.Quiet := inferInstanceAs (Decidable (_ ∧ _))

/-- `pcntmod` with its units and the struct `PCNT`. Each unit has the module's one `ctrl` signal. -/
structure PcntMod where
  unit : Fin 8 → PcntUnit
  intEna : Signal (BitVec 32)
  pcnt : PcntDev
  /-- `updateth` has been notified and has not run since -/
  updating : Bool
  /-- so has `returnth` -/
  returning : Bool

namespace PcntMod

open PcntUnit (PcntEvent)

/-- The start of simulation. -/
def new (apbPeriod : Nat) : PcntMod where
  unit _ := .new apbPeriod
  intEna := .init 0
  pcnt := .zero
  updating := false
  returning := false

/-- A thread of the module is due. -/
def Busy (m : PcntMod) : Prop :=
  m.updating = true ∨ m.returning = true ∨ ∃ i ∈ List.finRange 8, (m.unit i).counting = true

instance (m : PcntMod) : Decidable m.Busy := inferInstanceAs (Decidable (_ ∨ _))

/-- No signal waits for the update phase. -/
def Quiet (m : PcntMod) : Prop := m.intEna.Quiet ∧ ∀ i ∈ List.finRange 8, (m.unit i).Quiet

instance (m : PcntMod) : Decidable m.Quiet := inferInstanceAs (Decidable (_ ∧ _))

/-- `update`, up to its wait for the clock. -/
def update (m : PcntMod) : PcntMod := { m with updating := true }

/-- A turn of `updateth`. -/
def updateth (m : PcntMod) : PcntMod :=
  { m with
    unit := fun i =>
      (m.unit i).updateth i (m.pcnt.conf0 i) (m.pcnt.conf1 i) (m.pcnt.conf2 i) m.pcnt.ctrl
    intEna := m.intEna.write m.pcnt.intEna
    updating := false }

/-- The comparators of `returnth`, on unsigned numbers. -/
def statusOf (u : PcntUnit) : StatusUnit where
  thres0Lat := u.cnt.cur.toNat = rdfield u.conf1.cur pcntCntThres0
  thres1Lat := u.cnt.cur.toNat = rdfield u.conf1.cur pcntCntThres1
  lLimLat := u.cnt.cur.toNat ≤ rdfield u.conf2.cur pcntCntLLim
  hLimLat := rdfield u.conf2.cur pcntCntHLim ≤ u.cnt.cur.toNat
  zeroLat := u.cnt.cur.toNat = 0

/-- A turn of `returnth`. -/
def returnth (m : PcntMod) : PcntMod :=
  let intRaw := rawWord fun i => (m.unit i).intRaw.cur
  { m with
    pcnt := { m.pcnt with
      intRaw := intRaw
      intSt := intRaw &&& m.intEna.cur
      cntUnit := fun i => (m.unit i).cnt.cur.setWidth 32
      statusUnit := fun i => statusOf (m.unit i) }
    returning := false }

/-- A turn of a thread of unit `i`. -/
def turn (i : Fin 8) (e : PcntEvent) (m : PcntMod) : PcntMod :=
  { m with unit := fun j => if j = i then (m.unit j).step j e else m.unit j }

/-- The end of a delta cycle, with the input buses at `lvls`. -/
def commit (lvls : Fin 8 → PcntBus) (m : PcntMod) : PcntMod :=
  { m with
    unit := fun i => (m.unit i).commit (lvls i)
    intEna := m.intEna.update
    returning := (List.finRange 8).any fun i => (m.unit i).changing }

/-- The earliest time at which a unit stops when time passes by `d`. -/
def stop (d : Nat) (m : PcntMod) : Option Nat :=
  ((List.finRange 8).map fun i => ((m.unit i).step i (.advance d)).now).min?

/-- Time passes by `d`, or up to the next pending notification of any unit. -/
def advance (d : Nat) (m : PcntMod) : PcntMod :=
  match m.stop d with
  | some t => { m with unit := fun i => (m.unit i).step i (.advance (t - (m.unit i).now)) }
  | none => m

/-- Something that happens to the module. A store of the firmware gives the configuration registers
their new contents; `clr` stores into `int_clr`. -/
inductive PcntModEvent where
  | store (conf0 conf1 conf2 : Fin 8 → BitVec 32) (intEna ctrl : BitVec 32)
  | clr (v : BitVec 32)
  | update
  | updateth
  | returnth
  | sample (i : Fin 8)
  | count (i : Fin 8)
  | delta (lvls : Fin 8 → PcntBus)
  | advance (d : Nat)

/-- What it does. A thread takes its turn when it is due, a delta cycle ends when no thread is due,
and time passes when no signal waits for an update either. -/
def step (m : PcntMod) : PcntModEvent → PcntMod
  | .store conf0 conf1 conf2 intEna ctrl =>
    { m with pcnt := { m.pcnt with
        conf0 := conf0, conf1 := conf1, conf2 := conf2, intEna := intEna, ctrl := ctrl } }
  | .clr v => { m with pcnt := { m.pcnt with intClr := v } }
  | .update => m.update
  | .updateth => if m.updating then m.updateth else m
  | .returnth => if m.returning then m.returnth else m
  | .sample i => m.turn i .sample
  | .count i => m.turn i .count
  | .delta lvls => if m.Busy then m else m.commit lvls
  | .advance d => if m.Busy ∨ ¬ m.Quiet then m else m.advance d

end PcntMod

end Espmod.Pcnt
