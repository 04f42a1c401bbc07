/-
# Espmod.Spi.ChipSelect — the chip selects of the SPI master

A chip select should be low as long as its line is not disabled and a transfer is in progress or the
lines are kept active. The transfer thread drives the three lines at a reset, when a transfer begins and
when it is over, with `activatecs` and `deactivatecs`. The two write the same levels: an enabled line is
low in both. And the branches for a disabled line are exchanged between CS0 and CS2, so that each of them
raises the other line and leaves its own as it is.

The waits of the thread for the clock and for the setup and hold times appear as phases of their own, in
which the lines are not settled. How long a transfer takes is not modelled; `Espmod.Spi.Module` does that.
-/
import Espmod.Lib.Run
import Espmod.Lib.Signal
import Espmod.Pcnt.Unit

namespace Espmod.Spi

open Espmod.Lib
open Espmod.Pcnt (Field rdfield)

/-! ## §1 — the thread -/

def spiCsKeepActive : Field := ⟨0x1, 30⟩
def spiCs2Dis : Field := ⟨0x1, 2⟩
def spiCs1Dis : Field := ⟨0x1, 1⟩
def spiCs0Dis : Field := ⟨0x1, 0⟩

/-- Where `transfer_th` is. -/
inductive Phase where
  /-- waiting for a start or a reset -/
  | idle
  /-- in `setupmasterslave`, waiting for the clock; a reset does not end a phase that receives -/
  | resetting (receiving : Bool)
  /-- at the start of a command, waiting for the clock -/
  | starting
  /-- in a transfer -/
  | running
  /-- in `deactivatecs`, waiting for the hold time -/
  | holding
deriving Repr, DecidableEq

/-- The chip selects with the register that says what they are to do. -/
structure ChipSelects where
  pin : BitVec 32
  cs0 : Signal Bool
  cs1 : Signal Bool
  cs2 : Signal Bool
  phase : Phase
deriving Repr, DecidableEq

namespace ChipSelects

/-- Before the start of simulation, which sets `master` and so resets the module. -/
def init : ChipSelects where
  pin := 0
  cs0 := .init false
  cs1 := .init false
  cs2 := .init false
  phase := .idle

/-- `activatecs`, up to its wait. -/
def activatecs (s : ChipSelects) : ChipSelects :=
  let s :=
    if rdfield s.pin spiCs2Dis = 0 then { s with cs2 := s.cs2.write false }
    else { s with cs0 := s.cs0.write true }
  let s :=
    if rdfield s.pin spiCs1Dis = 0 then { s with cs1 := s.cs1.write false }
    else { s with cs1 := s.cs1.write true }
  if rdfield s.pin spiCs0Dis = 0 then { s with cs0 := s.cs0.write false }
  else { s with cs2 := s.cs2.write true }

/-- `deactivatecs`, from its wait on. -/
def deactivatecs (s : ChipSelects) : ChipSelects :=
  let s :=
    if rdfield s.pin spiCs2Dis = 0 then { s with cs2 := s.cs2.write false }
    else { s with cs0 := s.cs0.write true }
  let s :=
    if rdfield s.pin spiCs1Dis = 0 then { s with cs1 := s.cs1.write false }
    else { s with cs1 := s.cs1.write true }
  if rdfield s.pin spiCs0Dis = 0 then { s with cs0 := s.cs0.write false }
  else { s with cs2 := s.cs2.write true }

/-- The update phase, which comes with the next wait. -/
def update (s : ChipSelects) : ChipSelects :=
  { s with cs0 := s.cs0.update, cs1 := s.cs1.update, cs2 := s.cs2.update }

def keepActive (s : ChipSelects) : Bool := rdfield s.pin spiCsKeepActive != 0

/-- The end of `setupmasterslave` in master mode. -/
def setupmasterslave (s : ChipSelects) : ChipSelects :=
  if s.keepActive then s.activatecs else s.deactivatecs

/-- Firmware configures the pins, resets the module or starts a command; the cursors of a transfer have
come to their ends; or the thread has waited. -/
inductive Event where
  | configure (pin : BitVec 32)
  /-- the cursor of the bits to send is reset, and the transfer goes on if it is `receiving` -/
  | reset (receiving : Bool)
  | start
  | finish
  | waited
deriving Repr, DecidableEq

def step (s : ChipSelects) : Event → ChipSelects
  | .configure pin => { s with pin := pin }
  | .reset receiving =>
    match s.phase with
    | .idle => { s with phase := .resetting false }
    | .running => { s with phase := .resetting receiving }
    | _ => s
  | .start => if s.phase = .idle then { s with phase := .starting } else s
  | .finish =>
    if s.phase = .running then { s with phase := if s.keepActive then .idle else .holding } else s
  | .waited =>
    match s.phase with
    | .resetting receiving =>
      { s.setupmasterslave.update with phase := if receiving then .running else .idle }
    | .starting => { s.activatecs.update with phase := .running }
    | .holding => { s.deactivatecs.update with phase := .idle }
    | _ => s

/-! ## §2 — the law -/

/-- The thread is between two of its actions. -/
def Settled (s : ChipSelects) : Prop := s.phase = .idle ∨ s.phase = .running

instance (s : ChipSelects) : Decidable s.Settled := by unfold Settled; infer_instance

/-- A transfer is in progress or the lines are kept active. -/
def active (s : ChipSelects) : Bool := decide (s.phase = .running) || s.keepActive

/-- A line with this bit in the pin register should be low. -/
def low (dis : Field) (s : ChipSelects) : Bool := decide (rdfield s.pin dis = 0) && s.active

/-- **The chip selects**: each is low exactly when it should be. -/
structure Law (s : ChipSelects) : Prop where
  cs0 : s.cs0.cur = !s.low spiCs0Dis
  cs1 : s.cs1.cur = !s.low spiCs1Dis
  cs2 : s.cs2.cur = !s.low spiCs2Dis

/-- The law holds when the lines are settled. -/
def Lawful (s : ChipSelects) : Prop := s.Settled → s.Law

/-- What a drive of the lines needs to give the right levels, if they are to be `active` or not. -/
def DriveOk (active : Bool) (s : ChipSelects) : Prop :=
  let dis0 := rdfield s.pin spiCs0Dis ≠ 0
  let dis1 := rdfield s.pin spiCs1Dis ≠ 0
  let dis2 := rdfield s.pin spiCs2Dis ≠ 0
  if active then (dis0 → dis2) ∧ (dis2 → ¬ dis0 → s.cs2.next = true)
  else dis0 ∧ dis1 ∧ (¬ dis2 → s.cs0.next = true)

instance (active : Bool) (s : ChipSelects) : Decidable (s.DriveOk active) := by
  unfold DriveOk
  infer_instance

/-- A new configuration of settled lines changes nothing that they should be, and a drive finds what it
needs. -/
def Ok (s : ChipSelects) : Event → Prop
  | .configure pin => s.Settled → ∀ dis ∈ [spiCs0Dis, spiCs1Dis, spiCs2Dis],
      ({ s with pin := pin } : ChipSelects).low dis = s.low dis
  | .waited =>
    match s.phase with
    | .resetting receiving => s.DriveOk (receiving || s.keepActive)
    | .starting => s.DriveOk true
    | .holding => s.DriveOk s.keepActive
    | _ => True
  | _ => True

/-! ## §3 — a drive -/

variable {s : ChipSelects}

/-- **The two routines do the same.** -/
theorem deactivatecs_eq (s : ChipSelects) : s.deactivatecs = s.activatecs := rfl

theorem setupmasterslave_eq (s : ChipSelects) : s.setupmasterslave = s.activatecs := by
  unfold setupmasterslave
  split <;> rfl

/-- The levels after a drive. -/
theorem activatecs_eq (s : ChipSelects) :
    s.activatecs = { s with
      cs0 := if rdfield s.pin spiCs0Dis = 0 then s.cs0.write false
        else if rdfield s.pin spiCs2Dis = 0 then s.cs0 else s.cs0.write true
      cs1 := s.cs1.write (decide (rdfield s.pin spiCs1Dis ≠ 0))
      cs2 := if rdfield s.pin spiCs0Dis ≠ 0 then s.cs2.write true
        else if rdfield s.pin spiCs2Dis = 0 then s.cs2.write false else s.cs2 } := by
  unfold activatecs
  by_cases h0 : rdfield s.pin spiCs0Dis = 0 <;> by_cases h1 : rdfield s.pin spiCs1Dis = 0 <;>
    by_cases h2 : rdfield s.pin spiCs2Dis = 0 <;> simp [h0, h1, h2, Signal.write]

/-- **A drive gives the right levels exactly when it finds what it needs.** -/
theorem law_driven (phase : Phase) (active : Bool)
    (hactive : active = (decide (phase = .running) || s.keepActive)) :
    ({ s.activatecs.update with phase := phase } : ChipSelects).Law ↔ s.DriveOk active := by
  have hlow : ∀ dis, ({ s.activatecs.update with phase := phase } : ChipSelects).low dis =
      (decide (rdfield s.pin dis = 0) && active) := by
    intro dis
    rw [hactive, activatecs_eq]
    rfl
  have hlevels : ({ s.activatecs.update with phase := phase } : ChipSelects).cs0.cur =
        (if rdfield s.pin spiCs0Dis = 0 then false
          else if rdfield s.pin spiCs2Dis = 0 then s.cs0.next else true) ∧
      ({ s.activatecs.update with phase := phase } : ChipSelects).cs1.cur =
        decide (rdfield s.pin spiCs1Dis ≠ 0) ∧
      ({ s.activatecs.update with phase := phase } : ChipSelects).cs2.cur =
        (if rdfield s.pin spiCs0Dis ≠ 0 then true
          else if rdfield s.pin spiCs2Dis = 0 then false else s.cs2.next) := by
    rw [activatecs_eq]
    refine ⟨?_, rfl, ?_⟩
    · show (if _ then _ else _ : Signal Bool).next = _
      split
      · rfl
      · split <;> rfl
    · show (if _ then _ else _ : Signal Bool).next = _
      split
      · rfl
      · split <;> rfl
  obtain ⟨hcs0, hcs1, hcs2⟩ := hlevels
  have hlaw : ({ s.activatecs.update with phase := phase } : ChipSelects).Law ↔
      _ = !(_ && active) ∧ _ = !(_ && active) ∧ _ = !(_ && active) :=
    ⟨fun h => ⟨hcs0 ▸ hlow _ ▸ h.cs0, hcs1 ▸ hlow _ ▸ h.cs1, hcs2 ▸ hlow _ ▸ h.cs2⟩,
      fun h => ⟨hcs0 ▸ hlow _ ▸ h.1, hcs1 ▸ hlow _ ▸ h.2.1, hcs2 ▸ hlow _ ▸ h.2.2⟩⟩
  rw [hlaw]
  unfold DriveOk
  cases active <;> by_cases h0 : rdfield s.pin spiCs0Dis = 0 <;>
    by_cases h1 : rdfield s.pin spiCs1Dis = 0 <;>
    by_cases h2 : rdfield s.pin spiCs2Dis = 0 <;> simp [h0, h1, h2]

/-! ## §4 — the steps -/

/-- What the lines should be depends on the register and on whether they are active. -/
theorem Law.of_low (h : s.Law) {t : ChipSelects} (hcs0 : t.cs0 = s.cs0) (hcs1 : t.cs1 = s.cs1)
    (hcs2 : t.cs2 = s.cs2)
    (hlow : ∀ dis ∈ [spiCs0Dis, spiCs1Dis, spiCs2Dis], t.low dis = s.low dis) : t.Law where
  cs0 := by rw [hcs0, hlow _ (by simp)]; exact h.cs0
  cs1 := by rw [hcs1, hlow _ (by simp)]; exact h.cs1
  cs2 := by rw [hcs2, hlow _ (by simp)]; exact h.cs2

/-- Two lawful states with the same lines agree on what these should be. -/
theorem Law.low_eq (h : s.Law) {t : ChipSelects} (ht : t.Law) (hcs0 : t.cs0 = s.cs0)
    (hcs1 : t.cs1 = s.cs1) (hcs2 : t.cs2 = s.cs2) :
    ∀ dis ∈ [spiCs0Dis, spiCs1Dis, spiCs2Dis], t.low dis = s.low dis := by
  have hnot : ∀ {a b : Bool}, (!a) = !b → a = b := fun hab => by simpa using hab
  intro dis hdis
  simp only [List.mem_cons, List.not_mem_nil, or_false] at hdis
  rcases hdis with rfl | rfl | rfl
  · exact hnot (ht.cs0.symm.trans ((congrArg Signal.cur hcs0).trans h.cs0))
  · exact hnot (ht.cs1.symm.trans ((congrArg Signal.cur hcs1).trans h.cs1))
  · exact hnot (ht.cs2.symm.trans ((congrArg Signal.cur hcs2).trans h.cs2))

/-- A step that leaves the lines unsettled. -/
theorem lawful_of_unsettled {t : ChipSelects} (hidle : t.phase ≠ .idle) (hrun : t.phase ≠ .running) :
    t.Lawful :=
  fun hset => (hset.elim hidle hrun).elim

/-- A drive at the end of a wait. -/
theorem lawful_driven {phase : Phase} {active : Bool} (hset : phase = .idle ∨ phase = .running)
    (hactive : active = (decide (phase = .running) || s.keepActive)) :
    ({ s.activatecs.update with phase := phase } : ChipSelects).Lawful ↔ s.DriveOk active :=
  ⟨fun h => (law_driven phase active hactive).mp (h hset),
    fun h _ => (law_driven phase active hactive).mpr h⟩

/-- **One step**: from a lawful state it leads to a lawful state exactly when it is in order. -/
theorem Lawful.step_iff (h : s.Lawful) (e : Event) : (s.step e).Lawful ↔ s.Ok e := by
  cases e with
  | configure pin =>
    constructor
    · intro hafter hset
      exact (h hset).low_eq (hafter hset) rfl rfl rfl
    · intro hok hset
      exact (h hset).of_low rfl rfl rfl (hok hset)
  | reset receiving =>
    refine iff_of_true ?_ trivial
    unfold step
    cases hphase : s.phase with
    | idle => exact lawful_of_unsettled Phase.noConfusion Phase.noConfusion
    | running => exact lawful_of_unsettled Phase.noConfusion Phase.noConfusion
    | _ => exact h
  | start =>
    refine iff_of_true ?_ trivial
    unfold step
    dsimp only
    split
    · exact lawful_of_unsettled Phase.noConfusion Phase.noConfusion
    · exact h
  | finish =>
    refine iff_of_true ?_ trivial
    unfold step
    dsimp only
    split
    · rename_i hrun
      cases hkeep : s.keepActive with
      | false => exact lawful_of_unsettled Phase.noConfusion Phase.noConfusion
      | true =>
        -- the lines stay as they are, and active
        intro _
        refine (h (Or.inr hrun)).of_low rfl rfl rfl fun dis _ => ?_
        have hbefore : s.active = true := by unfold active; rw [hkeep, Bool.or_true]
        have hafter : ({ s with phase := if true = true then .idle else .holding } : ChipSelects).active =
            true := by
          show (_ || s.keepActive) = true
          rw [hkeep, Bool.or_true]
        unfold low
        rw [hbefore, hafter]
    · exact h
  | waited =>
    unfold step Ok
    cases hphase : s.phase with
    | idle => exact iff_of_true h trivial
    | running => exact iff_of_true h trivial
    | resetting receiving =>
      dsimp only
      rw [setupmasterslave_eq]
      cases receiving with
      | true => exact lawful_driven (Or.inr rfl) (by simp)
      | false => exact lawful_driven (Or.inl rfl) (by simp)
    | starting => exact lawful_driven (Or.inr rfl) (by simp)
    | holding => exact lawful_driven (Or.inl rfl) (by simp)

/-! ## §5 — the result -/

/-- **The chip selects follow the law exactly as long as every step is in order**: in any run of
configurations, resets and transfers from a lawful state. -/
theorem chip_selects (h : s.Lawful) (es : List Event) :
    Always (fun _ t => t.Lawful) step [] s es ↔ Throughout Ok step s es := by
  refine always_iff_of_invariant (I := fun _ (t : ChipSelects) => t.Lawful) ?_ ?_ ?_ es [] s h
  · exact fun _ _ ht => ht
  · exact fun _ _ e ht hok => (ht.step_iff e).mpr hok
  · exact fun _ _ e ht hbad hafter => hbad ((ht.step_iff e).mp hafter)

/-- In its first reset the module is not settled. -/
theorem lawful_start : (init.step (.reset false)).Lawful :=
  lawful_of_unsettled Phase.noConfusion Phase.noConfusion

/-- All lines disabled, and a transfer. -/
theorem chip_selects_start :
    Always (fun _ t => t.Lawful) step [] (init.step (.reset false))
        [.configure 7, .waited, .start, .waited, .finish, .waited] :=
  (chip_selects lawful_start _).mpr
    ⟨fun hset => absurd hset (by decide), (by decide : DriveOk false _), trivial,
      (by decide : DriveOk true _), trivial, (by decide : DriveOk false _), trivial⟩

/-- After the first reset all three lines are low, and after a transfer with CS0 alone it still is; a
disabled CS0 raises CS2 in a transfer of its own. -/
theorem lines_wrong :
    ¬ ([.reset false, .waited].foldl step init).Lawful ∧
      ¬ ([.reset false, .waited, .configure 6, .start, .waited, .finish, .waited].foldl step init).Lawful ∧
      ¬ ([.reset false, .waited, .configure 3, .start, .waited].foldl step init).Lawful := by
  refine ⟨fun h => ?_, fun h => ?_, fun h => ?_⟩
  · exact absurd (h (by decide)).cs0 (by decide)
  · exact absurd (h (by decide)).cs0 (by decide)
  · exact absurd (h (by decide)).cs2 (by decide)

end ChipSelects

end Espmod.Spi
