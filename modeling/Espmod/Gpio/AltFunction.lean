/-
# Espmod.Gpio.AltFunction — alternate functions of the simpler pads

`gpio_mf` and `gpio_mfmix` put an alternate function on a pad: its thread `drive_func` copies the level
`fin[f-1]` of the function and decides by `fen[f-1]`, where there is one, whether to drive. It then
sleeps until the function or one of these signals changes.

Two comparisons with the number of `fen` ports are the wrong way round. The first one makes a function
that has a `fen` enabled whatever its level, and reads beyond the list for a function that has none;
the second leaves the `fen` out of what is waited for. So the output is right as long as the enables of
the functions selected exist and are on.

The two blocks differ in that only `gpio_mfmix` can be analog. `gpio_mf` does not expect that, and if it
is built so, it takes it for a function.
-/
import Espmod.Gpio.Base

namespace Espmod.Gpio

open Espmod.Lib

/-! ## §1 — the block -/

/-- `gpio_mf` or `gpio_mfmix`; `fin` and `fen` are the levels on the function inputs, and `fout` counts
the return paths. `watched` is the function `drive_func` went to sleep on, or nothing if it has to run;
`outside` says that it has read a port outside of the lists. -/
structure GpioMf where
  mfmix : Bool
  base : GpioBase
  anaok : Bool
  function : GpioFunction
  pinval : Bool
  fin : List Bool
  fen : List Bool
  fout : Nat
  watched : Option GpioFunction
  outside : Bool
deriving Repr, DecidableEq

namespace GpioMf

/-- `gpio_mf` after construction: it cannot be set to analog, and `pinval` is not initialised. `base` is
the `gpio_base` part. -/
def newMf (base : GpioBase) (initialfunc : GpioFunction) (pinval : Bool) (fin fen : List Bool)
    (fout : Nat) : GpioMf where
  mfmix := false
  base := { base with pindrive := false, driveok := true }
  anaok := false
  function := initialfunc
  pinval := pinval
  fin := fin
  fen := fen
  fout := fout
  watched := none
  outside := false

/-- `gpio_mfmix` after construction. -/
def newMfmix (base : GpioBase) (hasana : Bool) (initialfunc : GpioFunction) (fin fen : List Bool)
    (fout : Nat) : GpioMf where
  mfmix := true
  base := { base with pindrive := false, driveok := true }
  anaok := hasana
  function := initialfunc
  pinval := false
  fin := fin
  fen := fen
  fout := fout
  watched := none
  outside := false

/-- `set_function`. `gpio_mf` refuses `GPIOMF_ANALOG`, and `gpio_mfmix` does so when it is not `anaok`. -/
def setFunction (newfunction : GpioFunction) (m : GpioMf) : GpioMf :=
  if newfunction = m.function then m
  else match newfunction with
    | .analog =>
      if !m.anaok then m
      else
        { m with
          base := { (m.base.setMode gpiomodeNone).2 with driveok := false }
          function := .analog
          watched := none }
    | .gpio =>
      { m with
        base := { m.base with driveok := true }.setVal m.pinval
        function := .gpio
        watched := none }
    | .func k =>
      if m.fin.length ≤ k ∧ m.fout ≤ k then m else { m with function := .func k, watched := none }

/-- `set_val`. -/
def setVal (newval : Bool) (m : GpioMf) : GpioMf :=
  { m with
    pinval := newval
    base := if m.function = .gpio then m.base.setVal newval else m.base }

/-- `function-1 < fen.size() || fen[function-1]->read() == true`, or nothing if there is no such port. -/
def readFen (k : Nat) (m : GpioMf) : Option Bool :=
  if k < m.fen.length then some true else m.fen[k]?

/-- One turn of `drive_func`, to the next wait. `GPIOMF_ANALOG` is -1, and `gpio_mf` reads the port below
it. -/
def driveFunc (m : GpioMf) : GpioMf :=
  match m.function with
  | .func k =>
    if k < m.fin.length then
      match m.readFen k with
      | some ok =>
        { m with
          base := { m.base with driveok := ok }.setVal (m.fin.getD k false)
          watched := some m.function }
      | none => { m with outside := true }
    else { m with watched := some m.function }
  | .gpio => { m with watched := some m.function }
  | .analog => if m.mfmix then { m with watched := some m.function } else { m with outside := true }

/-- Whether the wait includes `fin[k]`. -/
def awaitsFin (k : Nat) (m : GpioMf) : Prop := m.watched = some (.func k) ∧ k < m.fin.length

/-- Whether the wait includes `fen[k]`, besides `fin[k]`. -/
def awaitsFen (k : Nat) (m : GpioMf) : Prop := m.awaitsFin k ∧ ¬ k ≤ m.fen.length

instance (k : Nat) (m : GpioMf) : Decidable (m.awaitsFin k) := inferInstanceAs (Decidable (_ ∧ _))

instance (k : Nat) (m : GpioMf) : Decidable (m.awaitsFen k) := inferInstanceAs (Decidable (_ ∧ _))

/-- The signal on `fin[k]` becomes `v`. -/
def finChange (k : Nat) (v : Bool) (m : GpioMf) : GpioMf :=
  { m with
    fin := m.fin.set k v
    watched := if m.awaitsFin k ∧ m.fin.getD k false ≠ v then none else m.watched }

/-- The signal on `fen[k]` becomes `v`. -/
def fenChange (k : Nat) (v : Bool) (m : GpioMf) : GpioMf :=
  { m with
    fen := m.fen.set k v
    watched := if m.awaitsFen k ∧ m.fen.getD k false ≠ v then none else m.watched }

/-- A call, a change of an input, or a turn of the thread if it has to run. -/
inductive Event where
  | setFunction (newfunction : GpioFunction)
  | setVal (newval : Bool)
  | finChange (k : Nat) (v : Bool)
  | fenChange (k : Nat) (v : Bool)
  | turn
deriving Repr, DecidableEq

def step (m : GpioMf) : Event → GpioMf
  | .setFunction newfunction => m.setFunction newfunction
  | .setVal newval => m.setVal newval
  | .finChange k v => m.finChange k v
  | .fenChange k v => m.fenChange k v
  | .turn => if m.watched = none then m.driveFunc else m

/-! ## §2 — the specification -/

/-- **The function drives the pad**: no port outside of the lists is read, and when the thread is asleep
and the function selected has a `fin`, the output is enabled by its `fen` or for want of one, and the
level is that of `fin`. -/
structure Right (m : GpioMf) : Prop where
  inside : m.outside = false
  driven : ∀ k, m.watched.isSome = true → m.function = .func k → k < m.fin.length →
    (m.base.driveok = true ↔ m.fen.length ≤ k ∨ m.fen.getD k false = true) ∧
      m.base.pindrive = m.fin.getD k false

/-- The function selected has a `fen`, and it is on, if the function has a `fin`. A `gpio_mf` is not
analog. -/
def Enabled (m : GpioMf) : Prop :=
  match m.function with
  | .func k => k < m.fin.length → k < m.fen.length ∧ m.fen.getD k false = true
  | .gpio => True
  | .analog => m.mfmix = true

/-- A turn is taken with the function enabled, and the enable is not taken away while the thread sleeps. -/
def Ready (m : GpioMf) : Event → Prop
  | .turn => m.watched = none → m.Enabled
  | .fenChange k v => m.watched.isSome = true → m.function = .func k → k < m.fin.length →
      k < m.fen.length → v = true
  | _ => True

instance (m : GpioMf) : Decidable m.Enabled := by
  unfold Enabled
  split <;> infer_instance

instance (m : GpioMf) (e : Event) : Decidable (m.Ready e) := by
  cases e <;> unfold Ready <;> infer_instance

/-! ## §3 — the invariant -/

/-- When the thread is asleep it is so on the function that is selected, which is enabled, and driven. -/
structure Drives (m : GpioMf) : Prop where
  inside : m.outside = false
  asleep : ∀ f, m.watched = some f → f = m.function
  driven : ∀ k, m.watched = some (.func k) → k < m.fin.length →
    k < m.fen.length ∧ m.fen.getD k false = true ∧ m.base.driveok = true ∧
      m.base.pindrive = m.fin.getD k false

variable {m : GpioMf}

theorem Drives.right (h : Drives m) : Right m where
  inside := h.inside
  driven k hasleep hfunction hk := by
    obtain ⟨f, hf⟩ := Option.isSome_iff_exists.mp hasleep
    rw [h.asleep f hf, hfunction] at hf
    obtain ⟨hlt, hfen, hok, hlevel⟩ := h.driven k hf hk
    exact ⟨⟨fun _ => Or.inr hfen, fun _ => hok⟩, hlevel⟩

/-- The thread has to run, and has read nothing outside. -/
theorem drives_awake (hinside : m.outside = false) (hwatched : m.watched = none) : Drives m where
  inside := hinside
  asleep f hf := by
    rw [hwatched] at hf
    exact nomatch hf
  driven k hk := by
    rw [hwatched] at hk
    exact nomatch hk

theorem Drives.setFunction (h : Drives m) (newfunction : GpioFunction) : Drives (m.setFunction newfunction) := by
  unfold GpioMf.setFunction
  split
  · exact h
  · cases newfunction with
    | analog =>
      dsimp only
      split
      · exact h
      · exact drives_awake h.inside rfl
    | gpio => exact drives_awake h.inside rfl
    | func k =>
      dsimp only
      split
      · exact h
      · exact drives_awake h.inside rfl

theorem Drives.setVal (h : Drives m) (newval : Bool) : Drives (m.setVal newval) := by
  unfold GpioMf.setVal
  split
  next hgpio =>
    refine ⟨h.inside, h.asleep, fun k hk _ => ?_⟩
    exact absurd ((h.asleep _ hk).trans hgpio) GpioFunction.noConfusion
  next => exact ⟨h.inside, h.asleep, h.driven⟩

/-- **A turn with the function enabled.** -/
theorem Drives.driveFunc (h : Drives m) (hok : m.Enabled) : Drives m.driveFunc := by
  unfold Enabled at hok
  unfold GpioMf.driveFunc
  cases hfunction : m.function with
  | func k =>
    rw [hfunction] at hok
    dsimp only at hok ⊢
    split
    next hk =>
      obtain ⟨hlt, hfen⟩ := hok hk
      have hread : m.readFen k = some true := if_pos hlt
      rw [hread]
      refine ⟨h.inside, fun f hf => (Option.some.inj hf).symm, fun j hj _ => ?_⟩
      obtain rfl := GpioFunction.func.inj (Option.some.inj hj)
      exact ⟨hlt, hfen, rfl, rfl⟩
    next hk =>
      refine ⟨h.inside, fun f hf => (Option.some.inj hf).symm, fun j hj hlt => ?_⟩
      obtain rfl := GpioFunction.func.inj (Option.some.inj hj)
      exact absurd hlt hk
  | gpio =>
    refine ⟨h.inside, fun f hf => (Option.some.inj hf).symm, fun j hj _ => ?_⟩
    exact absurd (Option.some.inj hj) GpioFunction.noConfusion
  | analog =>
    rw [hfunction] at hok
    dsimp only at hok ⊢
    rw [if_pos hok]
    refine ⟨h.inside, fun f hf => (Option.some.inj hf).symm, fun j hj _ => ?_⟩
    exact absurd (Option.some.inj hj) GpioFunction.noConfusion

/-- **A turn without** reads outside of the list, or drives without being enabled. -/
theorem not_right_driveFunc (hbad : ¬ m.Enabled) : ¬ Right m.driveFunc := by
  intro hright
  unfold Enabled at hbad
  unfold GpioMf.driveFunc at hright
  cases hfunction : m.function with
  | func k =>
    rw [hfunction] at hbad hright
    dsimp only at hbad hright
    obtain ⟨hk, hno⟩ := Classical.not_imp.mp hbad
    rw [if_pos hk] at hright
    by_cases hlt : k < m.fen.length
    · have hread : m.readFen k = some true := if_pos hlt
      rw [hread] at hright
      have hdriven := ((hright.driven k rfl rfl hk).1.mp rfl).resolve_left (Nat.not_le.mpr hlt)
      exact hno ⟨hlt, hdriven⟩
    · have hread : m.readFen k = none := by
        unfold readFen
        rw [if_neg hlt]
        exact List.getElem?_eq_none (Nat.not_lt.mp hlt)
      rw [hread] at hright
      exact absurd hright.inside (fun h => Bool.noConfusion h)
  | gpio =>
    rw [hfunction] at hbad
    exact hbad trivial
  | analog =>
    rw [hfunction] at hbad hright
    dsimp only at hbad hright
    rw [if_neg hbad] at hright
    exact absurd hright.inside (fun h => Bool.noConfusion h)

theorem getD_set (l : List Bool) (k j : Nat) (v : Bool) :
    (l.set k v).getD j false = if k = j ∧ k < l.length then v else l.getD j false := by
  rw [List.getD_eq_getElem?_getD, List.getD_eq_getElem?_getD, List.getElem?_set]
  by_cases hkj : k = j
  · subst hkj
    by_cases hk : k < l.length
    · rw [if_pos rfl, if_pos hk, if_pos ⟨rfl, hk⟩]
      rfl
    · rw [if_pos rfl, if_neg hk, if_neg fun h => hk h.2, List.getElem?_eq_none (Nat.not_lt.mp hk)]
  · rw [if_neg hkj, if_neg fun h => hkj h.1]

theorem Drives.finChange (h : Drives m) (k : Nat) (v : Bool) : Drives (m.finChange k v) := by
  by_cases hwakes : m.awaitsFin k ∧ m.fin.getD k false ≠ v
  · exact drives_awake h.inside (if_pos hwakes)
  · have hwatched : (m.finChange k v).watched = m.watched := if_neg hwakes
    refine ⟨h.inside, fun f hf => h.asleep f (hwatched.symm.trans hf), fun j hj hlt => ?_⟩
    have hj := hwatched.symm.trans hj
    have hlt : j < m.fin.length := by simpa [GpioMf.finChange] using hlt
    obtain ⟨hfen, hon, hok, hlevel⟩ := h.driven j hj hlt
    refine ⟨hfen, hon, hok, hlevel.trans ?_⟩
    show m.fin.getD j false = (m.fin.set k v).getD j false
    rw [getD_set]
    split
    next hsame =>
      -- it is the level that is slept on, and did not change
      obtain ⟨rfl, _⟩ := hsame
      by_contra hne
      exact hwakes ⟨⟨hj, hlt⟩, hne⟩
    next => rfl

theorem Drives.fenChange (h : Drives m) {k : Nat} {v : Bool}
    (hok : m.watched.isSome = true → m.function = .func k → k < m.fin.length → k < m.fen.length → v = true) :
    Drives (m.fenChange k v) := by
  by_cases hwakes : m.awaitsFen k ∧ m.fen.getD k false ≠ v
  · exact drives_awake h.inside (if_pos hwakes)
  · have hwatched : (m.fenChange k v).watched = m.watched := if_neg hwakes
    refine ⟨h.inside, fun f hf => h.asleep f (hwatched.symm.trans hf), fun j hj hlt => ?_⟩
    have hj := hwatched.symm.trans hj
    obtain ⟨hfen, hon, hdriveok, hlevel⟩ := h.driven j hj hlt
    refine ⟨?_, ?_, hdriveok, hlevel⟩
    · show j < (m.fen.set k v).length
      rw [List.length_set]
      exact hfen
    · show (m.fen.set k v).getD j false = true
      rw [getD_set]
      split
      next hsame =>
        obtain ⟨rfl, hk⟩ := hsame
        exact hok (Option.isSome_of_eq_some hj) (h.asleep _ hj).symm hlt hk
      next => exact hon

/-- **An enable that is taken away** while the thread sleeps goes unnoticed. -/
theorem Drives.unnoticed (h : Drives m) {k : Nat} {v : Bool} (hasleep : m.watched.isSome = true)
    (hfunction : m.function = .func k) (hk : k < m.fin.length) (hlt : k < m.fen.length) (hv : v = false) :
    ¬ Right (m.fenChange k v) := by
  obtain ⟨f, hf⟩ := Option.isSome_iff_exists.mp hasleep
  have hwatched : m.watched = some (.func k) := by rw [hf, h.asleep f hf, hfunction]
  have hsleeps : (m.fenChange k v).watched = m.watched :=
    if_neg fun hwakes => hwakes.1.2 (Nat.le_of_lt hlt)
  intro hright
  have hdriven := (hright.driven k (by rw [hsleeps]; exact hasleep) hfunction hk).1.mp
    (h.driven k hwatched hk).2.2.1
  have hfen : (m.fenChange k v).fen.getD k false = false := by
    show (m.fen.set k v).getD k false = false
    rw [getD_set, if_pos ⟨rfl, hlt⟩, hv]
  rcases hdriven with hnone | hon
  · have hnone : m.fen.length ≤ k := by simpa [GpioMf.fenChange] using hnone
    exact absurd hlt (Nat.not_lt.mpr hnone)
  · exact absurd (hfen.symm.trans hon) Bool.false_ne_true

/-- **One step that meets the condition.** -/
theorem Drives.step (h : Drives m) {e : Event} (hok : m.Ready e) : Drives (m.step e) := by
  cases e with
  | setFunction newfunction => exact h.setFunction newfunction
  | setVal newval => exact h.setVal newval
  | finChange k v => exact h.finChange k v
  | fenChange k v => exact h.fenChange hok
  | turn =>
    show Drives (if m.watched = none then m.driveFunc else m)
    split
    next hawake => exact h.driveFunc (hok hawake)
    next => exact h

/-- **One that does not.** -/
theorem Drives.broken (h : Drives m) {e : Event} (hbad : ¬ m.Ready e) : ¬ Right (m.step e) := by
  cases e with
  | setFunction newfunction => exact absurd trivial hbad
  | setVal newval => exact absurd trivial hbad
  | finChange k v => exact absurd trivial hbad
  | fenChange k v =>
    have hbad : ¬ (m.watched.isSome = true → m.function = .func k → k < m.fin.length →
      k < m.fen.length → v = true) := hbad
    simp only [Classical.not_imp, Bool.not_eq_true] at hbad
    obtain ⟨hasleep, hfunction, hk, hlt, hv⟩ := hbad
    exact h.unnoticed hasleep hfunction hk hlt hv
  | turn =>
    have hbad : ¬ (m.watched = none → m.Enabled) := hbad
    obtain ⟨hawake, hdisabled⟩ := Classical.not_imp.mp hbad
    have hturn : m.step .turn = m.driveFunc := if_pos hawake
    rw [hturn]
    exact not_right_driveFunc hdisabled

/-! ## §4 — runs -/

/-- A block before `drive_func` has run. -/
theorem always_right (hinside : m.outside = false) (hwatched : m.watched = none) (es : List Event) :
    Always (fun _ => Right) step [] m es ↔ Throughout Ready step m es := by
  refine always_iff_of_invariant (P := fun _ => Right) (I := fun _ => Drives) ?_ ?_ ?_ es [] m ?_
  · intro _ m h
    exact h.right
  · intro _ m e h hok
    exact h.step hok
  · intro _ m e h hbad
    exact h.broken hbad
  · exact drives_awake hinside hwatched

/-- **The alternate functions** of a `gpio_mf` and of a `gpio_mfmix`. In a run from construction the
output follows the function selected in every state in which the thread sleeps, and no port outside of
the lists is read, exactly if `drive_func` never runs with a function that is not enabled, and no
enable is taken away while it sleeps. -/
theorem function_drives (base : GpioBase) (initialfunc : GpioFunction) (pinval hasana : Bool)
    (fin fen : List Bool) (fout : Nat) (es : List Event) :
    (Always (fun _ => Right) step [] (newMf base initialfunc pinval fin fen fout) es ↔
        Throughout Ready step (newMf base initialfunc pinval fin fen fout) es) ∧
      (Always (fun _ => Right) step [] (newMfmix base hasana initialfunc fin fen fout) es ↔
        Throughout Ready step (newMfmix base hasana initialfunc fin fen fout) es) :=
  ⟨always_right rfl rfl es, always_right rfl rfl es⟩

/-- A function with a `fin` and a `fen` that is off is driven, and one without a `fen` is looked up
where there is none. -/
theorem function_undriven :
    ¬ Always (fun _ => Right) step [] (newMf GpioBase.BaseRun.pulledInput .gpio false [true] [false] 0)
        [.setFunction (.func 0), .turn] ∧
      ¬ Always (fun _ => Right) step [] (newMf GpioBase.BaseRun.pulledInput .gpio false [true] [] 0)
        [.setFunction (.func 0), .turn] := by
  constructor
  · intro h
    have hdriven := (h.last.driven 0 rfl rfl (by decide)).1.mp rfl
    revert hdriven
    decide
  · intro h
    have hinside := h.last.inside
    revert hinside
    decide

end GpioMf

end Espmod.Gpio
