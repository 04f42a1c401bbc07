/-
# Espmod.Gpio.Updates — threads, notifications and the update thread between them

`update`, `updategpioreg` and `updategpiooe` notify an event at once, which makes `updateth` runnable
in the same evaluation phase, and put the calling thread to sleep until the next clock edge. Whether
an event was notified can be asked until the delta cycle ends, and `updateth` asks in a fixed order
and serves the first it finds. So within one delta cycle a call can be shadowed by another thread's
call of a kind that is asked for earlier, and a patch can read a `function` that has been rewritten
in the same delta cycle and does not show it yet.

`Lands` says that a call is neither. In a run whose calls all land, whenever nothing is left to do,
every output multiplexer has the function the registers ask for.
-/
import Espmod.Gpio.Matrix
import Espmod.Gpio.Incremental
import Espmod.Lib.Run

namespace Espmod.Gpio

open Espmod.Lib Espmod.Gpio.Matrix

/-! ## §1 — the scheduler around the matrix -/

/-- The matrix, the events notified in the present delta cycle, whether `updateth` is runnable, and
the threads that sleep until the next clock edge. -/
structure Sched where
  m : Matrix
  regTriggered : Bool
  oeTriggered : Bool
  updTriggered : Bool
  runnable : Bool
  asleep : List Nat

/-- What can happen. `call t w c`: thread `t` changes registers by `w` and makes the call `c`.
`serve`: `updateth` takes its turn. `delta`: the delta cycle ends with the update phase. `clock`: the
same, and time advances to the next clock edge. -/
inductive Event where
  | call (t : Nat) (w : GpioDev → GpioDev) (c : Call)
  | serve
  | delta
  | clock

namespace Sched

/-- A matrix with nothing going on around it. -/
def start (m : Matrix) : Sched := ⟨m, false, false, false, false, []⟩

/-- The branch `updateth` takes: the first of its questions that is answered yes. -/
def branch (s : Sched) : Call :=
  if s.regTriggered then .updategpioreg else if s.oeTriggered then .updategpiooe else .update

/-- The registers are changed, the event is notified, and the thread sleeps. -/
def call (t : Nat) (w : GpioDev → GpioDev) (c : Call) (s : Sched) : Sched where
  m := { s.m with gpio := w s.m.gpio }
  regTriggered := s.regTriggered || decide (c = .updategpioreg)
  oeTriggered := s.oeTriggered || decide (c = .updategpiooe)
  updTriggered := s.updTriggered || decide (c = .update)
  runnable := true
  asleep := t :: s.asleep

def serve (s : Sched) : Sched := { s with m := s.m.updateth s.branch, runnable := false }

def endDelta (s : Sched) : Sched :=
  { s with m := s.m.commit, regTriggered := false, oeTriggered := false, updTriggered := false }

/-- A sleeping thread makes no call, and a delta cycle does not end while a process is runnable. -/
def step (s : Sched) : Event → Sched
  | .call t w c => if s.asleep.contains t then s else s.call t w c
  | .serve => if s.runnable then s.serve else s
  | .delta => if s.runnable then s else s.endDelta
  | .clock => if s.runnable then s else { s.endDelta with asleep := [] }

/-- `updateth` has run, no notification is remembered and every `function` shows its value. -/
structure Settled (s : Sched) : Prop where
  idle : s.runnable = false
  noReg : s.regTriggered = false
  noOe : s.oeTriggered = false
  noUpd : s.updTriggered = false
  quiet : ∀ pin, (s.m.function pin).Quiet

/-- Every output multiplexer has the function a full update would select. Registers change in calls
only, and `updateth` only folds them, so these are the contents as of the last call. -/
def Reflects (_ : List Event) (s : Sched) : Prop :=
  s.Settled → ∀ pin, getmux pin = true → (s.m.function pin).cur = selected s.m.gpio.folded pin

/-! ## §2 — when a call lands -/

/-- The functions a patch looks at. -/
def Patched : Call → Nat → Prop
  | .updategpioreg, fn => fn = muxoutDrive0 ∨ fn = muxoutDrive1
  | .updategpiooe, fn => fn = muxoutDrive0 ∨ fn = muxoutDrive1 ∨ fn = muxoutDriveZ
  | .update, _ => True

/-- The registers a call is about: those its branch folds, or any for a full update. -/
def Concerns (w : GpioDev → GpioDev) (d : GpioDev) : Call → Prop
  | .updategpioreg => (w d).enable = d.enable ∧ (w d).funcOutSel = d.funcOutSel
  | .updategpiooe => (w d).out = d.out ∧ (w d).funcOutSel = d.funcOutSel
  | .update => True

/-- No call is shadowed: `updateth` will take the branch of this one, and any call it has not served
yet is of the same kind. -/
def Heard (s : Sched) (c : Call) : Prop :=
  (c ≠ .updategpioreg → s.regTriggered = false) ∧ (c = .update → s.oeTriggered = false) ∧
    (s.runnable = true → s.branch = c)

/-- The patch reads true values: every select is one the register description knows, and a pin whose
function has been rewritten earlier in this delta cycle is asked for that function again and has not
been moved out of the functions the patch looks at. -/
def Fits (s : Sched) (w : GpioDev → GpioDev) (c : Call) : Prop :=
  c ≠ .update → ∀ pin, getmux pin = true →
    LegalSel (w s.m.gpio) pin ∧
    (¬ (s.m.function pin).Quiet →
      selected (w s.m.gpio).folded pin = (s.m.function pin).next ∧
        (Patched c (s.m.function pin).cur → Patched c (s.m.function pin).next))

/-- A call that lands, or that is not made because its thread sleeps; other events always do. -/
def Lands (s : Sched) : Event → Prop
  | .call t w c =>
    s.asleep.contains t = true ∨ (Heard s c ∧ Concerns w s.m.gpio c ∧ Fits s w c)
  | _ => True

/-! ## §3 — the patches on a rewritten function -/

/-- The level patch of a pin that has been given the selected function already in this delta cycle:
whatever it writes is that function again. -/
theorem setbitsAt_rewritten {d : GpioDev} {pin fn : Nat} (hmux : getmux pin = true)
    (hlegal : LegalSel d pin)
    (hstand : Patched .updategpioreg fn → Patched .updategpioreg (selected d pin)) :
    (setbitsAt d.out.data pin fn).getD (selected d pin) = selected d pin := by
  by_cases hfn : Patched .updategpioreg fn
  · have hsel := hstand hfn
    -- the selected function is a driven level, so the select is 256 and the pin is enabled
    have h256 : d.funcOutSel pin = 256 := by
      by_contra hne
      have hlt := hlegal.lt hne
      rw [selected, if_neg hne] at hsel
      rcases hsel with h | h
      · rw [muxoutDrive0] at h
        omega
      · rw [muxoutDrive1] at h
        omega
    have hen : d.enable.data.bit pin = true := by
      cases hb : d.enable.data.bit pin with
      | true => rfl
      | false =>
        rw [selected, if_pos h256, hb] at hsel
        rcases hsel with h | h <;> simp [muxoutDriveZ, muxoutDrive0, muxoutDrive1] at h
    rw [setbitsAt, if_pos hmux, selected, if_pos h256, hen]
    rcases hfn with rfl | rfl <;> cases d.out.data.bit pin <;> simp [muxoutDrive0, muxoutDrive1]
  · have hnone : setbitsAt d.out.data pin fn = none := by
      have h0 : fn ≠ muxoutDrive0 := fun h => hfn (Or.inl h)
      have h1 : fn ≠ muxoutDrive1 := fun h => hfn (Or.inr h)
      simp [setbitsAt, h0, h1]
    rw [hnone]
    rfl

/-- The direction patch of such a pin. -/
theorem setoebitsAt_rewritten {d : GpioDev} {pin fn : Nat} (hmux : getmux pin = true)
    (hlegal : LegalSel d pin)
    (hstand : Patched .updategpiooe fn → Patched .updategpiooe (selected d pin)) :
    (setoebitsAt d.out.data d.enable.data pin fn).getD (selected d pin) = selected d pin := by
  by_cases hfn : Patched .updategpiooe fn
  · have hsel := hstand hfn
    have h256 : d.funcOutSel pin = 256 := by
      by_contra hne
      have hlt := hlegal.lt hne
      rw [selected, if_neg hne] at hsel
      rcases hsel with h | h | h
      · rw [muxoutDrive0] at h
        omega
      · rw [muxoutDrive1] at h
        omega
      · rw [muxoutDriveZ] at h
        omega
    rw [setoebitsAt, if_pos hmux, selected, if_pos h256]
    rcases hfn with rfl | rfl | rfl <;> cases d.enable.data.bit pin <;> cases d.out.data.bit pin <;>
      simp [muxoutDrive0, muxoutDrive1, muxoutDriveZ]
  · have hnone : setoebitsAt d.out.data d.enable.data pin fn = none := by
      have h0 : fn ≠ muxoutDrive0 := fun h => hfn (Or.inl h)
      have h1 : fn ≠ muxoutDrive1 := fun h => hfn (Or.inr (Or.inl h))
      have hz : fn ≠ muxoutDriveZ := fun h => hfn (Or.inr (Or.inr h))
      simp [setoebitsAt, h0, h1, hz]
    rw [hnone]
    rfl

/-! ## §4 — the invariant -/

/-- Between calls: the next value of every function is the selected one. -/
structure Served (m : Matrix) : Prop where
  next : ∀ pin, getmux pin = true → (m.function pin).next = selected m.gpio pin
  folded : m.gpio.folded = m.gpio

/-- With calls of kind `c` waiting: what its branch needs to restore that. -/
def Waiting (m : Matrix) (c : Call) : Prop :=
  match c with
  | .updategpioreg =>
    m.gpio.enable.applycs = m.gpio.enable ∧ ∀ pin, getmux pin = true →
      LegalSel m.gpio pin ∧
      ((m.function pin).Quiet → RegReady m.gpio pin (m.function pin).cur) ∧
      (¬ (m.function pin).Quiet → selected m.gpio.folded pin = (m.function pin).next ∧
        (Patched .updategpioreg (m.function pin).cur → Patched .updategpioreg (m.function pin).next))
  | .updategpiooe =>
    m.gpio.out.applycs = m.gpio.out ∧ ∀ pin, getmux pin = true →
      LegalSel m.gpio pin ∧
      ((m.function pin).Quiet → OeReady m.gpio pin (m.function pin).cur) ∧
      (¬ (m.function pin).Quiet → selected m.gpio.folded pin = (m.function pin).next ∧
        (Patched .updategpiooe (m.function pin).cur → Patched .updategpiooe (m.function pin).next))
  | .update => True

/-- **A turn of `updateth`** that finds what its branch needs leaves every function selected. -/
theorem served_updateth {m : Matrix} {c : Call} (h : Waiting m c) : Served (m.updateth c) := by
  cases c with
  | updategpioreg =>
    obtain ⟨hen, hpins⟩ := h
    have hfold : m.gpio.folded = m.gpio.applycsbits := GpioDev.folded_of_enable hen
    constructor
    · intro pin hmux
      obtain ⟨hlegal, hquiet, hrewritten⟩ := hpins pin hmux
      have hlegal' : LegalSel m.gpio.applycsbits pin := hlegal.congr rfl
      rw [Matrix.next_updategpioreg, Matrix.gpio_updategpioreg]
      by_cases hq : (m.function pin).Quiet
      · have hready : RegReady m.gpio.applycsbits pin (m.function pin).cur :=
          (hquiet hq).congr rfl rfl
        rw [show (m.function pin).next = (m.function pin).cur from hq]
        exact Matrix.setbitsAt_ready (d := m.gpio.applycsbits) hmux hlegal' hready
      · obtain ⟨hsel, hstand⟩ := hrewritten hq
        rw [hfold] at hsel
        rw [← hsel] at hstand ⊢
        exact setbitsAt_rewritten (d := m.gpio.applycsbits) hmux hlegal' hstand
    · rw [Matrix.gpio_updategpioreg]
      exact GpioDev.folded_eq (Port.applycs_applycs _) hen
  | updategpiooe =>
    obtain ⟨hout, hpins⟩ := h
    have hfold : m.gpio.folded = m.gpio.applyoecsbits := GpioDev.folded_of_out hout
    constructor
    · intro pin hmux
      obtain ⟨hlegal, hquiet, hrewritten⟩ := hpins pin hmux
      have hlegal' : LegalSel m.gpio.applyoecsbits pin := hlegal.congr rfl
      rw [Matrix.next_updategpiooe, Matrix.gpio_updategpiooe]
      by_cases hq : (m.function pin).Quiet
      · have hready : OeReady m.gpio.applyoecsbits pin (m.function pin).cur :=
          (hquiet hq).congr rfl rfl
        rw [show (m.function pin).next = (m.function pin).cur from hq]
        exact Matrix.setoebitsAt_ready (d := m.gpio.applyoecsbits) hmux hlegal' hready
      · obtain ⟨hsel, hstand⟩ := hrewritten hq
        rw [hfold] at hsel
        rw [← hsel] at hstand ⊢
        exact setoebitsAt_rewritten (d := m.gpio.applyoecsbits) hmux hlegal' hstand
    · rw [Matrix.gpio_updategpiooe]
      exact GpioDev.folded_eq hout (Port.applycs_applycs _)
  | update =>
    constructor
    · intro pin hmux
      rw [Matrix.next_update hmux, Matrix.gpio_update]
    · rw [Matrix.gpio_update, GpioDev.folded_folded]

/-- What holds in every state of a run whose calls land. -/
def Kept (s : Sched) : Prop :=
  if s.runnable then Waiting s.m s.branch else Served s.m

theorem Kept.waiting {s : Sched} (h : Kept s) (hr : s.runnable = true) : Waiting s.m s.branch := by
  rw [Kept, if_pos hr] at h
  exact h

theorem Kept.served {s : Sched} (h : Kept s) (hr : s.runnable = false) : Served s.m := by
  rw [Kept, hr, if_neg (by simp)] at h
  exact h

theorem kept_start {m : Matrix} (h : m.Synced) : Kept (start m) := by
  show Served m
  constructor
  · intro pin hmux
    rw [← h.cur pin hmux]
    exact h.quiet pin
  · exact h.folded

/-- What the level patch needs of a pin not rewritten in this delta cycle, and of the enables. -/
theorem Kept.regReady {s : Sched} (h : Kept s)
    (hb : s.runnable = true → s.branch = .updategpioreg) :
    s.m.gpio.enable.applycs = s.m.gpio.enable ∧ ∀ pin, getmux pin = true →
      (s.m.function pin).Quiet → RegReady s.m.gpio pin (s.m.function pin).cur := by
  cases hr : s.runnable with
  | true =>
    have hw := h.waiting hr
    rw [hb hr] at hw
    exact ⟨hw.1, fun pin hmux hq => (hw.2 pin hmux).2.1 hq⟩
  | false =>
    have hs := h.served hr
    refine ⟨congrArg GpioDev.enable hs.folded, fun pin hmux hq => ?_⟩
    rw [← show (s.m.function pin).next = (s.m.function pin).cur from hq, hs.next pin hmux]
    exact regReady_selected s.m.gpio pin

/-- The same for the direction patch. -/
theorem Kept.oeReady {s : Sched} (h : Kept s)
    (hb : s.runnable = true → s.branch = .updategpiooe) :
    s.m.gpio.out.applycs = s.m.gpio.out ∧ ∀ pin, getmux pin = true →
      (s.m.function pin).Quiet → OeReady s.m.gpio pin (s.m.function pin).cur := by
  cases hr : s.runnable with
  | true =>
    have hw := h.waiting hr
    rw [hb hr] at hw
    exact ⟨hw.1, fun pin hmux hq => (hw.2 pin hmux).2.1 hq⟩
  | false =>
    have hs := h.served hr
    refine ⟨congrArg GpioDev.out hs.folded, fun pin hmux hq => ?_⟩
    rw [← show (s.m.function pin).next = (s.m.function pin).cur from hq, hs.next pin hmux]
    exact oeReady_selected s.m.gpio pin

/-- **After a call that is heard, `updateth` takes its branch.** -/
theorem branch_call {s : Sched} {c : Call} (h : Heard s c) (t : Nat) (w : GpioDev → GpioDev) :
    (s.call t w c).branch = c := by
  obtain ⟨hreg, hoe, _⟩ := h
  unfold branch call
  cases c with
  | updategpioreg => simp
  | updategpiooe => simp [hreg]
  | update => simp [hreg, hoe]

/-- A call that lands leaves its branch what it needs. -/
theorem Kept.call {s : Sched} (h : Kept s) {t : Nat} {w : GpioDev → GpioDev} {c : Call}
    (hheard : Heard s c) (hcon : Concerns w s.m.gpio c) (hfits : Fits s w c) :
    Kept (s.call t w c) := by
  show Waiting (s.call t w c).m (s.call t w c).branch
  rw [branch_call hheard]
  cases c with
  | updategpioreg =>
    obtain ⟨hen, hready⟩ := h.regReady hheard.2.2
    refine ⟨?_, fun pin hmux => ?_⟩
    · show (w s.m.gpio).enable.applycs = (w s.m.gpio).enable
      rw [hcon.1, hen]
    · obtain ⟨hlegal, hrewritten⟩ := hfits (by simp) pin hmux
      exact ⟨hlegal, fun hq => (hready pin hmux hq).congr hcon.2 hcon.1, hrewritten⟩
  | updategpiooe =>
    obtain ⟨hout, hready⟩ := h.oeReady hheard.2.2
    refine ⟨?_, fun pin hmux => ?_⟩
    · show (w s.m.gpio).out.applycs = (w s.m.gpio).out
      rw [hcon.1, hout]
    · obtain ⟨hlegal, hrewritten⟩ := hfits (by simp) pin hmux
      exact ⟨hlegal, fun hq => (hready pin hmux hq).congr hcon.2 hcon.1, hrewritten⟩
  | update => trivial

theorem Kept.endDelta {s : Sched} (h : Kept s) (hr : s.runnable = false) : Kept s.endDelta := by
  have hs := h.served hr
  rw [Kept, show s.endDelta.runnable = false from hr, if_neg (by simp)]
  exact ⟨fun pin hmux => hs.next pin hmux, hs.folded⟩

/-- **One step.** Every event that lands keeps the invariant. -/
theorem Kept.step {s : Sched} (h : Kept s) {e : Event} (hl : Lands s e) : Kept (s.step e) := by
  cases e with
  | call t w c =>
    show Kept (if s.asleep.contains t then s else s.call t w c)
    split
    · exact h
    next hawake =>
      rcases hl with hasleep | ⟨hheard, hcon, hfits⟩
      · exact absurd hasleep hawake
      · exact h.call hheard hcon hfits
  | serve =>
    show Kept (if s.runnable then s.serve else s)
    split
    next hr => exact served_updateth (h.waiting hr)
    · exact h
  | delta =>
    show Kept (if s.runnable then s else s.endDelta)
    split
    · exact h
    next hr => exact h.endDelta (by simpa using hr)
  | clock =>
    show Kept (if s.runnable then s else { s.endDelta with asleep := [] })
    split
    · exact h
    next hr => exact h.endDelta (by simpa using hr)

theorem Kept.reflects {s : Sched} (h : Kept s) (es : List Event) : Reflects es s := by
  intro hs pin hmux
  have hserved := h.served hs.idle
  rw [hserved.folded, ← hserved.next pin hmux]
  exact (hs.quiet pin).symm

/-! ## §5 — runs -/

/-- **No update is lost.** From a matrix that shows its registers, in every run of any number of
threads whose calls all land, whenever `updateth` has run and the signals have settled every output
multiplexer has the function a full update would select from the registers. -/
theorem no_update_lost {m : Matrix} (hm : m.Synced) (es : List Event)
    (h : Throughout Lands step (start m) es) : Always Reflects step [] (start m) es := by
  apply always_of_throughout (I := fun _ s => Kept s)
  · intro es s hs
    exact hs.reflects es
  · intro _ s e hs hl
    exact hs.step hl
  · exact kept_start hm
  · exact h

/-- The block after power-up, with pads of which only the functions matter here. -/
def powerUp : Matrix :=
  (Matrix.new fun _ => IoMux.new gpiomodeNone gpiomodeNone false (.func 0) [] [] 0).fullUpdate

/-- Two threads in one delta cycle: one enables pin 4, the other sets it, both ask for a full
update. -/
theorem no_update_lost_together :
    Always Reflects step [] (start powerUp)
      [.call 0 (fun d => { d with enable := { d.enable with w1ts := .single 4 } }) .update,
        .call 1 (fun d => { d with out := { d.out with w1ts := .single 4 } }) .update,
        .serve, .delta] := by
  apply no_update_lost (Matrix.synced_fullUpdate _)
  refine ⟨Or.inr ⟨⟨fun _ => rfl, fun _ => rfl, fun h => ?_⟩, trivial, fun h => absurd rfl h⟩,
    Or.inr ⟨⟨fun _ => rfl, fun _ => rfl, fun _ => rfl⟩, trivial, fun h => absurd rfl h⟩,
    trivial, trivial, trivial⟩
  cases h

/-- Two threads in one delta cycle: one sets pin 2, the other enables pin 4. Pin 4 stays released. -/
theorem no_update_lost_shadowed :
    ¬ Always Reflects step [] (start powerUp)
      [.call 0 (fun d => { d with out := { d.out with w1ts := .single 2 } }) .updategpioreg,
        .call 1 (fun d => { d with enable := { d.enable with w1ts := .single 4 } }) .updategpiooe,
        .serve, .delta] := by
  intro h
  have hpin := h.last ⟨rfl, rfl, rfl, rfl, fun _ => Signal.quiet_update _⟩ 4 rfl
  revert hpin
  decide

end Sched

end Espmod.Gpio
