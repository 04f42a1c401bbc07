/-
# Espmod.Pcnt.Channels — what one channel shows of the other

The two channels of a unit have each a signal and a control input. Two runs that differ in the control
input of the channel that never pulses should count alike. `view` hides what belongs to that channel:
its control levels, the time of its control filter, and whether `capture` is waiting for the APB edge,
as a change of the hidden input wakes it too. Every step then acts on the view alone, except for one
test: the branch of `capture` that records a change of the second control input asks whether the
*first* channel's time is still to come, and clears that one. `Crosses` is this test.
-/
import Espmod.Pcnt.Limits

namespace Espmod.Pcnt

open Espmod.Lib

/-! ## §1 — channels -/

inductive Channel where
  | ch0
  | ch1
deriving Repr, DecidableEq

/-- The levels a channel sees: its own inputs and the signal of the other. -/
def PcntBus.only (b : PcntBus) : Channel → PcntBus
  | .ch0 => { b with ctrlCh1 := false }
  | .ch1 => { b with ctrlCh0 := false }

/-- The signal input of the other channel. -/
def PcntBus.otherSig (b : PcntBus) : Channel → Bool
  | .ch0 => b.sigCh1
  | .ch1 => b.sigCh0

namespace PcntUnit

/-- **What a channel shows** of its unit. -/
def view (c : Channel) (u : PcntUnit) : PcntUnit :=
  { u with
    bus := u.bus.only c
    lastlvl := u.lastlvl.only c
    armed := false
    fctrl0 := if c = .ch0 then u.fctrl0 else 0
    fctrl1 := if c = .ch1 then u.fctrl1 else 0 }

/-- What it shows of an event. -/
def PcntEvent.view (c : Channel) : PcntEvent → PcntEvent
  | .delta lvl => .delta (lvl.only c)
  | e => e

/-- The other channel's signal has the level `σ` after the event. -/
def PcntEvent.Holds (c : Channel) (σ : Bool) : PcntEvent → Prop
  | .delta lvl => lvl.otherSig c = σ
  | _ => True

instance (c : Channel) (σ : Bool) : (e : PcntEvent) → Decidable (e.Holds c σ)
  | .delta lvl => inferInstanceAs (Decidable (lvl.otherSig c = σ))
  | .sample | .count | .updateth _ _ _ _ | .advance _ => inferInstanceAs (Decidable True)

/-- The event of a channel. -/
def ownEvent (u : PcntUnit) : Channel → ScEvent
  | .ch0 => u.filtered0
  | .ch1 => u.filtered1

def otherEvent (u : PcntUnit) : Channel → ScEvent
  | .ch0 => u.filtered1
  | .ch1 => u.filtered0

/-! ## §2 — the test that crosses -/

/-- The first channel's time once its own change has been recorded. -/
def fctrl0Recorded (u : PcntUnit) : Nat :=
  if u.bus.ctrlCh0 ≠ u.lastlvl.ctrlCh0 then (if u.now ≤ u.fctrl0 then 0 else u.fctrlAfter)
  else u.fctrl0

/-- A sample finds a change of the second control input while the time of the first is to come. -/
def Crosses (u : PcntUnit) : Prop :=
  u.armed = true ∧ u.bus.ctrlCh1 ≠ u.lastlvl.ctrlCh1 ∧ u.now ≤ u.fctrl0Recorded

instance (u : PcntUnit) : Decidable u.Crosses := inferInstanceAs (Decidable (_ ∧ _))

/-- The control part of a sample, by that test. -/
theorem captureCtrl_crosses {u : PcntUnit} (harmed : u.armed = true) :
    captureCtrl u.bus u = { u with
      fctrl0 := if u.Crosses then 0 else u.fctrl0Recorded
      fctrl1 := if u.bus.ctrlCh1 ≠ u.lastlvl.ctrlCh1 ∧ ¬ u.Crosses then u.fctrlAfter
        else u.fctrl1 } := by
  have hrecord : (if u.bus.ctrlCh0 ≠ u.lastlvl.ctrlCh0 then
      (if u.now ≤ u.fctrl0 then { u with fctrl0 := 0 } else { u with fctrl0 := u.fctrlAfter })
      else u : PcntUnit) = { u with fctrl0 := u.fctrl0Recorded } := by
    unfold fctrl0Recorded
    split
    · split <;> rfl
    · rfl
  unfold captureCtrl
  dsimp only
  rw [hrecord]
  by_cases hchange : u.bus.ctrlCh1 = u.lastlvl.ctrlCh1
  · have hno : ¬ u.Crosses := fun h => h.2.1 hchange
    simp [hchange, hno]
  · by_cases hcome : u.now ≤ u.fctrl0Recorded
    · have hyes : u.Crosses := ⟨harmed, hchange, hcome⟩
      simp [hchange, hcome, hyes]
    · have hno : ¬ u.Crosses := fun h => hcome h.2.2
      simp only [ne_eq, hchange, not_false_eq_true, if_true, hcome, if_false, hno, and_self]
      rfl

/-! ## §3 — steps of the view -/

/-- What holds of a unit whose other channel never pulses. -/
structure Silent (c : Channel) (σ : Bool) (u : PcntUnit) : Prop where
  bus : u.bus.otherSig c = σ
  last : u.lastlvl.otherSig c = σ
  quiet : u.otherEvent c = .quiet
  woken : u.counting = true → u.reset = true ∨ (u.ownEvent c).triggered = true
  sampled : u.armed = true ∨ u.bus = u.lastlvl

/-- A sample of the view, by the outcome of the test. -/
def ownSample (c : Channel) (un : Nat) (crosses : Bool) (v : PcntUnit) : PcntUnit :=
  match c with
  | .ch0 =>
    { captureSig un v.bus { v with fctrl0 := if crosses then 0 else v.fctrl0Recorded } with
      lastlvl := v.bus }
  | .ch1 =>
    { captureSig un v.bus { v with
        fctrl1 := if v.bus.ctrlCh1 ≠ v.lastlvl.ctrlCh1 ∧ ¬ crosses = true then v.fctrlAfter
          else v.fctrl1 } with
      lastlvl := v.bus }

variable {c : Channel} {σ : Bool} {un : Nat} {u : PcntUnit}

/-- The signal part of a sample does not look at control levels. -/
theorem view_captureSig (c : Channel) (un : Nat) (lvl : PcntBus) (u : PcntUnit) :
    view c (captureSig un lvl u) = captureSig un (lvl.only c) (view c u) := by
  rw [captureSig_eq, captureSig_eq]
  show _ = if inReset u.ctrl.cur un then _ else _
  cases c with
  | ch0 => split <;> rfl
  | ch1 => split <;> rfl

/-- `docnt` looks at no input. -/
theorem view_docnt (c : Channel) (un : Nat) (sig ctl : Bool) (ch : Nat) (u : PcntUnit) :
    view c (docnt un sig ctl ch u) = docnt un sig ctl ch (view c u) := by
  unfold docnt
  show view c (if _ then u else _) = if u.ctrl.cur &&& _ ≠ 0 then view c u else _
  split <;> rfl

/-- A sample that changes nothing. -/
theorem ownSample_same {v : PcntUnit} (h : v.bus = v.lastlvl) : ownSample c un false v = v := by
  have hsig : captureSig un v.lastlvl v = v := by
    rw [captureSig_eq]
    split
    · rfl
    · simp [announced]
  have hlast : ({ captureSig un v.bus v with lastlvl := v.bus } : PcntUnit) = v := by
    have hbus : captureSig un v.bus v = v := by
      rw [h]
      exact hsig
    rw [hbus]
    exact congrArg (fun lvl => ({ v with lastlvl := lvl } : PcntUnit)) h
  cases c with
  | ch0 =>
    have hrecord : v.fctrl0Recorded = v.fctrl0 := if_neg (not_not.mpr (by rw [h]))
    show ({ captureSig un v.bus { v with fctrl0 := v.fctrl0Recorded } with lastlvl := v.bus } :
      PcntUnit) = v
    rw [hrecord]
    exact hlast
  | ch1 =>
    have hsame : ¬ (v.bus.ctrlCh1 ≠ v.lastlvl.ctrlCh1 ∧ ¬ false = true) := by
      rw [h]
      simp
    unfold ownSample
    dsimp only
    rw [if_neg hsame]
    exact hlast

/-- **A sample** acts on the view by its own inputs and the test that crosses. -/
theorem view_sample (h : Silent c σ u) :
    view c (u.step un .sample) = ownSample c un (decide u.Crosses) (view c u) := by
  show view c (if u.armed then u.capture un else u) = _
  by_cases harmed : u.armed = true
  · rw [if_pos harmed]
    show view c { captureSig un u.bus (captureCtrl u.bus u) with lastlvl := u.bus, armed := false } = _
    have hview : ∀ w : PcntUnit, view c { w with lastlvl := u.bus, armed := false } =
        { view c w with lastlvl := u.bus.only c } := fun _ => rfl
    rw [hview, view_captureSig, captureCtrl_crosses harmed]
    cases c with
    | ch0 =>
      have hrecord : (view .ch0 u).fctrl0Recorded = u.fctrl0Recorded := rfl
      unfold ownSample
      rw [hrecord]
      simp only [decide_eq_true_eq]
      rfl
    | ch1 =>
      unfold ownSample
      simp only [decide_eq_true_eq]
      rfl
  · have hsame : u.bus = u.lastlvl := h.sampled.resolve_left harmed
    have hno : ¬ u.Crosses := fun hc => harmed hc.1
    rw [if_neg harmed, decide_eq_false hno, ownSample_same]
    show u.bus.only c = u.lastlvl.only c
    rw [hsame]

/-- **A turn of `count`** serves the channel that pulses, and looks at its inputs alone. -/
theorem view_count (h : Silent c σ u) :
    view c (u.step un .count) = { (view c u).step un .count with armed := false } := by
  show view c (if u.counting then u.count un else u) =
    { (if u.counting then (view c u).count un else view c u) with armed := false }
  by_cases hdue : u.counting = true
  · rw [if_pos hdue, if_pos hdue]
    by_cases hreset : u.reset = true
    · have hleft : u.count un = { u with counting := false, cnt := u.cnt.write 0 } := if_pos hreset
      have hright : (view c u).count un = { view c u with counting := false, cnt := u.cnt.write 0 } :=
        if_pos hreset
      rw [hleft, hright]
      rfl
    · have hown := (h.woken hdue).resolve_left hreset
      unfold count
      dsimp only
      cases c with
      | ch0 =>
        have hown' : u.filtered0.triggered = true := hown
        have hown'' : (view .ch0 u).filtered0.triggered = true := hown
        have hreset' : ¬ (view .ch0 u).reset = true := hreset
        rw [if_neg hreset, if_pos hown', if_neg hreset', if_pos hown'']
        show view .ch0 (docnt un _ _ 0 { u with counting := false }) =
          { docnt un _ _ 0 (view .ch0 { u with counting := false }) with armed := false }
        rw [← view_docnt]
        rfl
      | ch1 =>
        have hquiet : ¬ u.filtered0.triggered = true := by
          have hother : u.filtered0 = .quiet := h.quiet
          rw [hother]
          exact Bool.false_ne_true
        have hquiet' : ¬ (view .ch1 u).filtered0.triggered = true := hquiet
        have hreset' : ¬ (view .ch1 u).reset = true := hreset
        rw [if_neg hreset, if_neg hquiet, if_neg hreset', if_neg hquiet']
        show view .ch1 (docnt un _ _ 1 { u with counting := false }) =
          { docnt un _ _ 1 (view .ch1 { u with counting := false }) with armed := false }
        rw [← view_docnt]
        rfl
  · rw [if_neg hdue, if_neg hdue]
    rfl

/-- A step of the view. -/
def ownStep (c : Channel) (un : Nat) (crosses : Bool) (v : PcntUnit) : PcntEvent → PcntUnit
  | .sample => ownSample c un crosses v
  | e => { v.step un e with armed := false }

/-- **Every step** acts on the view, by what the channel sees of the event and the test that
crosses. -/
theorem view_step (h : Silent c σ u) (e : PcntEvent) :
    view c (u.step un e) = ownStep c un (decide u.Crosses) (view c u) (e.view c) := by
  cases e with
  | sample => exact view_sample h
  | count => exact view_count h
  | updateth conf0 conf1 conf2 ctrl => rfl
  | delta lvl =>
    show view c (if u.counting then u else u.commit lvl) =
      { (if u.counting then view c u else (view c u).commit (lvl.only c)) with armed := false }
    split <;> rfl
  | advance d =>
    show view c (if u.counting then u else (u.commit u.bus).advance d) =
      { (if u.counting then view c u else ((view c u).commit (view c u).bus).advance d) with
        armed := false }
    split <;> rfl

/-! ## §4 — the other channel stays silent -/

/-- An event that is there stays there, whatever a sample announces. -/
theorem announced_kept {e : ScEvent} (he : e.triggered = true) (changed : Bool) :
    (u.announced changed e).triggered = true := by
  unfold announced ScEvent.notifyAt
  split
  · split
    · split
      · split <;> exact he
      · exact he
    · rfl
  · exact he

/-- With the filter off, a change is announced at once. -/
theorem announced_now (hoff : u.filterThres = 0) (e : ScEvent) :
    (u.announced true e).triggered = true := by
  unfold announced
  rw [if_pos rfl, if_neg (by omega)]
  rfl

/-- A woken `count` after a sample finds its own channel's event. -/
theorem woken_sample (own : ScEvent) (changed : Bool)
    (hown : u.counting = true → u.reset = true ∨ own.triggered = true)
    (hwoken : (u.counting || (decide (u.filterThres = 0) && changed)) = true) :
    u.reset = true ∨ (u.announced changed own).triggered = true := by
  rcases Bool.or_eq_true _ _ ▸ hwoken with hcount | hnow
  · rcases hown hcount with hreset | htrig
    · exact Or.inl hreset
    · exact Or.inr (announced_kept htrig changed)
  · obtain ⟨hoff, hchanged⟩ := Bool.and_eq_true _ _ ▸ hnow
    rw [hchanged]
    exact Or.inr (announced_now (of_decide_eq_true hoff) own)

theorem Silent.sample (h : Silent c σ u) : Silent c σ (u.step un .sample) := by
  show Silent c σ (if u.armed then u.capture un else u)
  split
  -- the other signal has not changed since the last sample, so that it notifies nothing
  · have hsame : u.bus.otherSig c = u.lastlvl.otherSig c := h.bus.trans h.last.symm
    obtain ⟨f₀, f₁, hcap⟩ := capture_frame un u
    rw [hcap]
    refine ⟨h.bus, h.bus, ?_, ?_, Or.inr rfl⟩
    · cases c with
      | ch0 =>
        have hsame' : u.bus.sigCh1 = u.lastlvl.sigCh1 := hsame
        have hother : u.filtered1 = .quiet := h.quiet
        simp [otherEvent, announced, hsame', hother]
      | ch1 =>
        have hsame' : u.bus.sigCh0 = u.lastlvl.sigCh0 := hsame
        have hother : u.filtered0 = .quiet := h.quiet
        simp [otherEvent, announced, hsame', hother]
    · cases hreset : inReset u.ctrl.cur un with
      | true =>
        cases c with
        | ch0 => exact h.woken
        | ch1 => exact h.woken
      | false =>
        cases c with
        | ch0 =>
          have hsame' : u.bus.sigCh1 = u.lastlvl.sigCh1 := hsame
          intro hwoken
          refine woken_sample (u := u) u.filtered0 (u.bus.sigCh0 != u.lastlvl.sigCh0) h.woken ?_
          simpa [hsame'] using hwoken
        | ch1 =>
          have hsame' : u.bus.sigCh0 = u.lastlvl.sigCh0 := hsame
          intro hwoken
          refine woken_sample (u := u) u.filtered1 (u.bus.sigCh1 != u.lastlvl.sigCh1) h.woken ?_
          simpa [hsame'] using hwoken
  · exact h

/-- A turn of `count` leaves everything but the counter and the interrupt. -/
theorem count_frame (un : Nat) (u : PcntUnit) :
    ∃ r n, u.step un .count = { u with counting := false, intRaw := r, cnt := n } := by
  by_cases hp : Pulsed un u
  · exact ⟨_, _, step_pulsed hp⟩
  · exact ⟨u.intRaw, _, step_unpulsed hp⟩

/-- The end of a delta cycle clears the other channel's event. -/
theorem otherEvent_commit (lvl : PcntBus) (c : Channel) :
    (u.commit lvl).otherEvent c = (u.otherEvent c).clear := by
  cases c with
  | ch0 => rfl
  | ch1 => rfl

/-- Time comes to the next notification of either channel. -/
theorem events_advance (d : Nat) (u : PcntUnit) (c : Channel) : ∃ t,
    (u.advance d).ownEvent c = (u.ownEvent c).fire t ∧
      (u.advance d).otherEvent c = (u.otherEvent c).fire t ∧
      ((u.advance d).counting = true →
        (u.ownEvent c).due = some t ∨ (u.otherEvent c).due = some t) := by
  refine ⟨(u.filtered0.due.toList ++ u.filtered1.due.toList).foldl min (u.now + d), ?_⟩
  cases c with
  | ch0 => exact ⟨rfl, rfl, fun h => of_decide_eq_true h⟩
  | ch1 => exact ⟨rfl, rfl, fun h => (of_decide_eq_true h).symm⟩

theorem Silent.updateth (h : Silent c σ u) (conf0 conf1 conf2 ctrl : BitVec 32) :
    Silent c σ (u.step un (.updateth conf0 conf1 conf2 ctrl)) := by
  refine ⟨h.bus, h.last, ?_, ?_, h.sampled⟩
  · cases c with
    | ch0 => exact h.quiet
    | ch1 => exact h.quiet
  · intro hwoken
    have hwoken' : (u.counting || inReset ctrl un) = true := hwoken
    show (u.reset || inReset ctrl un) = true ∨ _
    rcases Bool.or_eq_true _ _ ▸ hwoken' with hcount | hreset
    · rcases h.woken hcount with hbefore | htrig
      · rw [hbefore]
        exact Or.inl rfl
      · cases c with
        | ch0 => exact Or.inr htrig
        | ch1 => exact Or.inr htrig
    · rw [hreset, Bool.or_true]
      exact Or.inl rfl

theorem Silent.delta (h : Silent c σ u) {lvl : PcntBus} (hlvl : lvl.otherSig c = σ) :
    Silent c σ (u.step un (.delta lvl)) := by
  show Silent c σ (if u.counting then u else u.commit lvl)
  split
  · exact h
  next hidle =>
    refine ⟨hlvl, h.last, ?_, fun hwoken => absurd hwoken hidle, ?_⟩
    -- the quiet event stays quiet when the delta cycle ends
    · rw [otherEvent_commit, h.quiet]
      rfl
    · show (u.armed || decide (lvl ≠ u.bus)) = true ∨ lvl = u.lastlvl
      rcases h.sampled with harmed | hbus
      · rw [harmed]
        exact Or.inl rfl
      · by_cases hsame : lvl = u.bus
        · exact Or.inr (hsame.trans hbus)
        · rw [decide_eq_true hsame, Bool.or_true]
          exact Or.inl rfl

/-- When time passes, only the channel's own notification can be due. -/
theorem Silent.advance (h : Silent c σ u) (d : Nat) : Silent c σ (u.step un (.advance d)) := by
  show Silent c σ (if u.counting then u else (u.commit u.bus).advance d)
  split
  · exact h
  · obtain ⟨t, hown, hother, hdue⟩ := events_advance d (u.commit u.bus) c
    rw [otherEvent_commit, h.quiet] at hother hdue
    refine ⟨h.bus, h.last, ?_, ?_, ?_⟩
    · rw [hother]
      rfl
    -- a wake-up is due to the channel's own event, since the other one has no notification
    · intro hwoken
      have hnot : ¬ ScEvent.quiet.clear.due = some t := fun hno => nomatch hno
      have htime := (hdue hwoken).resolve_right hnot
      refine Or.inr ?_
      rw [hown]
      unfold ScEvent.fire
      rw [if_pos htime]
    · show (u.armed || decide (u.bus ≠ u.bus)) = true ∨ u.bus = u.lastlvl
      rcases h.sampled with harmed | hbus
      · rw [harmed]
        exact Or.inl rfl
      · exact Or.inr hbus

/-- **The other channel stays silent** while its signal stays as it is. -/
theorem Silent.step (h : Silent c σ u) {e : PcntEvent} (he : e.Holds c σ) :
    Silent c σ (u.step un e) := by
  cases e with
  | sample => exact h.sample
  | count =>
    obtain ⟨r, n, hcount⟩ := count_frame un u
    rw [hcount]
    refine ⟨h.bus, h.last, ?_, fun hno => absurd hno Bool.false_ne_true, h.sampled⟩
    cases c with
    | ch0 => exact h.quiet
    | ch1 => exact h.quiet
  | updateth conf0 conf1 conf2 ctrl => exact h.updateth conf0 conf1 conf2 ctrl
  | delta lvl => exact h.delta he
  | advance d => exact h.advance d

/-! ## §5 — two runs -/

/-- Both units take their steps. -/
def both (un : Nat) (s : PcntUnit × PcntUnit) (p : PcntEvent × PcntEvent) : PcntUnit × PcntUnit :=
  (s.1.step un p.1, s.2.step un p.2)

/-- The two events are the same for the channel, and neither pulses the other one. -/
def SameFor (c : Channel) (σ : Bool) (p : PcntEvent × PcntEvent) : Prop :=
  p.1.view c = p.2.view c ∧ p.1.Holds c σ ∧ p.2.Holds c σ

instance (c : Channel) (σ : Bool) (p : PcntEvent × PcntEvent) : Decidable (SameFor c σ p) :=
  inferInstanceAs (Decidable (_ ∧ _))

/-- **The condition on a step**: in a sample, the test that crosses comes out the same in both runs. -/
def CrossesAlike (s : PcntUnit × PcntUnit) : PcntEvent × PcntEvent → Prop
  | (.sample, _) => s.1.Crosses ↔ s.2.Crosses
  | _ => True

instance (s : PcntUnit × PcntUnit) (p : PcntEvent × PcntEvent) : Decidable (CrossesAlike s p) := by
  unfold CrossesAlike
  split <;> infer_instance

/-- The two counters have the same value. -/
def CountAlike (s : PcntUnit × PcntUnit) : Prop := s.1.cnt.cur = s.2.cnt.cur

instance (s : PcntUnit × PcntUnit) : Decidable (CountAlike s) := inferInstanceAs (Decidable (_ = _))

/-- What holds along two such runs: both look the same to the channel. -/
structure Alike (c : Channel) (σ : Bool) (s : PcntUnit × PcntUnit) : Prop where
  view : s.1.view c = s.2.view c
  fst : Silent c σ s.1
  snd : Silent c σ s.2

theorem Alike.step {s : PcntUnit × PcntUnit} (h : Alike c σ s) {p : PcntEvent × PcntEvent}
    (hp : SameFor c σ p) (hok : CrossesAlike s p) : Alike c σ (both un s p) := by
  obtain ⟨a, b⟩ := s
  obtain ⟨e, e'⟩ := p
  obtain ⟨hsame, hfst, hsnd⟩ := hp
  refine ⟨?_, h.fst.step hfst, h.snd.step hsnd⟩
  show (a.step un e).view c = (b.step un e').view c
  have hview : a.view c = b.view c := h.view
  have hevent : e.view c = e'.view c := hsame
  rw [view_step h.fst, view_step h.snd, hview, hevent]
  cases e with
  | sample =>
    have htest : decide a.Crosses = decide b.Crosses := decide_eq_decide.mpr hok
    rw [htest]
  | count => cases e' <;> first | rfl | cases hevent
  | updateth conf0 conf1 conf2 ctrl => cases e' <;> first | rfl | cases hevent
  | delta lvl => cases e' <;> first | rfl | cases hevent
  | advance d => cases e' <;> first | rfl | cases hevent

/-- **Channels are independent**, as far as they are. Two runs from one state have the same events for
one channel, whatever the control input of the other does and however the filter is set; the signal of
the other never changes. If in every sample the test that crosses comes out the same in both, the
counters have the same value at every point. -/
theorem channels_independent (c : Channel) (h : Silent c σ u) (ps : List (PcntEvent × PcntEvent))
    (hsame : ∀ p ∈ ps, SameFor c σ p) (hok : Throughout CrossesAlike (both un) (u, u) ps) :
    Always (fun _ s => CountAlike s) (both un) [] (u, u) ps := by
  have hrun : Throughout (fun s p => SameFor c σ p ∧ CrossesAlike s p) (both un) (u, u) ps := by
    refine throughout_and ?_ hok
    exact (throughout_forall ps (u, u)).mpr hsame
  refine always_of_throughout (I := fun _ s => Alike c σ s) ?_ ?_ ps [] (u, u) ⟨rfl, h, h⟩ hrun
  · intro _ s halike
    have hcnt : (s.1.view c).cnt = (s.2.view c).cnt := congrArg PcntUnit.cnt halike.view
    exact congrArg Signal.cur hcnt
  · intro _ s p halike hp
    exact halike.step hp.1 hp.2

/-- The inputs change away from the APB edges, and `capture`, when it waits for one, takes its turn
there. -/
def Clocked (u : PcntUnit) : PcntEvent → Prop
  | .sample => u.armed = true → u.now % u.apbPeriod = 0
  | .delta lvl => lvl ≠ u.bus → u.now % u.apbPeriod ≠ 0
  | .advance d => u.armed = true →
    u.now % u.apbPeriod ≠ 0 ∧ d ≤ u.apbPeriod - u.now % u.apbPeriod
  | _ => True

instance (u : PcntUnit) : (e : PcntEvent) → Decidable (Clocked u e)
  | .sample => inferInstanceAs (Decidable (_ → _))
  | .delta _ => inferInstanceAs (Decidable (_ → _))
  | .advance _ => inferInstanceAs (Decidable (_ → _))
  | .count | .updateth _ _ _ _ => inferInstanceAs (Decidable True)

/-- A unit with a filter of two periods whose channels count rising edges at a high control level. -/
def filteredUnit : PcntUnit := { new 12 with conf0 := .init 0x84840402 }

theorem silent_filteredUnit (c : Channel) : Silent c false filteredUnit := by
  cases c <;> exact ⟨rfl, rfl, rfl, fun hno => absurd hno (by decide), Or.inr rfl⟩

/-- The second channel pulses and its control input rises later; that of the first one rises with the
pulse in one of the two runs. -/
theorem channels_independent_apart :
    let run := fun x : Bool =>
      [.advance 1, .delta ⟨false, true, x, false⟩, .advance 11, .sample, .advance 24, .count,
        .delta ⟨false, true, x, false⟩, .advance 1, .delta ⟨false, false, x, true⟩, .advance 11,
        .sample, .advance 24, .count, .delta ⟨false, false, x, true⟩]
    Always (fun _ s => CountAlike s) (both 0) [] (filteredUnit, filteredUnit)
      ((run true).zip (run false)) :=
  channels_independent .ch1 (silent_filteredUnit .ch1) _ (by decide) (by decide)

/-- Two clocked runs, for either channel, that differ in the control input of the other alone, and in
the counter at the end: that input changes while the filter time of the first channel is to come. -/
theorem channels_dependent :
    (let run := fun x : Bool =>
      [.advance 1, .delta ⟨false, true, x, false⟩, .advance 11, .sample, .advance 1,
        .delta ⟨false, true, x, true⟩, .advance 11, .sample, .advance 12, .count,
        .delta ⟨false, true, x, true⟩]
    Throughout Clocked (PcntUnit.step 0) filteredUnit (run true) ∧
      Throughout Clocked (PcntUnit.step 0) filteredUnit (run false) ∧
      (∀ p ∈ (run true).zip (run false), SameFor .ch1 false p) ∧
      ¬ Always (fun _ s => CountAlike s) (both 0) [] (filteredUnit, filteredUnit)
        ((run true).zip (run false))) ∧
    (let run := fun x : Bool =>
      [.advance 1, .delta ⟨true, false, false, false⟩, .advance 11, .sample, .advance 1,
        .delta ⟨true, false, true, x⟩, .advance 11, .sample, .advance 12, .count,
        .delta ⟨true, false, true, x⟩]
    Throughout Clocked (PcntUnit.step 0) filteredUnit (run true) ∧
      Throughout Clocked (PcntUnit.step 0) filteredUnit (run false) ∧
      (∀ p ∈ (run true).zip (run false), SameFor .ch0 false p) ∧
      ¬ Always (fun _ s => CountAlike s) (both 0) [] (filteredUnit, filteredUnit)
        ((run true).zip (run false))) := by
  refine ⟨⟨by decide, by decide, by decide, fun h => ?_⟩, by decide, by decide, by decide, fun h => ?_⟩
  · have hlast := h.last
    revert hlast
    decide
  · have hlast := h.last
    revert hlast
    decide

end PcntUnit

end Espmod.Pcnt
