/-
# Espmod.Pcnt.Filter — the glitch filter of the pulse counter

With the filter on, a change of a signal should be counted when the new level has been held for the filter
time, and a level that changes back before should leave no trace. `capture` does the first half: it
notifies an event that comes after the filter time. But a change back does not cancel it, as the branch for
the control inputs does, and `count` reads the level when the event comes. So after a glitch the old level
is counted as an edge; a signal that bounces is counted before it is steady; and of two events that come at
once only the first channel's is served.

A run is a sequence of APB cycles with the signals at each edge. It is compared with two `Debounce`s, whose
output changes are counted.
-/
import Espmod.Lib.Run
import Espmod.Lib.Debounce
import Espmod.Pcnt.Limits
import Espmod.Pcnt.Module

namespace Espmod.Pcnt

open Espmod.Lib

namespace PcntUnit

/-! ## §1 — APB cycles -/

/-- The signals at an APB edge, and which of the two threads runs first there. -/
structure ApbEdge where
  sig0 : Bool
  sig1 : Bool
  countFirst : Bool

/-- The input bus at an edge, with the control levels as they are. -/
def ApbEdge.bus (e : ApbEdge) (u : PcntUnit) : PcntBus := { u.bus with sigCh0 := e.sig0, sigCh1 := e.sig1 }

/-- What happens to the unit from one APB edge to the next: the signals change, the edge comes, the threads
that are due take their turns, and the delta cycle ends. -/
def ApbEdge.events (e : ApbEdge) (u : PcntUnit) : List PcntEvent :=
  [PcntEvent.delta (e.bus u), .advance u.apbPeriod] ++
    (if e.countFirst then [PcntEvent.count, .sample] else [PcntEvent.sample, .count]) ++
      [PcntEvent.delta (e.bus u)]

/-- An APB cycle. -/
def cycle (un : Nat) (u : PcntUnit) (e : ApbEdge) : PcntUnit := (e.events u).foldl (step un) u

/-! ## §2 — the specification -/

/-- An edge of a channel to `sig` is counted, in the direction that the configuration gives it. -/
def edgeCount (un : Nat) (u : PcntUnit) (c : ChannelFields) (sig ctl : Bool) (cnt : BitVec 16) :
    BitVec 16 :=
  if Counts un u.ctrl.cur then
    afterLimit u.conf0.cur u.conf2.cur (cnt + BitVec.ofInt 16 (c.increment u.conf0.cur sig ctl))
  else cnt

/-- An edge of a channel to `sig` counts nothing, by the modes or because the unit is stopped. -/
def Ignored (un : Nat) (u : PcntUnit) (c : ChannelFields) (sig ctl : Bool) : Prop :=
  ¬ Counts un u.ctrl.cur ∨ c.increment u.conf0.cur sig ctl = 0

instance (un : Nat) (u : PcntUnit) (c : ChannelFields) (sig ctl : Bool) :
    Decidable (Ignored un u c sig ctl) :=
  inferInstanceAs (Decidable (_ ∨ _))

/-- The unit beside two ideal filters and the count of what they let through. -/
structure Filtered where
  u : PcntUnit
  ch0 : Debounce Bool
  ch1 : Debounce Bool
  count : BitVec 16

namespace Filtered

/-- The signals have long been at their levels. -/
def init (u : PcntUnit) : Filtered := ⟨u, .init u.bus.sigCh0, .init u.bus.sigCh1, u.cnt.cur⟩

def step (un : Nat) (w : Filtered) (e : ApbEdge) : Filtered :=
  let T := w.u.filterThres
  let count :=
    if w.ch0.Passes T e.sig0 then edgeCount un w.u channel0 e.sig0 w.u.bus.ctrlCh0 w.count else w.count
  { u := w.u.cycle un e
    ch0 := w.ch0.next T e.sig0
    ch1 := w.ch1.next T e.sig1
    count :=
      if w.ch1.Passes T e.sig1 then edgeCount un w.u channel1 e.sig1 w.u.bus.ctrlCh1 count else count }

/-- A filter lets nothing through of a level that changes back before it has been held for `T` cycles, nor
of the way back. -/
theorem short_level {T : Nat} {d : Debounce Bool} {v : Bool} (hout : d.level = d.out) (hv : v ≠ d.level)
    {n : Nat} (hn : n < T) :
    ((List.replicate (n + 1) v ++ [d.level]).foldl (fun d v => d.next T v) d).out = d.out := by
  rw [List.foldl_append, Debounce.next_held hv]
  show ((⟨v, n, if T ≤ n then v else d.out⟩ : Debounce Bool).next T d.level).out = d.out
  rw [if_neg (Nat.not_le.mpr hn), Debounce.out_next]
  split
  · exact hout
  · rfl

/-- A level that is held longer comes through, at its `T`th cycle and no other. -/
theorem long_level {T : Nat} {d : Debounce Bool} {v : Bool} (hv : v ≠ d.level) (n : Nat) :
    ((List.replicate (n + 1) v).foldl (fun d v => d.next T v) d).out = if T ≤ n then v else d.out := by
  rw [Debounce.next_held hv]

/-- The event of the first channel comes at the next edge. -/
def Fires0 (w : Filtered) : Prop := w.u.filtered0.due = some (w.u.now + w.u.apbPeriod)

/-- So does that of the second. -/
def Fires1 (w : Filtered) : Prop := w.u.filtered1.due = some (w.u.now + w.u.apbPeriod)

instance (w : Filtered) : Decidable w.Fires0 := inferInstanceAs (Decidable (_ = _))

instance (w : Filtered) : Decidable w.Fires1 := inferInstanceAs (Decidable (_ = _))

/-- When an event comes, the level that is read has just been held for the filter time and is a new one,
or edges to it count nothing; and the second channel's event does not come together with the first's. -/
def Clean (un : Nat) (w : Filtered) (e : ApbEdge) : Prop :=
  (w.Fires0 → w.ch0.Passes w.u.filterThres e.sig0 ∨ Ignored un w.u channel0 e.sig0 w.u.bus.ctrlCh0) ∧
    (w.Fires1 → w.ch1.Passes w.u.filterThres e.sig1 ∧ ¬ w.Fires0 ∨
      Ignored un w.u channel1 e.sig1 w.u.bus.ctrlCh1)

instance (un : Nat) (w : Filtered) (e : ApbEdge) : Decidable (w.Clean un e) :=
  inferInstanceAs (Decidable (_ ∧ _))

end Filtered

/-! ## §3 — the parts of a cycle -/

/-- A unit between two edges, with the filter on. -/
structure Resting (u : PcntUnit) : Prop where
  quiet : u.Quiet
  unarmed : u.armed = false
  idle : u.counting = false
  unreset : u.reset = false
  sampled : u.lastlvl = u.bus
  fctrl : u.fctrl0 ≤ u.now ∧ u.fctrl1 ≤ u.now
  untriggered : u.filtered0.triggered = false ∧ u.filtered1.triggered = false
  filtering : 0 < u.filterThres

variable {un : Nat} {u : PcntUnit}

/-- The end of a delta cycle in which no register was written and no event happened. -/
theorem commit_quiet (hq : u.Quiet) (htrig : u.filtered0.triggered = false ∧ u.filtered1.triggered = false)
    (hreset : u.reset = false) (lvl : PcntBus) :
    u.commit lvl = { u with bus := lvl, armed := u.armed || decide (lvl ≠ u.bus) } := by
  obtain ⟨h0, h1, h2, hctrl, hcnt, hraw⟩ := hq
  have hclear : ∀ e : ScEvent, e.triggered = false → e.clear = e := by
    intro e he
    show (⟨e.due, false⟩ : ScEvent) = e
    rw [← he]
  unfold commit
  rw [h0.update_eq, h1.update_eq, h2.update_eq, hctrl.update_eq, hcnt.update_eq, hraw.update_eq,
    hclear _ htrig.1, hclear _ htrig.2, ← hreset]

/-- Time passes to the next edge, before which no event comes. -/
theorem advance_edge {P : Nat} (h0 : ∀ t, u.filtered0.due = some t → u.now + P ≤ t)
    (h1 : ∀ t, u.filtered1.due = some t → u.now + P ≤ t) :
    u.advance P = { u with
      now := u.now + P
      filtered0 := u.filtered0.fire (u.now + P)
      filtered1 := u.filtered1.fire (u.now + P)
      counting := decide (u.filtered0.due = some (u.now + P) ∨ u.filtered1.due = some (u.now + P)) } := by
  have hmin : (u.filtered0.due.toList ++ u.filtered1.due.toList).foldl min (u.now + P) = u.now + P := by
    cases hd0 : u.filtered0.due with
    | none =>
      cases hd1 : u.filtered1.due with
      | none => rfl
      | some t1 => exact Nat.min_eq_left (h1 t1 hd1)
    | some t0 =>
      have hle0 := Nat.min_eq_left (h0 t0 hd0)
      cases hd1 : u.filtered1.due with
      | none => exact hle0
      | some t1 =>
        show min (min (u.now + P) t0) t1 = u.now + P
        rw [hle0]
        exact Nat.min_eq_left (h1 t1 hd1)
  unfold advance
  rw [hmin]

/-- What a sample does to the event of a signal. -/
def heard (un : Nat) (u : PcntUnit) (changed : Bool) (e : ScEvent) : ScEvent :=
  if changed ∧ inReset u.ctrl.cur un = false then e.notifyAt (u.now + u.apbPeriod * u.filterThres) else e

/-- **A sample**, with the filter on and the control levels as they were. -/
theorem sample_eq (hT : 0 < u.filterThres)
    (hctrl : u.bus.ctrlCh0 = u.lastlvl.ctrlCh0 ∧ u.bus.ctrlCh1 = u.lastlvl.ctrlCh1)
    (harmed : u.armed = false → u.lastlvl = u.bus) :
    u.step un .sample = { u with
      lastlvl := u.bus
      armed := false
      filtered0 := u.heard un (u.bus.sigCh0 != u.lastlvl.sigCh0) u.filtered0
      filtered1 := u.heard un (u.bus.sigCh1 != u.lastlvl.sigCh1) u.filtered1 } := by
  show (if u.armed then u.capture un else u) = _
  cases hdue : u.armed with
  | false =>
    have hlast := harmed hdue
    have hsame : ∀ e : ScEvent, u.heard un false e = e := fun e => if_neg fun h => nomatch h.1
    rw [if_neg Bool.false_ne_true, hlast, bne_self_eq_false, bne_self_eq_false, hsame, hsame, ← hdue]
    exact congrArg (fun l => ({ u with lastlvl := l } : PcntUnit)) hlast
  | true =>
    have hkeep : captureCtrl u.bus u = u := by
      unfold captureCtrl
      rw [if_neg (not_not.mpr hctrl.1), if_neg (not_not.mpr hctrl.2)]
    have hann : ∀ c e, inReset u.ctrl.cur un = false → u.announced c e = u.heard un c e := by
      intro c e hr
      unfold announced heard
      rw [if_pos hT]
      simp [hr]
    rw [if_pos rfl]
    unfold capture
    dsimp only
    rw [hkeep, captureSig_eq]
    cases hr : inReset u.ctrl.cur un with
    | true =>
      have hnone : ∀ c e, u.heard un c e = e := by
        intro c e
        refine if_neg fun h => ?_
        rw [hr] at h
        cases h.2
      rw [if_pos rfl, hnone, hnone]
    | false =>
      have hon : decide (u.filterThres = 0) = false := decide_eq_false (Nat.ne_of_gt hT)
      rw [if_neg Bool.false_ne_true, hann _ _ hr, hann _ _ hr, hon, Bool.false_and, Bool.or_false]

/-- `docnt`, on a counter that no write waits for. -/
theorem docnt_edge (hq : u.cnt.Quiet) (sig ctl : Bool) {ch : Nat} {c : ChannelFields}
    (hc : (if ch = 0 then channel0 else channel1) = c) :
    ∃ r, docnt un sig ctl ch u =
      { u with intRaw := r, cnt := u.cnt.write (edgeCount un u c sig ctl u.cnt.cur) } := by
  unfold edgeCount
  by_cases hgo : Counts un u.ctrl.cur
  · rw [docnt_counts hgo sig ctl ch rfl, if_pos hgo, hc]
    exact ⟨_, rfl⟩
  · refine ⟨u.intRaw, ?_⟩
    have hsame : u.cnt.write u.cnt.cur = u.cnt := by
      show (⟨u.cnt.cur, u.cnt.cur⟩ : Signal _) = u.cnt
      rw [show u.cnt.cur = u.cnt.next from hq.symm]
      exact hq.update_eq
    rw [docnt_stopped hgo, if_neg hgo, hsame]

/-- The count after a turn of `count` that is due: the first channel is served if its event is there. -/
def served (un : Nat) (u : PcntUnit) : BitVec 16 :=
  if u.filtered0.triggered then edgeCount un u channel0 u.bus.sigCh0 u.bus.ctrlCh0 u.cnt.cur
  else edgeCount un u channel1 u.bus.sigCh1 u.bus.ctrlCh1 u.cnt.cur

/-- **A turn of `count`**, with no control level still to come. -/
theorem count_edge (hq : u.cnt.Quiet) (hreset : u.reset = false)
    (hf : u.fctrl0 ≤ u.now ∧ u.fctrl1 ≤ u.now) :
    ∃ r, u.step un .count = { u with
      counting := false
      intRaw := r
      cnt := if u.counting then u.cnt.write (u.served un) else u.cnt } := by
  show ∃ r, (if u.counting then u.count un else u) = _
  cases hdue : u.counting with
  | false =>
    refine ⟨u.intRaw, ?_⟩
    rw [if_neg Bool.false_ne_true, if_neg Bool.false_ne_true, ← hdue]
  | true =>
    rw [if_pos rfl, if_pos rfl]
    have hno : ¬ u.reset = true := by
      rw [hreset]
      exact Bool.false_ne_true
    unfold count served
    dsimp only
    rw [if_neg hno]
    by_cases htrig : u.filtered0.triggered = true
    · obtain ⟨r, hr⟩ := @docnt_edge un { u with counting := false } hq u.bus.sigCh0 u.bus.ctrlCh0
        0 channel0 rfl
      refine ⟨r, ?_⟩
      rw [if_pos htrig, if_pos htrig, if_neg (Nat.not_lt.mpr hf.1), hr]
      rfl
    · obtain ⟨r, hr⟩ := @docnt_edge un { u with counting := false } hq u.bus.sigCh1 u.bus.ctrlCh1
        1 channel1 rfl
      refine ⟨r, ?_⟩
      rw [if_neg htrig, if_neg htrig, if_neg (Nat.not_lt.mpr hf.2), hr]
      rfl

/-! ## §4 — a cycle -/

/-- The event of a signal that goes to `sig`, after the next edge: it comes there, or is still to come, and
a change of the signal announces it. -/
def nextDue (un : Nat) (u : PcntUnit) (changed : Bool) (e : ScEvent) : Option Nat :=
  (heard un { u with now := u.now + u.apbPeriod } changed (e.fire (u.now + u.apbPeriod))).due

/-- The unit at the next edge, before the threads take their turns. -/
def atEdge (u : PcntUnit) (e : ApbEdge) : PcntUnit :=
  { u with
    bus := e.bus u
    armed := decide (e.bus u ≠ u.bus)
    now := u.now + u.apbPeriod
    filtered0 := u.filtered0.fire (u.now + u.apbPeriod)
    filtered1 := u.filtered1.fire (u.now + u.apbPeriod)
    counting := decide (u.filtered0.due = some (u.now + u.apbPeriod) ∨
      u.filtered1.due = some (u.now + u.apbPeriod)) }

theorem Resting.toEdge (h : Resting u) (h0 : ∀ t, u.filtered0.due = some t → u.now + u.apbPeriod ≤ t)
    (h1 : ∀ t, u.filtered1.due = some t → u.now + u.apbPeriod ≤ t) (e : ApbEdge) :
    (u.step un (.delta (e.bus u))).step un (.advance u.apbPeriod) = u.atEdge e := by
  have hidle : ¬ u.counting = true := by
    rw [h.idle]
    exact Bool.false_ne_true
  have hdelta : u.step un (.delta (e.bus u)) =
      { u with bus := e.bus u, armed := decide (e.bus u ≠ u.bus) } := by
    show (if u.counting then u else u.commit (e.bus u)) = _
    rw [if_neg hidle, commit_quiet h.quiet h.untriggered h.unreset, h.unarmed, Bool.false_or]
  rw [hdelta]
  show (if u.counting then _ else (commit (e.bus u)
    { u with bus := e.bus u, armed := decide (e.bus u ≠ u.bus) }).advance u.apbPeriod) = _
  have hsame : commit (e.bus u) { u with bus := e.bus u, armed := decide (e.bus u ≠ u.bus) } =
      { u with bus := e.bus u, armed := decide (e.bus u ≠ u.bus) } := by
    rw [commit_quiet (u := { u with bus := e.bus u, armed := decide (e.bus u ≠ u.bus) }) h.quiet
      h.untriggered h.unreset]
    simp
  rw [if_neg hidle, hsame, @advance_edge { u with bus := e.bus u, armed := decide (e.bus u ≠ u.bus) } _
    h0 h1]
  rfl

/-- The unit after the turns of both threads at the edge. -/
def afterTurns (un : Nat) (u : PcntUnit) (e : ApbEdge) (r : Signal Bool) : PcntUnit :=
  let v := u.atEdge e
  { v with
    lastlvl := e.bus u
    armed := false
    filtered0 := v.heard un (e.sig0 != u.bus.sigCh0) v.filtered0
    filtered1 := v.heard un (e.sig1 != u.bus.sigCh1) v.filtered1
    counting := false
    intRaw := r
    cnt := if v.counting then u.cnt.write (v.served un) else u.cnt }

/-- A sample at the edge, also if the counter has changed since. -/
theorem Resting.sampleEdge (h : Resting u) (e : ApbEdge) (c : Bool) (r : Signal Bool)
    (cnt : Signal (BitVec 16)) :
    ({ u.atEdge e with counting := c, intRaw := r, cnt := cnt } : PcntUnit).step un .sample =
      { u.atEdge e with
        counting := c, intRaw := r, cnt := cnt
        lastlvl := e.bus u
        armed := false
        filtered0 := (u.atEdge e).heard un (e.sig0 != u.bus.sigCh0) (u.atEdge e).filtered0
        filtered1 := (u.atEdge e).heard un (e.sig1 != u.bus.sigCh1) (u.atEdge e).filtered1 } := by
  have harmed : decide (e.bus u ≠ u.bus) = false → u.lastlvl = e.bus u := by
    intro hsame
    rw [h.sampled]
    exact (not_not.mp (of_decide_eq_false hsame)).symm
  have hctrl : u.bus.ctrlCh0 = u.lastlvl.ctrlCh0 ∧ u.bus.ctrlCh1 = u.lastlvl.ctrlCh1 := by
    rw [h.sampled]
    exact ⟨rfl, rfl⟩
  have hsample := @sample_eq un { u.atEdge e with counting := c, intRaw := r, cnt := cnt } h.filtering
    hctrl harmed
  rw [show ({ u.atEdge e with counting := c, intRaw := r, cnt := cnt } : PcntUnit).lastlvl = u.bus from
    h.sampled] at hsample
  exact hsample

/-- A turn of `count` at the edge, also if a sample has been taken. -/
theorem Resting.countEdge (h : Resting u) (e : ApbEdge) (lvl : PcntBus) (a : Bool) {e0 e1 : ScEvent}
    (htrig : e0.triggered = (u.atEdge e).filtered0.triggered) :
    ∃ r, ({ u.atEdge e with lastlvl := lvl, armed := a, filtered0 := e0, filtered1 := e1 } :
        PcntUnit).step un .count =
      { u.atEdge e with
        lastlvl := lvl, armed := a, filtered0 := e0, filtered1 := e1
        counting := false
        intRaw := r
        cnt := if (u.atEdge e).counting then u.cnt.write ((u.atEdge e).served un) else u.cnt } := by
  obtain ⟨_, _, _, _, hcnt, _⟩ := h.quiet
  have hf : u.fctrl0 ≤ u.now + u.apbPeriod ∧ u.fctrl1 ≤ u.now + u.apbPeriod :=
    ⟨Nat.le_add_right_of_le h.fctrl.1, Nat.le_add_right_of_le h.fctrl.2⟩
  obtain ⟨r, hr⟩ := @count_edge un
    { u.atEdge e with lastlvl := lvl, armed := a, filtered0 := e0, filtered1 := e1 } hcnt h.unreset hf
  refine ⟨r, ?_⟩
  have hserved : served un
      { u.atEdge e with lastlvl := lvl, armed := a, filtered0 := e0, filtered1 := e1 } =
        (u.atEdge e).served un := by
    unfold served
    dsimp only
    rw [htrig]
    rfl
  rw [hr, hserved]
  rfl

theorem heard_triggered (changed : Bool) (e : ScEvent) :
    (u.heard un changed e).triggered = e.triggered := by
  unfold heard ScEvent.notifyAt
  split
  · split
    · split <;> rfl
    · rfl
  · rfl

/-- The two orders of the threads come to the same. -/
theorem Resting.turns (h : Resting u) (e : ApbEdge) :
    ∃ r, (if e.countFirst then [PcntEvent.count, .sample] else [.sample, .count]).foldl (step un)
      (u.atEdge e) = u.afterTurns un e r := by
  -- `count` reads nothing that the sample writes, so either may go first
  cases e.countFirst with
  | true =>
    obtain ⟨r, hr⟩ := @Resting.countEdge un u h e (u.atEdge e).lastlvl (u.atEdge e).armed
      (u.atEdge e).filtered0 (u.atEdge e).filtered1 rfl
    refine ⟨r, ?_⟩
    show (((u.atEdge e).step un .count).step un .sample) = _
    rw [show (u.atEdge e).step un .count = _ from hr]
    exact h.sampleEdge e false r _
  | false =>
    obtain ⟨r, hr⟩ := @Resting.countEdge un u h e (e.bus u) false
      ((u.atEdge e).heard un (e.sig0 != u.bus.sigCh0) (u.atEdge e).filtered0)
      ((u.atEdge e).heard un (e.sig1 != u.bus.sigCh1) (u.atEdge e).filtered1) (heard_triggered _ _)
    refine ⟨r, ?_⟩
    show (((u.atEdge e).step un .sample).step un .count) = _
    rw [show (u.atEdge e).step un .sample = _ from
      h.sampleEdge e (u.atEdge e).counting (u.atEdge e).intRaw (u.atEdge e).cnt]
    exact hr

/-- **A cycle** of a resting unit: the counter follows the events that come, the first channel's first. -/
theorem Resting.cycle_eq (h : Resting u)
    (h0 : ∀ t, u.filtered0.due = some t → u.now + u.apbPeriod ≤ t)
    (h1 : ∀ t, u.filtered1.due = some t → u.now + u.apbPeriod ≤ t) (e : ApbEdge) :
    ∃ r, u.cycle un e = { u with
      bus := e.bus u
      lastlvl := e.bus u
      now := u.now + u.apbPeriod
      filtered0 := ⟨u.nextDue un (e.sig0 != u.bus.sigCh0) u.filtered0, false⟩
      filtered1 := ⟨u.nextDue un (e.sig1 != u.bus.sigCh1) u.filtered1, false⟩
      intRaw := .init r
      cnt := .init (if u.filtered0.due = some (u.now + u.apbPeriod)
        then edgeCount un u channel0 e.sig0 u.bus.ctrlCh0 u.cnt.cur
        else if u.filtered1.due = some (u.now + u.apbPeriod)
        then edgeCount un u channel1 e.sig1 u.bus.ctrlCh1 u.cnt.cur else u.cnt.cur) } := by
  obtain ⟨r, hr⟩ := @Resting.turns un u h e
  obtain ⟨hc0, hc1, hc2, hctrl, hcnt, _⟩ := h.quiet
  refine ⟨r.next, ?_⟩
  have hturns : u.cycle un e = (u.afterTurns un e r).step un (.delta (e.bus u)) := by
    unfold cycle ApbEdge.events
    simp only [List.foldl_append, List.foldl_cons, List.foldl_nil]
    rw [h.toEdge h0 h1, hr]
  -- the first channel's event is there exactly when it comes at this edge
  have htrig : (u.atEdge e).filtered0.triggered =
      decide (u.filtered0.due = some (u.now + u.apbPeriod)) := by
    show (u.filtered0.fire (u.now + u.apbPeriod)).triggered = _
    unfold ScEvent.fire
    by_cases hfire : u.filtered0.due = some (u.now + u.apbPeriod)
    · rw [if_pos hfire, decide_eq_true hfire]
    · rw [if_neg hfire, decide_eq_false hfire, h.untriggered.1]
  have hcount : (if (u.atEdge e).counting then u.cnt.write ((u.atEdge e).served un) else u.cnt).update =
      .init (if u.filtered0.due = some (u.now + u.apbPeriod)
        then edgeCount un u channel0 e.sig0 u.bus.ctrlCh0 u.cnt.cur
        else if u.filtered1.due = some (u.now + u.apbPeriod)
        then edgeCount un u channel1 e.sig1 u.bus.ctrlCh1 u.cnt.cur else u.cnt.cur) := by
    have hrest : u.cnt.update = .init u.cnt.cur := by
      rw [hcnt.update_eq]
      show u.cnt = ⟨u.cnt.cur, u.cnt.cur⟩
      rw [show u.cnt.cur = u.cnt.next from hcnt.symm]
      exact hcnt.update_eq.symm
    show (if decide (u.filtered0.due = some (u.now + u.apbPeriod) ∨
      u.filtered1.due = some (u.now + u.apbPeriod)) then _ else u.cnt).update = _
    unfold served
    rw [htrig]
    by_cases hfire0 : u.filtered0.due = some (u.now + u.apbPeriod)
    · simp only [hfire0, true_or, decide_true, if_true]
      rfl
    · by_cases hfire1 : u.filtered1.due = some (u.now + u.apbPeriod)
      · simp only [hfire0, hfire1, or_true, decide_true, decide_false, if_true, if_false,
          Bool.false_eq_true]
        rfl
      · simp only [hfire0, hfire1, or_false, decide_false, if_false, Bool.false_eq_true, hrest]
  rw [hturns]
  show (u.afterTurns un e r).commit (e.bus u) = _
  unfold commit afterTurns
  dsimp only
  rw [hcount, show (u.atEdge e).conf0.update = u.conf0 from hc0.update_eq,
    show (u.atEdge e).conf1.update = u.conf1 from hc1.update_eq,
    show (u.atEdge e).conf2.update = u.conf2 from hc2.update_eq,
    show (u.atEdge e).ctrl.update = u.ctrl from hctrl.update_eq]
  have harmed : (false || decide (e.bus u ≠ (u.atEdge e).bus)) = u.armed := by
    rw [h.unarmed, Bool.false_or]
    exact decide_eq_false (not_not.mpr rfl)
  rw [harmed, h.idle, h.unreset]
  rfl

/-! ## §5 — the event of a signal and its ideal filter -/

/-- The event of a signal, beside its filter: it comes at an edge, within the filter time, and for a level
that has not passed yet and is not ignored it comes before that level has been held too long. -/
structure Follows (T P now : Nat) (due : Option Nat) (d : Debounce Bool) (ign : Bool → Prop) : Prop where
  timed : ∀ t, due = some t → ∃ j, 1 ≤ j ∧ j ≤ T ∧ t = now + j * P
  held : d.out ≠ d.level → d.held < T
  pending : d.out ≠ d.level → ¬ ign d.level → ∃ j, 1 ≤ j ∧ j + d.held ≤ T ∧ due = some (now + j * P)

variable {T P now : Nat} {due : Option Nat} {d : Debounce Bool} {ign : Bool → Prop} {v : Bool}

theorem follows_init (v : Bool) : Follows T P now none (.init v) ign where
  timed _ h := nomatch h
  held h := absurd rfl h
  pending h := absurd rfl h

/-- No event comes before the next edge. -/
theorem Follows.le (h : Follows T P now due d ign) {t : Nat} (ht : due = some t) : now + P ≤ t := by
  obtain ⟨j, hj, _, rfl⟩ := h.timed t ht
  have hmul := Nat.mul_le_mul_right P hj
  omega

/-- A level that passes has its event. -/
theorem Follows.passes (h : Follows T P now due d ign) (hT : 0 < T) (hpass : d.Passes T v) :
    due = some (now + P) ∨ ign v := by
  obtain ⟨hheld, hout⟩ := Debounce.passes_iff.mp hpass
  by_cases hv : v = d.level
  · subst hv
    rw [Debounce.held_next, if_pos rfl] at hheld
    by_cases hign : ign d.level
    · exact Or.inr hign
    · obtain ⟨j, hj, hle, hdue⟩ := h.pending (Ne.symm hout) hign
      have hone : j = 1 := by omega
      rw [hone, Nat.one_mul] at hdue
      exact Or.inl hdue
  · rw [Debounce.held_next, if_neg hv] at hheld
    omega

/-- What is left of the event after the next edge. -/
def left (now P : Nat) (due : Option Nat) : Option Nat := if due = some (now + P) then none else due

theorem due_fire (e : ScEvent) : (e.fire (now + P)).due = left now P e.due := by
  unfold ScEvent.fire left
  split <;> rfl

/-- What is left comes at a later edge. -/
theorem Follows.left (h : Follows T P now due d ign) {t : Nat} (ht : left now P due = some t) :
    ∃ j, 1 ≤ j ∧ j + 1 ≤ T ∧ t = now + P + j * P ∧ due = some (now + (j + 1) * P) := by
  unfold PcntUnit.left at ht
  split at ht
  · cases ht
  · next hlater =>
    obtain ⟨j, hj, hjT, rfl⟩ := h.timed t ht
    cases j with
    | zero => omega
    | succ j =>
      refine ⟨j, ?_, hjT, ?_, ht⟩
      · by_contra hzero
        have hj0 : j = 0 := by omega
        subst hj0
        rw [Nat.zero_add, Nat.one_mul] at ht
        exact hlater ht
      · rw [Nat.succ_mul]
        omega

/-- The event after the next edge, at which a change announces it anew unless it is still to come. -/
def renewed (now P T : Nat) (due : Option Nat) : Option Nat :=
  match left now P due with
  | some t => some t
  | none => some (now + P + T * P)

theorem Follows.renewed (h : Follows T P now due d ign) (hT : 0 < T) :
    ∃ j, 1 ≤ j ∧ j ≤ T ∧ renewed now P T due = some (now + P + j * P) := by
  unfold PcntUnit.renewed
  cases hleft : PcntUnit.left now P due with
  | none => exact ⟨T, hT, Nat.le_refl T, rfl⟩
  | some t =>
    obtain ⟨j, hj, hjT, rfl, _⟩ := h.left hleft
    exact ⟨j, hj, by omega, rfl⟩

/-- **The next sample**, if an event that comes is one of a level that passes, or of one that is ignored:
a change announces an event, or is of no account. -/
theorem Follows.next (h : Follows T P now due d ign) (hT : 0 < T)
    (hok : due = some (now + P) → d.Passes T v ∨ ign v) {due' : Option Nat}
    (hkept : v = d.level → due' = PcntUnit.left now P due)
    (hchange : v ≠ d.level → due' = PcntUnit.renewed now P T due ∨
      (∀ v, ign v) ∧ due' = PcntUnit.left now P due) :
    Follows T P (now + P) due' (d.next T v) ign := by
  have hdue' : due' = PcntUnit.left now P due ∨ due' = PcntUnit.renewed now P T due := by
    by_cases hv : v = d.level
    · exact Or.inl (hkept hv)
    · rcases hchange hv with hr | ⟨_, hl⟩
      · exact Or.inr hr
      · exact Or.inl hl
  refine ⟨fun t ht => ?_, fun hout => Debounce.held_lt hout, fun hout hign => ?_⟩
  · rcases hdue' with rfl | rfl
    · obtain ⟨j, hj, hjT, hjt, _⟩ := h.left ht
      exact ⟨j, hj, by omega, hjt⟩
    · obtain ⟨j, hj, hjT, hjt⟩ := h.renewed hT
      rw [hjt] at ht
      exact ⟨j, hj, hjT, (Option.some.inj ht).symm⟩
  · have hnot : ¬ d.Passes T v := by
      intro hpass
      obtain ⟨hheld, _⟩ := Debounce.passes_iff.mp hpass
      exact hout (if_pos hheld)
    have hsame : (d.next T v).out = d.out := not_not.mp hnot
    rw [Debounce.level_next] at hout hign
    by_cases hv : v = d.level
    -- the level has been held one cycle more, and its event is one cycle nearer
    · have hheld : (d.next T v).held = d.held + 1 := if_pos hv
      rw [hsame, hv] at hout
      obtain ⟨j, hj, hle, hdue⟩ := h.pending hout (hv ▸ hign)
      have hlater : ¬ due = some (now + P) := fun hfire => (hok hfire).elim hnot hign
      have hleft : PcntUnit.left now P due = some (now + j * P) := by
        rw [PcntUnit.left, if_neg hlater, hdue]
      obtain ⟨k, hk, _, hkt, hkdue⟩ := h.left hleft
      refine ⟨k, hk, ?_, ?_⟩
      · have hjk : now + j * P = now + P + k * P := hkt
        rw [hheld]
        by_contra hgt
        have hjk' : j ≤ k := by omega
        -- otherwise the event comes no later than one that is later than it
        have hmul := Nat.mul_le_mul_right P hjk'
        have hP : P = 0 := by omega
        rw [hdue, hP, Nat.mul_zero] at hlater
        exact hlater rfl
      · rw [hkept hv, hleft, hkt]
    · have hheld : (d.next T v).held = 0 := if_neg hv
      rcases hchange hv with hr | ⟨hall, _⟩
      · obtain ⟨j, hj, hjT, hjt⟩ := h.renewed hT
        refine ⟨j, hj, ?_, hr.trans hjt⟩
        rw [hheld]
        exact hjT
      · exact absurd (hall v) hign

/-! ## §6 — counting what passes -/

theorem afterLimit_idem (conf0 conf2 : BitVec 32) (nc : BitVec 16) :
    afterLimit conf0 conf2 (afterLimit conf0 conf2 nc) = afterLimit conf0 conf2 nc := by
  unfold afterLimit
  by_cases hlim : atLimit conf0 conf2 nc
  · rw [if_pos hlim]
    exact ite_self 0
  · rw [if_neg hlim, if_neg hlim]

variable {c : ChannelFields} {sig ctl : Bool} {cnt : BitVec 16}

/-- An edge that is ignored counts nothing. -/
theorem edgeCount_ignored (hign : Ignored un u c sig ctl)
    (hin : afterLimit u.conf0.cur u.conf2.cur cnt = cnt) : edgeCount un u c sig ctl cnt = cnt := by
  unfold edgeCount
  split
  · next hgo =>
    have hzero : c.increment u.conf0.cur sig ctl = 0 := hign.resolve_left (not_not.mpr hgo)
    rw [hzero]
    show afterLimit u.conf0.cur u.conf2.cur (cnt + 0#16) = cnt
    rw [BitVec.add_zero, hin]
  · rfl

/-- A count stays within the limits. -/
theorem edgeCount_inside (hin : afterLimit u.conf0.cur u.conf2.cur cnt = cnt) :
    afterLimit u.conf0.cur u.conf2.cur (edgeCount un u c sig ctl cnt) = edgeCount un u c sig ctl cnt := by
  unfold edgeCount
  split
  · exact afterLimit_idem _ _ _
  · exact hin

/-- A unit in reset counts nothing. -/
theorem ignored_inReset (hr : inReset u.ctrl.cur un = true) : Ignored un u c sig ctl := by
  refine Or.inl fun hgo => ?_
  unfold Counts at hgo
  rw [BitVec.shiftLeft_or_distrib, BitVec.and_or_distrib_left] at hgo
  have hzero := (BitVec.or_eq_zero_iff.mp hgo).1
  unfold inReset at hr
  rw [hzero] at hr
  cases hr

/-- The event after an edge without a change, or with one that a unit in reset does not hear. -/
theorem nextDue_unheard {changed : Bool} (hno : changed = false ∨ inReset u.ctrl.cur un = true)
    (e : ScEvent) : u.nextDue un changed e = left u.now u.apbPeriod e.due := by
  unfold nextDue heard
  rw [if_neg fun hboth => ?_, due_fire]
  rcases hno with hsame | hr
  · rw [hsame] at hboth
    cases hboth.1
  · exact absurd (hr.symm.trans hboth.2) (by decide)

/-- The event after an edge with a change. -/
theorem nextDue_changed {e : ScEvent} (h : Follows u.filterThres u.apbPeriod u.now e.due d ign)
    (hr : inReset u.ctrl.cur un = false) :
    u.nextDue un true e = renewed u.now u.apbPeriod u.filterThres e.due := by
  unfold nextDue heard renewed
  rw [if_pos ⟨rfl, hr⟩]
  unfold ScEvent.notifyAt
  rw [due_fire]
  cases hleft : left u.now u.apbPeriod e.due with
  | none =>
    show some (u.now + u.apbPeriod + u.apbPeriod * u.filterThres) = _
    rw [Nat.mul_comm]
  | some t =>
    obtain ⟨j, _, hjT, rfl, _⟩ := h.left hleft
    have hmul : j * u.apbPeriod ≤ u.apbPeriod * u.filterThres := by
      rw [Nat.mul_comm]
      exact Nat.mul_le_mul_left _ (by omega)
    have hearlier := Nat.add_le_add_left hmul (u.now + u.apbPeriod)
    exact (congrArg ScEvent.due (if_pos hearlier)).trans ((due_fire e).trans hleft)

/-- The event of a signal and its filter go on together. -/
theorem Follows.cycle {e : ScEvent} {old : Bool}
    (h : Follows u.filterThres u.apbPeriod u.now e.due d (fun v => Ignored un u c v ctl))
    (hT : 0 < u.filterThres) (hold : d.level = old)
    (hok : e.due = some (u.now + u.apbPeriod) → d.Passes u.filterThres v ∨ Ignored un u c v ctl) :
    Follows u.filterThres u.apbPeriod (u.now + u.apbPeriod) (u.nextDue un (v != old) e)
      (d.next u.filterThres v) (fun v => Ignored un u c v ctl) := by
  refine h.next hT hok (fun hv => ?_) (fun hv => ?_)
  · have hno : (v != old) = false := by rw [hv, hold, bne_self_eq_false]
    exact nextDue_unheard (Or.inl hno) e
  · have hyes : (v != old) = true := bne_iff_ne.mpr (hold ▸ hv)
    rw [hyes]
    cases hr : inReset u.ctrl.cur un with
    | false => exact Or.inl (nextDue_changed h hr)
    | true => exact Or.inr ⟨fun v => ignored_inReset hr, nextDue_unheard (Or.inr hr) e⟩

namespace Filtered

/-- What a run keeps: the unit rests between edges, the events follow the filters, and the counts agree. -/
structure Keeping (un : Nat) (w : Filtered) : Prop where
  resting : w.u.Resting
  level : w.ch0.level = w.u.bus.sigCh0 ∧ w.ch1.level = w.u.bus.sigCh1
  ch0 : Follows w.u.filterThres w.u.apbPeriod w.u.now w.u.filtered0.due w.ch0
    (fun v => Ignored un w.u channel0 v w.u.bus.ctrlCh0)
  ch1 : Follows w.u.filterThres w.u.apbPeriod w.u.now w.u.filtered1.due w.ch1
    (fun v => Ignored un w.u channel1 v w.u.bus.ctrlCh1)
  inside : afterLimit w.u.conf0.cur w.u.conf2.cur w.count = w.count
  count : w.u.cnt.cur = w.count

/-- A unit that rests, with no event to come and its count within the limits. -/
structure AtRest (u : PcntUnit) : Prop where
  resting : u.Resting
  none0 : u.filtered0.due = none
  none1 : u.filtered1.due = none
  inside : afterLimit u.conf0.cur u.conf2.cur u.cnt.cur = u.cnt.cur

theorem keeping_init (h : AtRest u) : Keeping un (init u) where
  resting := h.resting
  level := ⟨rfl, rfl⟩
  ch0 := by
    show Follows _ _ _ u.filtered0.due _ _
    rw [h.none0]
    exact follows_init _
  ch1 := by
    show Follows _ _ _ u.filtered1.due _ _
    rw [h.none1]
    exact follows_init _
  inside := h.inside
  count := rfl

variable {w : Filtered} {e : ApbEdge}

/-- **The counts agree after a clean edge.** -/
theorem Keeping.counts (h : w.Keeping un) (hok : w.Clean un e) :
    (if w.Fires0 then edgeCount un w.u channel0 e.sig0 w.u.bus.ctrlCh0 w.u.cnt.cur
      else if w.Fires1 then edgeCount un w.u channel1 e.sig1 w.u.bus.ctrlCh1 w.u.cnt.cur
      else w.u.cnt.cur) = (w.step un e).count := by
  have hT := h.resting.filtering
  show _ = if w.ch1.Passes w.u.filterThres e.sig1 then _ else _
  rw [h.count]
  -- the first channel: what comes and what passes count the same
  have hfirst : (if w.ch0.Passes w.u.filterThres e.sig0
      then edgeCount un w.u channel0 e.sig0 w.u.bus.ctrlCh0 w.count else w.count) =
      if w.Fires0 then edgeCount un w.u channel0 e.sig0 w.u.bus.ctrlCh0 w.count else w.count := by
    by_cases hign : Ignored un w.u channel0 e.sig0 w.u.bus.ctrlCh0
    · rw [edgeCount_ignored hign h.inside, ite_self, ite_self]
    · have hiff : w.ch0.Passes w.u.filterThres e.sig0 ↔ w.Fires0 :=
        ⟨fun hp => (h.ch0.passes hT hp).resolve_right hign, fun hf => (hok.1 hf).resolve_right hign⟩
      simp only [hiff]
  rw [hfirst]
  by_cases hign : Ignored un w.u channel1 e.sig1 w.u.bus.ctrlCh1
  · have hinside : afterLimit w.u.conf0.cur w.u.conf2.cur (if w.Fires0
        then edgeCount un w.u channel0 e.sig0 w.u.bus.ctrlCh0 w.count else w.count) = if w.Fires0
        then edgeCount un w.u channel0 e.sig0 w.u.bus.ctrlCh0 w.count else w.count := by
      split
      · exact edgeCount_inside h.inside
      · exact h.inside
    rw [edgeCount_ignored hign hinside, edgeCount_ignored hign h.inside, ite_self, ite_self]
  · have hiff : w.ch1.Passes w.u.filterThres e.sig1 ↔ w.Fires1 ∧ ¬ w.Fires0 := by
      constructor
      · intro hp
        have hfire := (h.ch1.passes hT hp).resolve_right hign
        exact ⟨hfire, ((hok.2 hfire).resolve_right hign).2⟩
      · intro hf
        exact ((hok.2 hf.1).resolve_right hign).1
    by_cases hf0 : w.Fires0
    · simp only [hiff, hf0, not_true_eq_false, and_false, if_true, if_false]
    · simp only [hiff, hf0, not_false_eq_true, and_true, if_false]

/-- **One cycle** with a clean edge. -/
theorem Keeping.step (h : w.Keeping un) (hok : w.Clean un e) : Keeping un (w.step un e) := by
  have hT := h.resting.filtering
  have hcounts := h.counts hok
  obtain ⟨r, hr⟩ := @Resting.cycle_eq un w.u h.resting (fun _ => h.ch0.le) (fun _ => h.ch1.le) e
  have hu : (w.step un e).u = _ := hr
  have hok1 : w.u.filtered1.due = some (w.u.now + w.u.apbPeriod) →
      w.ch1.Passes w.u.filterThres e.sig1 ∨ Ignored un w.u channel1 e.sig1 w.u.bus.ctrlCh1 :=
    fun hfire => (hok.2 hfire).imp_left And.left
  have hcnt : (w.step un e).u.cnt = .init (w.step un e).count := by
    rw [hu, ← hcounts]
    rfl
  obtain ⟨hq0, hq1, hq2, hqctrl, _, _⟩ := h.resting.quiet
  refine ⟨?_, ?_, ?_, ?_, ?_, ?_⟩
  · rw [hu]
    exact ⟨⟨hq0, hq1, hq2, hqctrl, rfl, rfl⟩, h.resting.unarmed, h.resting.idle, h.resting.unreset, rfl,
      ⟨Nat.le_add_right_of_le h.resting.fctrl.1, Nat.le_add_right_of_le h.resting.fctrl.2⟩, ⟨rfl, rfl⟩, hT⟩
  · rw [hu]
    exact ⟨rfl, rfl⟩
  · rw [hu]
    exact h.ch0.cycle hT h.level.1 hok.1
  · rw [hu]
    exact h.ch1.cycle hT h.level.2 hok1
  · rw [hu]
    show afterLimit w.u.conf0.cur w.u.conf2.cur (w.step un e).count = _
    rw [← hcounts]
    split
    · exact edgeCount_inside (h.count ▸ h.inside)
    · split
      · exact edgeCount_inside (h.count ▸ h.inside)
      · exact h.count ▸ h.inside
  · rw [hcnt]
    rfl

/-! ## §7 — runs -/

/-- **Glitches are filtered out and steady levels are counted once** as long as every event comes for a
level that has just been held for the filter time: for every history of the two signals, any order of the
threads, any configuration with the filter on, and any start at rest. -/
theorem glitches_filtered (un : Nat) (u : PcntUnit) (h : AtRest u) (es : List ApbEdge)
    (hclean : Throughout (Clean un) (step un) (init u) es) :
    Always (fun _ w => w.u.cnt.cur = w.count) (step un) [] (init u) es := by
  refine always_of_throughout (I := fun _ (w : Filtered) => w.Keeping un) ?_ ?_ es [] _ (keeping_init h)
    hclean
  · intro _ w hw
    exact hw.count
  · intro _ w e hw hok
    exact hw.step hok

/-- A unit that counts rising edges up and falling ones down, with a filter of two cycles. -/
def upDown : PcntUnit := { new 12 with conf0 := .init 0x00060402 }

theorem atRest_upDown : AtRest upDown where
  resting := ⟨by decide, rfl, rfl, rfl, rfl, by decide, ⟨rfl, rfl⟩, by decide⟩
  none0 := rfl
  none1 := rfl
  inside := by decide

/-- A pulse of three cycles, and then the signal stays low. -/
def longPulse : List ApbEdge :=
  [true, true, true, false, false, false].map fun sig => ⟨sig, false, true⟩

/-- A pulse of one. -/
def shortPulse : List ApbEdge := [true, false, false].map fun sig => ⟨sig, false, true⟩

/-- A long pulse is counted up and down again. -/
theorem longPulse_counted :
    Always (fun _ w => w.u.cnt.cur = w.count) (step 0) [] (init upDown) longPulse :=
  glitches_filtered 0 upDown atRest_upDown longPulse (by decide)

/-- A glitch counts one down. -/
theorem shortPulse_counted :
    let w := shortPulse.foldl (step 0) (init upDown)
    w.count = 0 ∧ w.u.cnt.cur = -1 ∧
      ¬ Always (fun _ w => w.u.cnt.cur = w.count) (step 0) [] (init upDown) shortPulse := by
  refine ⟨by decide, by decide, fun h => ?_⟩
  exact absurd h.last (by decide)

end Filtered

end PcntUnit

end Espmod.Pcnt
