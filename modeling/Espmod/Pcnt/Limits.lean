/-
# Espmod.Pcnt.Limits — the counter between its limits

With both limit comparators on, `docnt` starts again at zero as soon as the new count is at a limit.
So a counter that starts at zero stays strictly between them, whatever else is configured and whatever
counts, pauses and resets come; and as the count is tested before it leaves the limits by more than
one, the 16 bits never wrap.
-/
import Espmod.Pcnt.Counting
import Mathlib.Algebra.Group.Int.Defs
import Mathlib.Algebra.Group.Nat.Defs

namespace Espmod.Pcnt

open Espmod.Lib

namespace PcntUnit

/-! ## §1 — the configuration -/

/-- Both limit comparators are on, with the limits `L` and `H`. -/
structure LimitConf (L H : Int) (conf0 conf2 : BitVec 32) : Prop where
  lowOn : rdfield conf0 pcntThrLLimEn ≠ 0
  highOn : rdfield conf0 pcntThrHLimEn ≠ 0
  low : (BitVec.ofNat 16 (rdfield conf2 pcntCntLLim)).toInt = L
  high : (BitVec.ofNat 16 (rdfield conf2 pcntCntHLim)).toInt = H

/-- The events of a run in which the limits stay as they are. Modes, thresholds, filter, pauses and
resets are free. -/
def Limited (L H : Int) : PcntEvent → Prop
  | .updateth conf0 _ conf2 _ => LimitConf L H conf0 conf2
  | _ => True

variable {un : Nat} {L H : Int}

theorem LimitConf.atLimit_iff {conf0 conf2 : BitVec 32} (h : LimitConf L H conf0 conf2)
    (nc : BitVec 16) : atLimit conf0 conf2 nc ↔ nc.toInt ≤ L ∨ H ≤ nc.toInt := by
  unfold atLimit
  rw [BitVec.sle_iff_toInt_le, BitVec.sle_iff_toInt_le, h.low, h.high]
  constructor
  · rintro (⟨_, hle⟩ | ⟨_, hge⟩)
    · exact Or.inl hle
    · exact Or.inr hge
  · rintro (hle | hge)
    · exact Or.inl ⟨h.lowOn, hle⟩
    · exact Or.inr ⟨h.highOn, hge⟩

/-- Limits are 16-bit numbers. -/
theorem LimitConf.bounds {conf0 conf2 : BitVec 32} (h : LimitConf L H conf0 conf2) :
    -2 ^ 15 ≤ L ∧ H < 2 ^ 15 := by
  rw [← h.low, ← h.high]
  exact ⟨BitVec.le_toInt _, BitVec.toInt_lt⟩

/-- An edge counts at most one, either way. -/
theorem prescribed_small (mode ctl : Nat) : -1 ≤ prescribed mode ctl ∧ prescribed mode ctl ≤ 1 := by
  unfold prescribed edgeStep
  split_ifs <;> decide

/-- **No wrap**: from strictly between two 16-bit numbers, one step stays a 16-bit number. -/
theorem toInt_step {cnt : BitVec 16} {d : Int} (hd : -1 ≤ d ∧ d ≤ 1) (hlow : -2 ^ 15 < cnt.toInt)
    (hhigh : cnt.toInt < 2 ^ 15 - 1) : (cnt + BitVec.ofInt 16 d).toInt = cnt.toInt + d := by
  rw [BitVec.toInt_add, BitVec.toInt_ofInt]
  have hbmod : d.bmod (2 ^ 16) = d := by
    apply Int.bmod_eq_of_le <;> omega
  rw [hbmod]
  apply Int.bmod_eq_of_le <;> omega

/-! ## §2 — turns of the threads -/

/-- A turn of `count` counts: it is due, no reset has been announced, and the unit is not stopped. -/
def Pulsed (un : Nat) (u : PcntUnit) : Prop :=
  u.counting = true ∧ u.reset = false ∧ Counts un u.ctrl.cur

instance (un : Nat) (u : PcntUnit) : Decidable (Pulsed un u) := inferInstanceAs (Decidable (_ ∧ _))

variable {u : PcntUnit}

theorem step_pulsed (h : Pulsed un u) :
    u.step un .count =
      { u with
        counting := false
        intRaw := if compares u.conf0.cur u.conf1.cur u.conf2.cur u.unreset then u.intRaw.write true
          else u.intRaw
        cnt := u.cnt.write (afterLimit u.conf0.cur u.conf2.cur u.unreset) } :=
  (if_pos h.1).trans (count_counts h.2.1 h.2.2)

/-- A turn that does not count clears the counter in a reset, and otherwise does nothing. -/
theorem step_unpulsed (h : ¬ Pulsed un u) :
    u.step un .count = { u with
      counting := false
      cnt := if u.counting = true ∧ u.reset = true then u.cnt.write 0 else u.cnt } := by
  show (if u.counting then u.count un else u) = _
  by_cases hdue : u.counting = true
  · rw [if_pos hdue]
    by_cases hreset : u.reset = true
    · rw [if_pos ⟨hdue, hreset⟩]
      exact if_pos hreset
    · have hstop : ¬ Counts un u.ctrl.cur := fun hgo => h ⟨hdue, Bool.eq_false_iff.mpr hreset, hgo⟩
      have hkeep : ¬ (u.counting = true ∧ u.reset = true) := fun hboth => hreset hboth.2
      rw [if_neg hkeep]
      unfold count
      dsimp only
      rw [if_neg hreset]
      split
      · exact docnt_stopped (u := { u with counting := false }) hstop _ _ 0
      · exact docnt_stopped (u := { u with counting := false }) hstop _ _ 1
  · have hidle : u.counting = false := Bool.eq_false_iff.mpr hdue
    have hkeep : ¬ (u.counting = true ∧ u.reset = true) := fun hboth => hdue hboth.1
    rw [if_neg hdue, if_neg hkeep, ← hidle]

/-- The event of a signal after a sample: with the filter on it is to come, else it is there. -/
def announced (u : PcntUnit) (changed : Bool) (e : ScEvent) : ScEvent :=
  if changed then
    (if 0 < u.filterThres then e.notifyAt (u.now + u.apbPeriod * u.filterThres) else e.notify)
  else e

/-- **The signal part of a sample**, outside a reset, announces the events of both signals. -/
theorem captureSig_eq (un : Nat) (lvl : PcntBus) (u : PcntUnit) :
    captureSig un lvl u = if inReset u.ctrl.cur un then u else
      { u with
        filtered0 := u.announced (lvl.sigCh0 != u.lastlvl.sigCh0) u.filtered0
        filtered1 := u.announced (lvl.sigCh1 != u.lastlvl.sigCh1) u.filtered1
        counting := u.counting || (decide (u.filterThres = 0) &&
          (lvl.sigCh0 != u.lastlvl.sigCh0 || lvl.sigCh1 != u.lastlvl.sigCh1)) } := by
  unfold captureSig announced
  split
  · rfl
  · have hsame : ∀ e c,
        ({ u with filtered0 := e, counting := c } : PcntUnit).filterThres = u.filterThres :=
      fun _ _ => rfl
    by_cases hthres : 0 < u.filterThres
    · by_cases h0 : lvl.sigCh0 = u.lastlvl.sigCh0 <;> by_cases h1 : lvl.sigCh1 = u.lastlvl.sigCh1 <;>
        simp [h0, h1, notify0, notify1, hthres, hsame, Nat.ne_of_gt hthres]
    · have hoff : u.filterThres = 0 := Nat.eq_zero_of_not_pos hthres
      by_cases h0 : lvl.sigCh0 = u.lastlvl.sigCh0 <;> by_cases h1 : lvl.sigCh1 = u.lastlvl.sigCh1 <;>
        simp [h0, h1, notify0, notify1, hoff, hsame]

/-- **A turn of `capture`** touches its own variables and the events it announces. -/
theorem capture_frame (un : Nat) (u : PcntUnit) :
    ∃ f₀ f₁, u.capture un =
      { u with
        fctrl0 := f₀
        fctrl1 := f₁
        filtered0 := if inReset u.ctrl.cur un then u.filtered0
          else u.announced (u.bus.sigCh0 != u.lastlvl.sigCh0) u.filtered0
        filtered1 := if inReset u.ctrl.cur un then u.filtered1
          else u.announced (u.bus.sigCh1 != u.lastlvl.sigCh1) u.filtered1
        counting := if inReset u.ctrl.cur un then u.counting
          else u.counting || (decide (u.filterThres = 0) &&
            (u.bus.sigCh0 != u.lastlvl.sigCh0 || u.bus.sigCh1 != u.lastlvl.sigCh1))
        lastlvl := u.bus
        armed := false } := by
  have hctrl : ∃ f₀ f₁, captureCtrl u.bus u = { u with fctrl0 := f₀, fctrl1 := f₁ } := by
    unfold captureCtrl
    dsimp only
    split_ifs <;> exact ⟨_, _, rfl⟩
  obtain ⟨f₀, f₁, hctrl⟩ := hctrl
  refine ⟨f₀, f₁, ?_⟩
  show ({ captureSig un u.bus (captureCtrl u.bus u) with lastlvl := u.bus, armed := false } :
    PcntUnit) = _
  rw [hctrl, captureSig_eq]
  cases hreset : inReset u.ctrl.cur un with
  | true => rfl
  | false => rfl

/-! ## §3 — the invariant -/

/-- The configuration holds now and after the next update, and so do the limits. -/
structure Confined (L H : Int) (u : PcntUnit) : Prop where
  conf : LimitConf L H u.conf0.cur u.conf2.cur
  confNext : LimitConf L H u.conf0.next u.conf2.next
  cur : L < u.cnt.cur.toInt ∧ u.cnt.cur.toInt < H
  next : L < u.cnt.next.toInt ∧ u.cnt.next.toInt < H

/-- One step from a confined counter is exact. -/
theorem Confined.exact (h : Confined L H u) {d : Int} (hd : -1 ≤ d ∧ d ≤ 1) :
    (u.cnt.cur + BitVec.ofInt 16 d).toInt = u.cnt.cur.toInt + d := by
  have hbounds := h.conf.bounds
  have hcur := h.cur
  exact toInt_step hd (by omega) (by omega)

theorem pulse_small (u : PcntUnit) : -1 ≤ u.pulse ∧ u.pulse ≤ 1 := by
  unfold pulse
  split
  · exact prescribed_small _ _
  · exact prescribed_small _ _

theorem Confined.unreset_eq (h : Confined L H u) : u.unreset.toInt = u.cnt.cur.toInt + u.pulse :=
  h.exact u.pulse_small

/-- What is committed lies between the limits. -/
theorem Confined.afterLimit (h : Confined L H u) (hL : L < 0) (hH : 0 < H) (nc : BitVec 16) :
    L < (afterLimit u.conf0.cur u.conf2.cur nc).toInt ∧
      (afterLimit u.conf0.cur u.conf2.cur nc).toInt < H := by
  unfold Pcnt.afterLimit
  split
  · exact ⟨hL, hH⟩
  next hin =>
    rw [h.conf.atLimit_iff] at hin
    omega

/-- **One step** keeps the counter between its limits. -/
theorem Confined.step (h : Confined L H u) (hL : L < 0) (hH : 0 < H) {e : PcntEvent}
    (he : Limited L H e) : Confined L H (u.step un e) := by
  cases e with
  | sample =>
    show Confined L H (if u.armed then u.capture un else u)
    split
    · obtain ⟨f₀, f₁, hcap⟩ := capture_frame un u
      rw [hcap]
      exact ⟨h.conf, h.confNext, h.cur, h.next⟩
    · exact h
  | count =>
    by_cases hp : Pulsed un u
    · rw [step_pulsed hp]
      -- a limit is met exactly, since one pulse moves the counter by one at most
      exact ⟨h.conf, h.confNext, h.cur, h.afterLimit hL hH _⟩
    · rw [step_unpulsed hp]
      refine ⟨h.conf, h.confNext, ?_, ?_⟩
      · dsimp only
        split
        · exact h.cur
        · exact h.cur
      · dsimp only
        split
        · exact ⟨hL, hH⟩
        · exact h.next
  | updateth conf0 conf1 conf2 ctrl => exact ⟨h.conf, he, h.cur, h.next⟩
  | delta lvl =>
    show Confined L H (if u.counting then u else u.commit lvl)
    split
    · exact h
    · exact ⟨h.confNext, h.confNext, h.next, h.next⟩
  | advance d =>
    show Confined L H (if u.counting then u else (u.commit u.bus).advance d)
    split
    · exact h
    · exact ⟨h.confNext, h.confNext, h.next, h.next⟩

/-! ## §4 — runs -/

/-- The counter is between the limits, and counting from it is exact. -/
structure InLimits (L H : Int) (u : PcntUnit) : Prop where
  above : L < u.cnt.cur.toInt
  below : u.cnt.cur.toInt < H
  exact : ∀ mode ctl, (newCount u.cnt.cur mode ctl).toInt = u.cnt.cur.toInt + prescribed mode ctl

/-- The new count of a turn, before it is reset, is at a limit or beyond. -/
def ReachesLimit (L H : Int) (u : PcntUnit) : Prop :=
  u.cnt.cur.toInt + u.pulse ≤ L ∨ H ≤ u.cnt.cur.toInt + u.pulse

/-- A turn that reaches a limit sets the raw interrupt and clears the counter; any other that counts
commits the new count. -/
def Alarmed (un : Nat) (L H : Int) (u : PcntUnit) : PcntEvent → Prop
  | .count => Pulsed un u →
    (ReachesLimit L H u →
      (u.step un .count).intRaw.next = true ∧ (u.step un .count).cnt.next = 0) ∧
    (¬ ReachesLimit L H u → (u.step un .count).cnt.next.toInt = u.cnt.cur.toInt + u.pulse)
  | _ => True

theorem Confined.inLimits (h : Confined L H u) : InLimits L H u where
  above := h.cur.1
  below := h.cur.2
  exact mode ctl := by
    rw [newCount_eq]
    exact h.exact (prescribed_small mode ctl)

theorem Confined.alarmed (h : Confined L H u) (e : PcntEvent) : Alarmed un L H u e := by
  cases e with
  | count =>
    intro hp
    -- the registers are compared with a count that has not wrapped
    have hlimit : ReachesLimit L H u ↔ atLimit u.conf0.cur u.conf2.cur u.unreset := by
      rw [h.conf.atLimit_iff, h.unreset_eq]
      exact Iff.rfl
    rw [step_pulsed hp, hlimit]
    constructor
    · intro hat
      have hraise : compares u.conf0.cur u.conf1.cur u.conf2.cur u.unreset := Or.inl hat
      rw [if_pos hraise]
      exact ⟨rfl, if_pos hat⟩
    · intro hin
      rw [← h.unreset_eq]
      exact congrArg BitVec.toInt (if_neg hin)
  | sample => exact trivial
  | updateth conf0 conf1 conf2 ctrl => exact trivial
  | delta lvl => exact trivial
  | advance d => exact trivial

/-- **The limits hold.** From any state with a counter of zero and both limits on, in every run that
leaves the limits as they are, the counter lies strictly between them at every point and counting
never wraps; and every turn that would bring it to a limit sets the raw interrupt. -/
theorem limits_hold (hL : L < 0) (hH : 0 < H) (hzero : u.cnt = .init 0)
    (hconf : LimitConf L H u.conf0.cur u.conf2.cur)
    (hnext : LimitConf L H u.conf0.next u.conf2.next) (es : List PcntEvent)
    (hlim : ∀ e ∈ es, Limited L H e) :
    Always (fun _ s => InLimits L H s) (PcntUnit.step un) [] u es ∧
      Throughout (Alarmed un L H) (PcntUnit.step un) u es := by
  have hstart : Confined L H u := by
    refine ⟨hconf, hnext, ?_, ?_⟩ <;> rw [hzero] <;> exact ⟨hL, hH⟩
  have hrun : Throughout (fun _ e => Limited L H e) (PcntUnit.step un) u es :=
    (throughout_forall es u).mpr hlim
  constructor
  · refine always_of_throughout (I := fun _ s => Confined L H s) ?_ ?_ es [] u hstart hrun
    · intro _ s h
      exact h.inLimits
    · intro _ s e h he
      exact h.step hL hH he
  · refine throughout_of_invariant (I := Confined L H) ?_ ?_ es u hstart hrun
    · intro s e h he
      exact h.step hL hH he
    · intro s e h _
      exact h.alarmed e

/-- Limits at the ends of the range, with pulses on both channels, a pause and a reset. -/
theorem limits_hold_fullRange :
    let u : PcntUnit := { new 12 with conf0 := .init 0x04043000, conf2 := .init 0x80007fff }
    let es : List PcntEvent :=
      [.delta ⟨true, false, false, false⟩, .advance 12, .sample, .count,
        .updateth 0x01023000 7 0x80007fff 2, .delta ⟨false, true, false, false⟩, .advance 12, .sample,
        .count, .updateth 0x01023000 7 0x80007fff 1, .count]
    Always (fun _ s => InLimits (-32768) 32767 s) (PcntUnit.step 0) [] u es ∧
      Throughout (Alarmed 0 (-32768) 32767) (PcntUnit.step 0) u es := by
  have hconf : LimitConf (-32768) 32767 0x04043000 0x80007fff :=
    ⟨by decide, by decide, by decide, by decide⟩
  have hconf' : LimitConf (-32768) 32767 0x01023000 0x80007fff :=
    ⟨by decide, by decide, by decide, by decide⟩
  refine limits_hold (by decide) (by decide) rfl hconf hconf _ ?_
  intro e he
  simp only [List.mem_cons, List.not_mem_nil, or_false] at he
  rcases he with rfl | rfl | rfl | rfl | rfl | rfl | rfl | rfl | rfl | rfl | rfl
  all_goals first
    | exact hconf'
    | exact trivial

end PcntUnit

end Espmod.Pcnt
