/-
# Espmod.Pcnt.Latching — the raw interrupt bits and what firmware sees of them

The raw bit of a unit should be a latch: set by a comparator of the unit, cleared when firmware has
written its bit to `int_clr` and called `update`. And `int_st` should be the raw word under the enable
word, whichever of the two has changed.

`updateth` never looks at `int_clr`, so a bit that is set stays so; and `returnth` waits for the
counters and the raw bits only, so a change of the enable word alone leaves `int_st` as it was. The
latch is right as long as no bit that is set is cleared, and the mask as long as a new enable word that
comes alone selects the same raw bits.
-/
import Espmod.Pcnt.Limits
import Espmod.Pcnt.Module

namespace Espmod.Pcnt

open Espmod.Lib

namespace PcntMod

open PcntUnit

/-! ## §1 — the specification -/

/-- A turn of `count` at which an enabled comparator finds its value. -/
def Raises (un : Nat) (u : PcntUnit) : Prop :=
  Pulsed un u ∧ compares u.conf0.cur u.conf1.cur u.conf2.cur u.unreset

instance (un : Nat) (u : PcntUnit) : Decidable (Raises un u) := inferInstanceAs (Decidable (_ ∧ _))

/-- The module beside the latches its raw bits should be. -/
structure Watched where
  m : PcntMod
  /-- the bits that should be set -/
  raw : Fin 8 → Bool
  /-- what has been written to `int_clr` since `updateth` last ran -/
  pend : BitVec 32

namespace Watched

def new (apbPeriod : Nat) : Watched := ⟨.new apbPeriod, fun _ => false, 0⟩

/-- The latches: a comparator sets, an update clears what was written to `int_clr`. -/
def step (s : Watched) (e : PcntModEvent) : Watched where
  m := s.m.step e
  raw :=
    match e with
    | .count i => fun j => s.raw j || (decide (j = i) && decide (Raises j (s.m.unit j)))
    | .updateth => fun j => s.raw j && !(s.m.updating && s.pend.getLsbD j)
    | _ => s.raw
  pend :=
    match e with
    | .clr v => s.pend ||| v
    | .updateth => if s.m.updating then 0 else s.pend
    | _ => s.pend

/-- No thread is due, and neither the raw bits nor the enable word are about to change. -/
def Settled (m : PcntMod) : Prop :=
  ¬ m.Busy ∧ m.intEna.Quiet ∧ ∀ i, (m.unit i).intRaw.Quiet

instance (m : PcntMod) : Decidable (Settled m) := inferInstanceAs (Decidable (_ ∧ _))

/-- **The interrupts latch**: each raw signal carries, or is about to, what the latch says; and once
they have settled, the struct shows the latches in `int_raw` and the enabled ones in `int_st`. -/
structure Latches (s : Watched) : Prop where
  raw : ∀ i, (s.m.unit i).intRaw.next = s.raw i
  shown : Settled s.m → ∀ i : Fin 8, s.m.pcnt.intRaw.getLsbD i = s.raw i
  masked : Settled s.m → s.m.pcnt.intSt = s.m.pcnt.intRaw &&& s.m.intEna.cur

/-- No update comes with a clear of a bit that is set, and an enable word that changes when no counter
and no raw bit does selects the same raw bits as the one before. -/
def Serviced (s : Watched) : PcntModEvent → Prop
  | .updateth => s.m.updating = true → ∀ i : Fin 8, s.pend.getLsbD i = true → s.raw i = false
  | .delta _ => ¬ s.m.Busy → (∀ i, (s.m.unit i).changing = false) →
      s.m.pcnt.intRaw &&& s.m.intEna.next = s.m.pcnt.intRaw &&& s.m.intEna.cur
  | _ => True

/-! ## §2 — what a step does to the raw bits -/

variable {un : Nat} {u : PcntUnit}

theorem sample_intRaw (un : Nat) (u : PcntUnit) : (u.step un .sample).intRaw = u.intRaw := by
  show (if u.armed then u.capture un else u).intRaw = u.intRaw
  split
  · obtain ⟨f₀, f₁, hcap⟩ := capture_frame un u
    rw [hcap]
  · rfl

/-- A turn of `count` sets the raw bit if a comparator says so, and leaves it alone otherwise. -/
theorem count_intRaw (un : Nat) (u : PcntUnit) :
    (u.step un .count).intRaw = if Raises un u then u.intRaw.write true else u.intRaw := by
  by_cases hp : Pulsed un u
  · rw [step_pulsed hp]
    by_cases hcmp : compares u.conf0.cur u.conf1.cur u.conf2.cur u.unreset
    · have hraise : Raises un u := ⟨hp, hcmp⟩
      rw [if_pos hraise]
      exact if_pos hcmp
    · have hno : ¬ Raises un u := fun h => hcmp h.2
      rw [if_neg hno]
      exact if_neg hcmp
  · have hno : ¬ Raises un u := fun h => hp h.1
    rw [step_unpulsed hp, if_neg hno]

theorem advance_intRaw (un : Nat) {u : PcntUnit} (hq : u.intRaw.Quiet) (d : Nat) :
    (u.step un (.advance d)).intRaw = u.intRaw := by
  show (if u.counting then u else (u.commit u.bus).advance d).intRaw = u.intRaw
  split
  · rfl
  · exact hq.update_eq

/-- One bit more in the raw word. -/
theorem getLsbD_rawBit (raw : Fin 8 → Bool) (w : BitVec 32) (i k : Fin 8) :
    (rawBit raw w i).getLsbD k = (w.getLsbD k || (decide (i = k) && raw k)) := by
  have hbit : ((1 : BitVec 32) <<< i.val).getLsbD k = decide (i = k) := by
    revert i k
    decide
  unfold rawBit
  rw [BitVec.getLsbD_or]
  by_cases hik : i = k
  · subst hik
    cases raw i with
    | true => rw [if_pos rfl, hbit, Bool.and_true]
    | false => simp
  · cases raw i with
    | true => rw [if_pos rfl, hbit, decide_eq_false hik, Bool.false_and]
    | false => simp [hik]

theorem getLsbD_rawBits (raw : Fin 8 → Bool) (k : Fin 8) (l : List (Fin 8)) (w : BitVec 32) :
    (l.foldl (rawBit raw) w).getLsbD k = true ↔ w.getLsbD k = true ∨ (k ∈ l ∧ raw k = true) := by
  induction l generalizing w with
  | nil => simp
  | cons i l ih =>
    rw [List.foldl_cons, ih, getLsbD_rawBit, Bool.or_eq_true, Bool.and_eq_true, decide_eq_true_eq,
      List.mem_cons]
    by_cases hik : i = k
    · subst hik
      simp only [true_and, true_or]
      tauto
    · have hki : ¬ k = i := fun h => hik h.symm
      simp [hik, hki]

/-- Bit `i` of the raw word is the raw bit of unit `i`. -/
theorem getLsbD_rawWord (raw : Fin 8 → Bool) (i : Fin 8) : (rawWord raw).getLsbD i = raw i := by
  unfold rawWord
  rw [Bool.eq_iff_iff, getLsbD_rawBits]
  simp

/-! ## §3 — the invariant -/

/-- The raw signals carry the latches, and the struct shows the signals unless `returnth` is due. -/
structure Latched (s : Watched) : Prop where
  raw : ∀ i, (s.m.unit i).intRaw.next = s.raw i
  shown : s.m.returning = false →
    ∀ i : Fin 8, s.m.pcnt.intRaw.getLsbD i = (s.m.unit i).intRaw.cur
  masked : s.m.returning = false → s.m.pcnt.intSt = s.m.pcnt.intRaw &&& s.m.intEna.cur

variable {s : Watched}

theorem not_returning {m : PcntMod} (h : ¬ m.Busy) : m.returning = false :=
  Bool.eq_false_iff.mpr fun hret => h (Or.inr (Or.inl hret))

theorem Latched.latches (h : Latched s) : Latches s where
  raw := h.raw
  shown hset i := by
    rw [h.shown (not_returning hset.1), ← h.raw]
    exact (hset.2.2 i).symm
  masked hset := h.masked (not_returning hset.1)

/-- A step that leaves the raw signals, the enable word and the struct's side alone. -/
theorem Latched.frame (h : Latched s) {s' : Watched} (hraw : s'.raw = s.raw)
    (hsig : ∀ i, (s'.m.unit i).intRaw = (s.m.unit i).intRaw)
    (hena : s'.m.intEna.cur = s.m.intEna.cur) (hword : s'.m.pcnt.intRaw = s.m.pcnt.intRaw)
    (hst : s'.m.pcnt.intSt = s.m.pcnt.intSt) (hret : s'.m.returning = s.m.returning) :
    Latched s' where
  raw i := by
    rw [hsig, hraw]
    exact h.raw i
  shown hno i := by
    rw [hword, hsig]
    exact h.shown (hret ▸ hno) i
  masked hno := by
    rw [hst, hword, hena]
    exact h.masked (hret ▸ hno)

/-- `updateth`: what was to be cleared was clear. -/
theorem Latched.stepUpdateth (h : Latched s) (hok : Serviced s .updateth) :
    Latched (s.step .updateth) := by
  by_cases hdue : s.m.updating = true
  · have hraw : (s.step .updateth).raw = s.raw := by
      funext i
      show (s.raw i && !(s.m.updating && s.pend.getLsbD i)) = s.raw i
      rw [hdue, Bool.true_and]
      cases hpend : s.pend.getLsbD i with
      | true => rw [hok hdue i hpend, Bool.false_and]
      | false => exact Bool.and_true _
    have hm : (s.step .updateth).m = s.m.updateth := if_pos hdue
    apply h.frame hraw <;> rw [hm]
    · intro i
      rfl
    all_goals rfl
  · have hidle : s.m.updating = false := Bool.eq_false_iff.mpr hdue
    have hraw : (s.step .updateth).raw = s.raw := by
      funext i
      show (s.raw i && !(s.m.updating && s.pend.getLsbD i)) = s.raw i
      rw [hidle]
      exact Bool.and_true _
    have hm : (s.step .updateth).m = s.m := if_neg hdue
    apply h.frame hraw <;> rw [hm]
    intro i
    rfl

/-- `returnth` shows the signals. -/
theorem Latched.stepReturnth (h : Latched s) : Latched (s.step .returnth) := by
  by_cases hdue : s.m.returning = true
  · have hm : (s.step .returnth).m = s.m.returnth := if_pos hdue
    refine ⟨?_, ?_, ?_⟩ <;> rw [hm]
    · exact h.raw
    · intro _ i
      exact getLsbD_rawWord _ i
    · exact fun _ => rfl
  · have hm : (s.step .returnth).m = s.m := if_neg hdue
    have hraw : (s.step .returnth).raw = s.raw := rfl
    apply h.frame hraw <;> rw [hm]
    intro i
    rfl

theorem Latched.stepSample (h : Latched s) (j : Fin 8) : Latched (s.step (.sample j)) := by
  have hraw : (s.step (.sample j)).raw = s.raw := rfl
  apply h.frame hraw
  · intro i
    show (if i = j then (s.m.unit i).step i .sample else s.m.unit i).intRaw = _
    split
    · exact sample_intRaw _ _
    · rfl
  all_goals rfl

/-- A turn of `count` sets the raw signal when it sets the latch. -/
theorem Latched.stepCount (h : Latched s) (j : Fin 8) : Latched (s.step (.count j)) := by
  have hsig : ∀ i, ((s.step (.count j)).m.unit i).intRaw =
      if i = j ∧ Raises i (s.m.unit i) then (s.m.unit i).intRaw.write true
      else (s.m.unit i).intRaw := by
    intro i
    show (if i = j then (s.m.unit i).step i .count else s.m.unit i).intRaw = _
    by_cases hij : i = j
    · rw [if_pos hij, count_intRaw]
      simp only [hij, true_and]
    · have hno : ¬ (i = j ∧ Raises i (s.m.unit i)) := fun hboth => hij hboth.1
      rw [if_neg hij, if_neg hno]
  refine ⟨?_, ?_, ?_⟩
  · intro i
    rw [hsig]
    show _ = (s.raw i || (decide (i = j) && decide (Raises i (s.m.unit i))))
    rw [← Bool.decide_and]
    by_cases hr : i = j ∧ Raises i (s.m.unit i)
    · rw [if_pos hr, decide_eq_true hr, Bool.or_true]
      rfl
    · rw [if_neg hr, decide_eq_false hr, Bool.or_false]
      exact h.raw i
  · intro hno i
    rw [hsig]
    refine (h.shown hno i).trans ?_
    split <;> rfl
  · exact h.masked

/-- The end of a delta cycle, when an enable word that comes alone selects the same. -/
theorem Latched.stepDelta (h : Latched s) (lvls : Fin 8 → PcntBus) (hok : Serviced s (.delta lvls)) :
    Latched (s.step (.delta lvls)) := by
  by_cases hbusy : s.m.Busy
  · have hm : (s.step (.delta lvls)).m = s.m := if_pos hbusy
    have hraw : (s.step (.delta lvls)).raw = s.raw := rfl
    apply h.frame hraw <;> rw [hm]
    intro i
    rfl
  · have hm : (s.step (.delta lvls)).m = s.m.commit lvls := if_neg hbusy
    have hret := not_returning hbusy
    have hsame : (s.m.commit lvls).returning = false → ∀ i, (s.m.unit i).changing = false := by
      intro hno i
      exact List.any_eq_false.mp hno i (List.mem_finRange i) |> Bool.eq_false_iff.mpr
    refine ⟨?_, ?_, ?_⟩ <;> rw [hm]
    · exact h.raw
    · intro hno i
      have hquiet : (s.m.unit i).intRaw.next = (s.m.unit i).intRaw.cur := by
        have hch := not_or.mp (of_decide_eq_false (hsame hno i))
        exact not_not.mp hch.2
      exact (h.shown hret i).trans hquiet.symm
    · intro hno
      exact (h.masked hret).trans (hok hbusy (hsame hno)).symm

theorem Latched.stepAdvance (h : Latched s) (d : Nat) : Latched (s.step (.advance d)) := by
  have hraw : (s.step (.advance d)).raw = s.raw := rfl
  by_cases hwait : s.m.Busy ∨ ¬ s.m.Quiet
  · have hm : (s.step (.advance d)).m = s.m := if_pos hwait
    apply h.frame hraw <;> rw [hm]
    intro i
    rfl
  · have hm : (s.step (.advance d)).m = s.m.advance d := if_neg hwait
    have hq : s.m.Quiet := not_not.mp (not_or.mp hwait).2
    have hquiet : ∀ i, (s.m.unit i).intRaw.Quiet := fun i =>
      (hq.2 i (List.mem_finRange i)).2.2.2.2.2
    have hframe : ∀ i, ((s.m.advance d).unit i).intRaw = (s.m.unit i).intRaw := by
      intro i
      unfold advance
      split
      · exact advance_intRaw i.val (hquiet i) _
      · rfl
    apply h.frame hraw <;> rw [hm]
    · exact hframe
    all_goals
      unfold advance
      split <;> rfl

/-- **One step** that the code serves keeps the latches. -/
theorem Latched.step (h : Latched s) {e : PcntModEvent} (hok : Serviced s e) :
    Latched (s.step e) := by
  cases e with
  | updateth => exact h.stepUpdateth hok
  | returnth => exact h.stepReturnth
  | sample i => exact h.stepSample i
  | count i => exact h.stepCount i
  | delta lvls => exact h.stepDelta lvls hok
  | advance d => exact h.stepAdvance d
  | store conf0 conf1 conf2 intEna ctrl => exact ⟨h.raw, h.shown, h.masked⟩
  | clr v => exact ⟨h.raw, h.shown, h.masked⟩
  | update => exact ⟨h.raw, h.shown, h.masked⟩

/-! ## §4 — steps that are not served -/

/-- A bit that is set stays set in the signal. -/
theorem Latched.clearLost (h : Latched s) (hbad : ¬ Serviced s .updateth) :
    ¬ Latches (s.step .updateth) := by
  intro hl
  apply hbad
  intro hdue i hpend
  have hraw := hl.raw i
  have hm : (s.step .updateth).m = s.m.updateth := if_pos hdue
  have hcleared : (s.step .updateth).raw i = false := by
    show (s.raw i && !(s.m.updating && s.pend.getLsbD i)) = false
    rw [hdue, hpend]
    exact Bool.and_false _
  rw [hm, hcleared] at hraw
  exact (h.raw i).symm.trans hraw

/-- `int_st` keeps the old mask. -/
theorem Latched.maskStale (h : Latched s) (lvls : Fin 8 → PcntBus)
    (hbad : ¬ Serviced s (.delta lvls)) : ¬ Latches (s.step (.delta lvls)) := by
  intro hl
  apply hbad
  intro hbusy hsame
  have hm : (s.step (.delta lvls)).m = s.m.commit lvls := if_neg hbusy
  have hret : (s.m.commit lvls).returning = false := by
    apply List.any_eq_false.mpr
    intro i _
    exact Bool.eq_false_iff.mp (hsame i)
  -- nothing is due after this delta cycle, so the struct should be up to date
  have hsettled : Settled (s.m.commit lvls) := by
    refine ⟨?_, Signal.quiet_update _, fun i => Signal.quiet_update _⟩
    rintro (hup | hrt | hcount)
    · exact hbusy (Or.inl hup)
    · exact Bool.eq_false_iff.mp hret hrt
    · exact hbusy (Or.inr (Or.inr hcount))
  have hmask := hl.masked (hm ▸ hsettled)
  rw [hm] at hmask
  exact hmask.symm.trans (h.masked (not_returning hbusy))

/-! ## §5 — runs -/

theorem latched_new (apbPeriod : Nat) : Latched (new apbPeriod) where
  raw _ := rfl
  shown _ i := by
    show (0 : BitVec 32).getLsbD i = false
    exact BitVec.getLsbD_zero
  masked _ := by
    show (0 : BitVec 32) = 0 &&& 0
    exact (BitVec.and_zero).symm

/-- **Interrupt latching.** In every run from the start of simulation, with any stores, updates,
pulses and delta cycles, the raw bits are the latches and the struct shows them whenever they have
settled, if and only if no update comes with a clear of a bit that is set and no enable word that
comes alone selects other raw bits. -/
theorem interrupts_latch (apbPeriod : Nat) (es : List PcntModEvent) :
    Always (fun _ s => Latches s) Watched.step [] (new apbPeriod) es ↔
      Throughout Serviced Watched.step (new apbPeriod) es := by
  refine always_iff_of_invariant (I := fun _ s => Latched s) ?_ ?_ ?_ es [] _ (latched_new apbPeriod)
  · intro _ s h
    exact h.latches
  · intro _ s e h hok
    exact h.step hok
  · intro _ s e h hbad
    cases e with
    | updateth => exact h.clearLost hbad
    | delta lvls => exact h.maskStale lvls hbad
    | _ => exact absurd trivial hbad

/-- Unit 0 counts rising edges and compares with one, under the enable word `intEna`. -/
def configure (intEna : BitVec 32) : List PcntModEvent :=
  [PcntModEvent.store (fun _ => 0x44000) (fun _ => 1) (fun _ => 0) intEna 0, .update, .updateth,
    .delta fun _ => ⟨false, false, false, false⟩]

/-- One rising edge, counted and shown. -/
def risingEdge : List PcntModEvent :=
  [.delta fun i => ⟨decide (i.val = 0), false, false, false⟩, .advance 12, .sample 0, .count 0,
    .delta fun i => ⟨decide (i.val = 0), false, false, false⟩, .returnth]

/-- The service routine clears the interrupt and the bit stays set; and an interrupt that is enabled
after its bit was set does not show in `int_st`. -/
theorem interrupts_stick :
    ¬ Always (fun _ s => Latches s) Watched.step [] (new 12)
      (configure 1 ++ risingEdge ++
        [PcntModEvent.clr 1, .update, .updateth, .delta fun _ => ⟨true, false, false, false⟩]) ∧
    ¬ Always (fun _ s => Latches s) Watched.step [] (new 12)
      (configure 0 ++ risingEdge ++
        [PcntModEvent.store (fun _ => 0x44000) (fun _ => 1) (fun _ => 0) 1 0, .update, .updateth,
          .delta fun _ => ⟨true, false, false, false⟩]) := by
  constructor
  · intro h
    have hraw := h.last.raw 0
    revert hraw
    decide
  · intro h
    have hmask := h.last.masked (by decide)
    revert hmask
    decide

end Watched

end PcntMod

end Espmod.Pcnt
