/-
# Espmod.Lib.Run — runs of a system under a condition on its steps

For a total step function, `Always` says a history-dependent property holds in every state of the
run over a given event list and `Throughout` says every step met the condition. The rules go from
one step to a run: `always_of_throughout` for a condition that is enough, and
`always_iff_throughout` for an *exact* one, where the property holds everywhere precisely when no
step breaks the condition. Where no step is excluded, `always_of_invariant` and
`always_iff_of_invariant` are the same without the condition, and for all runs.
-/
import Mathlib.Tactic.Common

namespace Espmod.Lib

universe u v

variable {σ : Type u} {ε : Type v}

/-- `P` holds of history and state at every point of the run of `f` over the events, from a state
reached by the history `h`. -/
def Always (P : List ε → σ → Prop) (f : σ → ε → σ) : List ε → σ → List ε → Prop
  | h, s, [] => P h s
  | h, s, e :: es => P h s ∧ Always P f (h ++ [e]) (f s e) es

/-- Every event of the run was taken in a state where `ok` allows it. -/
def Throughout (ok : σ → ε → Prop) (f : σ → ε → σ) : σ → List ε → Prop
  | _, [] => True
  | s, e :: es => ok s e ∧ Throughout ok f (f s e) es

/-- Whether a run meets a condition can be computed when the condition can. -/
instance decidableThroughout {ok : σ → ε → Prop} [∀ s e, Decidable (ok s e)] (f : σ → ε → σ) :
    ∀ (s : σ) (es : List ε), Decidable (Throughout ok f s es)
  | _, [] => isTrue trivial
  | s, e :: es => by
    unfold Throughout
    exact @instDecidableAnd _ _ _ (decidableThroughout f (f s e) es)

theorem Always.head {P : List ε → σ → Prop} {f : σ → ε → σ} {h : List ε} {s : σ} {es : List ε}
    (ha : Always P f h s es) : P h s := by
  cases es with
  | nil => exact ha
  | cons e es => exact ha.1

/-- The property at the end of the run. -/
theorem Always.last {P : List ε → σ → Prop} {f : σ → ε → σ} :
    ∀ {es : List ε} {h : List ε} {s : σ}, Always P f h s es → P (h ++ es) (es.foldl f s) := by
  intro es
  induction es with
  | nil => intro h s ha; simpa [Always] using ha
  | cons e es ih => intro h s ha; simpa using ih ha.2

/-- **Sufficient conditions.** If the steps that meet the condition keep an invariant that gives the
property, the property holds at every point of a run whose steps all meet it. -/
theorem always_of_throughout {P I : List ε → σ → Prop} {ok : σ → ε → Prop} {f : σ → ε → σ}
    (hP : ∀ h s, I h s → P h s) (hkeep : ∀ h s e, I h s → ok s e → I (h ++ [e]) (f s e)) :
    ∀ (es : List ε) (h : List ε) (s : σ), I h s → Throughout ok f s es → Always P f h s es := by
  intro es
  induction es with
  | nil => intro h s hI _; exact hP h s hI
  | cons e es ih => intro h s hI hok; exact ⟨hP h s hI, ih _ _ (hkeep h s e hI hok.1) hok.2⟩

/-- What every step from a state of the invariant does, every step of such a run does. -/
theorem throughout_of_invariant {I : σ → Prop} {ok q : σ → ε → Prop} {f : σ → ε → σ}
    (hkeep : ∀ s e, I s → ok s e → I (f s e)) (hq : ∀ s e, I s → ok s e → q s e) :
    ∀ (es : List ε) (s : σ), I s → Throughout ok f s es → Throughout q f s es := by
  intro es
  induction es with
  | nil => intro s _ _; trivial
  | cons e es ih => intro s hI hok; exact ⟨hq s e hI hok.1, ih _ (hkeep s e hI hok.1) hok.2⟩

/-- **Exact conditions.** Among the runs whose steps are all admissible: if the steps that meet the
condition keep the invariant and every other step visibly breaks the property, then the property
holds at every point of a run exactly when every step met the condition. -/
theorem always_iff_throughout {P I : List ε → σ → Prop} {adm ok : σ → ε → Prop} {f : σ → ε → σ}
    (hP : ∀ h s, I h s → P h s)
    (hkeep : ∀ h s e, I h s → adm s e → ok s e → I (h ++ [e]) (f s e))
    (hbreak : ∀ h s e, I h s → adm s e → ¬ ok s e → ¬ P (h ++ [e]) (f s e)) :
    ∀ (es : List ε) (h : List ε) (s : σ), I h s → Throughout adm f s es →
      (Always P f h s es ↔ Throughout ok f s es) := by
  intro es
  induction es with
  | nil => intro h s hI _; exact ⟨fun _ => trivial, fun _ => hP h s hI⟩
  | cons e es ih =>
    intro h s hI hadm
    constructor
    · rintro ⟨_, hrest⟩
      have hok : ok s e := by
        by_contra hbad
        exact hbreak h s e hI hadm.1 hbad hrest.head
      exact ⟨hok, (ih _ _ (hkeep h s e hI hadm.1 hok) hadm.2).mp hrest⟩
    · rintro ⟨hok, hrest⟩
      exact ⟨hP h s hI, (ih _ _ (hkeep h s e hI hadm.1 hok) hadm.2).mpr hrest⟩

/-- **Exact conditions for a bounded run**, for a rule that holds up to a number of steps. -/
theorem always_iff_throughout_of_length {P I : List ε → σ → Prop} {adm ok : σ → ε → Prop} {f : σ → ε → σ}
    {n : Nat} (hP : ∀ h s, I h s → P h s)
    (hkeep : ∀ h s e, h.length < n → I h s → adm s e → ok s e → I (h ++ [e]) (f s e))
    (hbreak : ∀ h s e, h.length < n → I h s → adm s e → ¬ ok s e → ¬ P (h ++ [e]) (f s e)) :
    ∀ (es : List ε) (h : List ε) (s : σ), h.length + es.length ≤ n → I h s → Throughout adm f s es →
      (Always P f h s es ↔ Throughout ok f s es) := by
  intro es
  induction es with
  | nil => intro h s _ hI _; exact ⟨fun _ => trivial, fun _ => hP h s hI⟩
  | cons e es ih =>
    intro h s hle hI hadm
    rw [List.length_cons] at hle
    have hlt : h.length < n := by omega
    have hle' : (h ++ [e]).length + es.length ≤ n := by
      rw [List.length_append, List.length_singleton]
      omega
    constructor
    · rintro ⟨_, hrest⟩
      have hok : ok s e := by
        by_contra hbad
        exact hbreak h s e hlt hI hadm.1 hbad hrest.head
      exact ⟨hok, (ih _ _ hle' (hkeep h s e hlt hI hadm.1 hok) hadm.2).mp hrest⟩
    · rintro ⟨hok, hrest⟩
      exact ⟨hP h s hI, (ih _ _ hle' (hkeep h s e hlt hI hadm.1 hok) hadm.2).mpr hrest⟩

/-- **Conditions from a measure.** If no step from a state of the invariant lowers the measure and
every step that breaks the condition raises it, then a run that ends no higher than it began met the
condition at every step. -/
theorem throughout_of_measure {I : σ → Prop} {ok : σ → ε → Prop} {f : σ → ε → σ} {q : σ → Int}
    (hkeep : ∀ s e, I s → I (f s e)) (hle : ∀ s e, I s → q s ≤ q (f s e))
    (hlt : ∀ s e, I s → ¬ ok s e → q s < q (f s e)) :
    ∀ (es : List ε) (s : σ), I s → q (es.foldl f s) ≤ q s → Throughout ok f s es := by
  have hrun : ∀ (es : List ε) (s : σ), I s → q s ≤ q (es.foldl f s) := by
    intro es
    induction es with
    | nil => intro s _; exact Int.le_refl _
    | cons e es ih => intro s hI; exact Int.le_trans (hle s e hI) (ih _ (hkeep s e hI))
  intro es
  induction es with
  | nil => intro s _ _; trivial
  | cons e es ih =>
    intro s hI hend
    have hfirst := hrun es (f s e) (hkeep s e hI)
    have hstep := hle s e hI
    refine ⟨?_, ih _ (hkeep s e hI) (Int.le_trans hend hstep)⟩
    by_contra hbad
    have hup := hlt s e hI hbad
    have hend : q (es.foldl f (f s e)) ≤ q s := hend
    omega

/-- Two conditions that hold at every step hold together. -/
theorem throughout_and {p q : σ → ε → Prop} {f : σ → ε → σ} {es : List ε} {s : σ}
    (hp : Throughout p f s es) (hq : Throughout q f s es) :
    Throughout (fun s e => p s e ∧ q s e) f s es := by
  induction es generalizing s with
  | nil => trivial
  | cons e es ih => exact ⟨⟨hp.1, hq.1⟩, ih hp.2 hq.2⟩

/-- A run is met throughout when its two parts are. -/
theorem throughout_append {ok : σ → ε → Prop} {f : σ → ε → σ} (es ds : List ε) (s : σ) :
    Throughout ok f s (es ++ ds) ↔ Throughout ok f s es ∧ Throughout ok f (es.foldl f s) ds := by
  induction es generalizing s with
  | nil => simp [Throughout]
  | cons e es ih => simp [Throughout, ih, and_assoc]

/-- A condition that does not read the state is a condition on the events alone. -/
theorem throughout_forall {q : ε → Prop} {f : σ → ε → σ} (es : List ε) (s : σ) :
    Throughout (fun _ e => q e) f s es ↔ ∀ e ∈ es, q e := by
  induction es generalizing s with
  | nil => simp [Throughout]
  | cons e es ih => simp [Throughout, ih]

/-- **Invariants.** What follows from an invariant of every step holds at every point of every run. -/
theorem always_of_invariant {P I : List ε → σ → Prop} {f : σ → ε → σ} (hP : ∀ h s, I h s → P h s)
    (hkeep : ∀ h s e, I h s → I (h ++ [e]) (f s e)) (es : List ε) (h : List ε) (s : σ) (hI : I h s) :
    Always P f h s es := by
  induction es generalizing h s with
  | nil => exact hP h s hI
  | cons e es ih => exact ⟨hP h s hI, ih _ _ (hkeep h s e hI)⟩

/-- **Exact conditions for all runs**, where every step is admissible. -/
theorem always_iff_of_invariant {P I : List ε → σ → Prop} {ok : σ → ε → Prop} {f : σ → ε → σ}
    (hP : ∀ h s, I h s → P h s) (hkeep : ∀ h s e, I h s → ok s e → I (h ++ [e]) (f s e))
    (hbreak : ∀ h s e, I h s → ¬ ok s e → ¬ P (h ++ [e]) (f s e)) (es : List ε) (h : List ε) (s : σ)
    (hI : I h s) : Always P f h s es ↔ Throughout ok f s es := by
  have hall : Throughout (fun _ _ => True) f s es := (throughout_forall es s).mpr fun _ _ => trivial
  exact always_iff_throughout hP (fun h s e hI _ => hkeep h s e hI) (fun h s e hI _ => hbreak h s e hI)
    es h s hI hall

end Espmod.Lib
