/-
# Espmod.Lib.Ledger — what a machine puts into its boxes

A row of boxes and a list of deposits, each for one box: `ledger` is the row in which every box holds
what it held at first, followed by its deposits in order. The books are kept one deposit at a time
(`ledger_snoc`).

Weights say when they cannot balance: a machine in which every step pays for what it puts into a box,
and that is behind already, stays behind (`foldl_costs`).
-/
import Mathlib.Data.List.Basic
import Mathlib.Tactic.Common

namespace Espmod.Lib

universe u v w

variable {α : Type u} {β : Type v} {ε : Type w}

/-! ## §1 — deposits -/

section Deposits

variable (dest : ε → Option Nat) (load : ε → List β) (put : List β → α → α)

/-- What is put into the box `i`. -/
def deposits (i : Nat) (es : List ε) : List β :=
  es.flatMap fun e => if dest e = some i then load e else []

/-- **The row as it should be**: in every box what it held and its deposits. -/
def ledger (start : List α) (es : List ε) : List α :=
  start.mapIdx fun i x => put (deposits dest load i es) x

variable {dest load put}

theorem deposits_snoc (i : Nat) (es : List ε) (e : ε) :
    deposits dest load i (es ++ [e]) =
      deposits dest load i es ++ if dest e = some i then load e else [] := by
  unfold deposits
  rw [List.flatMap_append, List.flatMap_singleton]

theorem ledger_nil (hnil : ∀ x, put [] x = x) (start : List α) : ledger dest load put start [] = start := by
  apply List.ext_getElem?
  intro i
  unfold ledger
  rw [List.getElem?_mapIdx]
  cases start[i]? with
  | none => rfl
  | some x => exact congrArg some (hnil x)

/-- **One deposit more** changes one box. -/
theorem ledger_snoc (hnil : ∀ x, put [] x = x) (happ : ∀ x bs cs, put cs (put bs x) = put (bs ++ cs) x)
    {e : ε} {i : Nat} (hdest : dest e = some i) (start : List α) (es : List ε) :
    ledger dest load put start (es ++ [e]) =
      (ledger dest load put start es).modify i (put (load e)) := by
  apply List.ext_getElem?
  intro j
  rw [List.getElem?_modify]
  unfold ledger
  rw [List.getElem?_mapIdx, List.getElem?_mapIdx]
  cases start[j]? with
  | none => rfl
  | some x =>
    rw [Option.map_some, Option.map_some, Option.map_eq_map, Option.map_some, deposits_snoc, hdest,
      ← happ]
    by_cases hij : i = j
    · rw [if_pos (congrArg some hij), if_pos hij]
    · have hne : ¬ some i = some j := fun h => hij (Option.some.inj h)
      rw [if_neg hne, if_neg hij, hnil]

/-- Deposits do not show in a view they leave alone. -/
theorem map_ledger {γ : Type w} {p : α → γ} (hput : ∀ bs x, p (put bs x) = p x) (start : List α)
    (es : List ε) : (ledger dest load put start es).map p = start.map p := by
  apply List.ext_getElem?
  intro i
  unfold ledger
  rw [List.getElem?_map, List.getElem?_mapIdx, List.getElem?_map]
  cases start[i]? with
  | none => rfl
  | some x => exact congrArg some (hput _ x)

end Deposits

/-- A change of one box does not show in a view it leaves alone. -/
theorem map_modify_of_eq {γ : Type w} {p : α → γ} {g : α → α} (hg : ∀ x, p (g x) = p x)
    (l : List α) (i : Nat) : (l.modify i g).map p = l.map p := by
  apply List.ext_getElem?
  intro j
  rw [List.getElem?_map, List.getElem?_map, List.getElem?_modify]
  cases l[j]? with
  | none => rfl
  | some x =>
    show some (p (if i = j then g x else x)) = some (p x)
    split
    · rw [hg]
    · rfl

/-- A change of one box, seen in a view that changes with it. -/
theorem map_modify_comm {γ : Type w} {p : α → γ} {g : α → α} {g' : γ → γ} (hg : ∀ x, p (g x) = g' (p x))
    (l : List α) (i : Nat) : (l.modify i g).map p = (l.map p).modify i g' := by
  apply List.ext_getElem?
  intro j
  rw [List.getElem?_map, List.getElem?_modify, List.getElem?_modify, List.getElem?_map]
  cases l[j]? with
  | none => rfl
  | some x =>
    show some (p (if i = j then g x else x)) = some (if i = j then g' (p x) else p x)
    split
    · rw [hg]
    · rfl

/-- Searches that see the same view find the same box. -/
theorem findIdx?_of_map_eq {p : α → Bool} {l l' : List α} (h : l.map p = l'.map p) :
    l.findIdx? p = l'.findIdx? p := by
  have hview : ∀ xs : List α, (xs.map p).findIdx? id = xs.findIdx? p := by
    intro xs
    rw [List.findIdx?_map]
    rfl
  rw [← hview l, h, hview l']

theorem findIdx?_modify {p : α → Bool} {g : α → α} (hg : ∀ x, p (g x) = p x) (l : List α) (i : Nat) :
    (l.modify i g).findIdx? p = l.findIdx? p :=
  findIdx?_of_map_eq (map_modify_of_eq hg l i)

/-! ## §2 — weights -/

/-- The weight of a row. -/
def total (weight : α → Nat) (l : List α) : Nat := l.foldr (fun x n => weight x + n) 0

theorem total_modify {weight : α → Nat} {g : α → α} {l : List α} :
    ∀ {i : Nat} {x : α}, l[i]? = some x →
      total weight (l.modify i g) + weight x = total weight l + weight (g x) := by
  induction l with
  | nil =>
    intro i x h
    cases h
  | cons y ys ih =>
    intro i x h
    cases i with
    | zero =>
      obtain rfl : y = x := Option.some.inj h
      simp only [total, List.modify_zero_cons, List.foldr_cons]
      omega
    | succ i =>
      have hrest := ih (i := i) (x := x) h
      simp only [total, List.modify_succ_cons, List.foldr_cons] at hrest ⊢
      omega

/-- A change that adds at most `k` to a box adds at most `k` to the row. -/
theorem total_modify_le {weight : α → Nat} {g : α → α} {k : Nat} {l : List α} {i : Nat}
    (hg : ∀ x, l[i]? = some x → weight (g x) ≤ weight x + k) :
    total weight (l.modify i g) ≤ total weight l + k := by
  cases hx : l[i]? with
  | none =>
    rw [List.modify_eq_self (List.getElem?_eq_none_iff.mp hx)]
    exact Nat.le_add_right _ _
  | some x =>
    have hsum : total weight (l.modify i g) + weight x = total weight l + weight (g x) :=
      total_modify hx
    have hle := hg x hx
    omega

/-! ## §3 — what a step costs -/

section Costs

variable {σ : Type u} {γ : Type v} (row : σ → List α) (weight : α → Nat) (lag : σ → Nat) (view : α → γ)

/-- **A step that pays for what it puts down.** One box changes, in a way its view does not show, and
gains no more than the machine falls behind; `lag` is how far the machine is behind between steps. -/
def Costs (s s' : σ) : Prop :=
  ∃ (ind : Nat) (g : α → α), row s' = (row s).modify ind g ∧ (∀ x, view (g x) = view x) ∧
    ∀ x, (row s)[ind]? = some x → weight (g x) + lag s' ≤ weight x + lag s + 1

variable {row weight lag view}

/-- Nothing is put anywhere. -/
theorem Costs.quiet {s s' : σ} (hrow : row s' = row s) (hlag : lag s' ≤ lag s + 1) :
    Costs row weight lag view s s' := by
  refine ⟨0, id, ?_, fun _ => rfl, ?_⟩
  · rw [hrow, List.modify_id]
  · intro x _
    show weight x + lag s' ≤ _
    omega

/-- One box gains at most `k`, and the machine falls behind by as much. -/
theorem Costs.change {s s' : σ} {ind k : Nat} {g : α → α} (hrow : row s' = (row s).modify ind g)
    (hview : ∀ x, view (g x) = view x)
    (hgain : ∀ x, (row s)[ind]? = some x → weight (g x) ≤ weight x + k)
    (hlag : k + lag s' ≤ lag s + 1) : Costs row weight lag view s s' := by
  refine ⟨ind, g, hrow, hview, ?_⟩
  intro x hx
  have hone := hgain x hx
  omega

theorem Costs.map_view {s s' : σ} (h : Costs row weight lag view s s') :
    (row s').map view = (row s).map view := by
  obtain ⟨ind, g, hrow, hview, _⟩ := h
  rw [hrow, map_modify_of_eq hview]

/-- The weight of the row and the lag grow by at most one together. -/
theorem Costs.total_le {s s' : σ} (h : Costs row weight lag view s s') (hlag : lag s' ≤ lag s + 1) :
    total weight (row s') + lag s' ≤ total weight (row s) + lag s + 1 := by
  obtain ⟨ind, g, hrow, _, hweight⟩ := h
  have hle : total weight (row s') ≤ total weight (row s) + (lag s + 1 - lag s') := by
    rw [hrow]
    apply total_modify_le
    intro x hx
    have hone := hweight x hx
    omega
  omega

/-- **A run of such steps** adds to the row what it consumes, less the lag it ends with. -/
theorem foldl_costs {f : σ → ε → σ} (good : List γ → Prop)
    (hstep : ∀ s e, good ((row s).map view) →
      Costs row weight lag view s (f s e) ∧ lag (f s e) ≤ lag s + 1) :
    ∀ (es : List ε) (s : σ), good ((row s).map view) →
      total weight (row (es.foldl f s)) + lag (es.foldl f s) ≤
        total weight (row s) + lag s + es.length := by
  intro es
  induction es with
  | nil =>
    intro s _
    exact Nat.le_refl _
  | cons e es ih =>
    intro s hs
    obtain ⟨hcosts, hlag⟩ := hstep s e hs
    have hone := hcosts.total_le hlag
    have hrest := ih (f s e) (hcosts.map_view.symm ▸ hs)
    rw [List.foldl_cons, List.length_cons]
    omega

end Costs

end Espmod.Lib
