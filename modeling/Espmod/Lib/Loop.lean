/-
# Espmod.Lib.Loop — loops that emit

`while (guard s) s = body(s)` where a round emits a list. `Ends` relates the state before to what a run
that ends has emitted and the state it ends in, so a loop that does not end is related to nothing. A
counter gives the number of rounds (`loop_rounds`), an invariant that keeps the guard true shows that
there is no end (`loop_forever`).

A `for` loop over an array whose round `k` rewrites place `k` of it is `foldl_stores`.
-/
import Mathlib.Tactic.Common

namespace Espmod.Lib.Loop

variable {σ β : Type}

/-- A run of the loop from `s` that ends in `s'` and has emitted `bs`. -/
inductive Ends (guard : σ → Prop) (body : σ → List β × σ) : σ → List β → σ → Prop
  | done {s : σ} : ¬ guard s → Ends guard body s [] s
  | next {s s' : σ} {bs : List β} : guard s → Ends guard body (body s).2 bs s' →
      Ends guard body s ((body s).1 ++ bs) s'

variable {guard : σ → Prop} {body : σ → List β × σ} {s s' s'' : σ} {bs cs : List β}

/-- A loop has one end. -/
theorem loop_unique (h : Ends guard body s bs s') (h' : Ends guard body s cs s'') :
    bs = cs ∧ s' = s'' := by
  induction h generalizing cs s'' with
  | done hstop =>
    cases h' with
    | done _ => exact ⟨rfl, rfl⟩
    | next hgo _ => exact absurd hgo hstop
  | next hgo _ ih =>
    cases h' with
    | done hstop => exact absurd hgo hstop
    | next _ hrest =>
      obtain ⟨rfl, rfl⟩ := ih hrest
      exact ⟨rfl, rfl⟩

/-- **A counted loop**: with states and emissions given by a count, and the guard true up to `n`. -/
theorem loop_rounds (at' : Nat → σ) (out : Nat → List β) (n : Nat)
    (hbody : ∀ k < n, guard (at' k) ∧ body (at' k) = (out k, at' (k + 1))) (hstop : ¬ guard (at' n)) :
    Ends guard body (at' 0) ((List.range n).flatMap out) (at' n) := by
  -- from the last round back to the first
  have htail (m : Nat) (hm : m ≤ n) :
      Ends guard body (at' (n - m)) ((List.range' (n - m) m).flatMap out) (at' n) := by
    induction m with
    | zero => exact Ends.done hstop
    | succ m ih =>
      obtain ⟨hgo, hnext⟩ := hbody (n - (m + 1)) (by omega)
      have hstep : n - (m + 1) + 1 = n - m := by omega
      have hrest := ih (by omega)
      rw [hstep] at hnext
      rw [List.range'_succ, List.flatMap_cons, hstep]
      rw [← show (body (at' (n - (m + 1)))).2 = at' (n - m) by rw [hnext]] at hrest
      have hloop := Ends.next hgo hrest
      rw [hnext] at hloop
      exact hloop
  have hall := htail n (Nat.le_refl n)
  rw [Nat.sub_self] at hall
  rw [List.range_eq_range']
  exact hall

/-- **A loop that keeps its guard true does not end.** -/
theorem loop_forever (I : σ → Prop) (hkeep : ∀ s, I s → guard s ∧ I (body s).2) (hI : I s) :
    ¬ Ends guard body s bs s' := by
  intro h
  induction h with
  | done hstop => exact hstop (hkeep _ hI).1
  | next _ _ ih => exact ih (hkeep _ hI).2

/-- **A loop that stores at its counter**: after `n` rounds each place below `n` has been rewritten once,
and no other. -/
theorem foldl_stores {α : Type} (view : σ → Nat → α) (g : Nat → α → α) {f : σ → Nat → σ}
    (hf : ∀ s k, view (f s k) = fun j => if j = k then g k (view s k) else view s j) (n : Nat) (s : σ)
    (k : Nat) :
    view ((List.range n).foldl f s) k = if k < n then g k (view s k) else view s k := by
  induction n with
  | zero => rfl
  | succ n ih =>
    rw [List.range_succ, List.foldl_append, List.foldl_cons, List.foldl_nil, hf]
    dsimp only
    by_cases hk : k = n
    · subst hk
      have hbefore : ¬ k < k := Nat.lt_irrefl k
      have hafter : k < k + 1 := Nat.lt_succ_self k
      rw [if_neg hbefore] at ih
      rw [if_pos rfl, if_pos hafter, ih]
    · have hiff : k < n + 1 ↔ k < n := by omega
      rw [if_neg hk, ih]
      simp only [hiff]

end Espmod.Lib.Loop
