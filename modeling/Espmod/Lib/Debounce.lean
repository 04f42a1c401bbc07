/-
# Espmod.Lib.Debounce — levels that count once they have been held

A sampled input goes through a filter that lets a level pass when it has been held for a number of
cycles. `Debounce` remembers the level of the last sample, for how many cycles it has been held, and the
level that was last let through; `next_held` says what becomes of a level that is held for a while.
-/
import Mathlib.Tactic.Common

namespace Espmod.Lib

universe u

/-- The filter of an input with levels in `α`. -/
structure Debounce (α : Type u) where
  level : α
  held : Nat
  out : α
deriving Repr, DecidableEq

namespace Debounce

variable {α : Type u} [DecidableEq α]

/-- An input that has always been at `v`. -/
def init (v : α) : Debounce α := ⟨v, 0, v⟩

/-- One sample: the level passes when it has been held for `T` cycles. -/
def next (T : Nat) (v : α) (d : Debounce α) : Debounce α :=
  let held := if v = d.level then d.held + 1 else 0
  ⟨v, held, if T ≤ held then v else d.out⟩

/-- The sample lets a new level through. -/
def Passes (T : Nat) (v : α) (d : Debounce α) : Prop := (d.next T v).out ≠ d.out

instance (T : Nat) (v : α) (d : Debounce α) : Decidable (d.Passes T v) :=
  inferInstanceAs (Decidable (_ ≠ _))

variable {T : Nat} {v : α} {d : Debounce α}

@[simp] theorem level_next : (d.next T v).level = v := rfl

theorem held_next : (d.next T v).held = if v = d.level then d.held + 1 else 0 := rfl

theorem out_next : (d.next T v).out = if T ≤ (d.next T v).held then v else d.out := rfl

/-- A level passes when it has been held for `T` cycles and is not the one that passed last. -/
theorem passes_iff : d.Passes T v ↔ T ≤ (d.next T v).held ∧ v ≠ d.out := by
  unfold Passes
  rw [out_next]
  split
  · next hle => exact ⟨fun h => ⟨hle, h⟩, fun h => h.2⟩
  · next hlt => exact ⟨fun h => absurd rfl h, fun h => absurd h.1 hlt⟩

/-- What is not let through has not been held long enough. -/
theorem held_lt (h : (d.next T v).out ≠ v) : (d.next T v).held < T := by
  by_contra hge
  exact h (by rw [out_next, if_pos (Nat.le_of_not_lt hge)])

/-- A level that is sampled `n` more times after its first sample. -/
theorem next_held (hv : v ≠ d.level) (n : Nat) :
    (List.replicate (n + 1) v).foldl (fun d v => d.next T v) d =
      ⟨v, n, if T ≤ n then v else d.out⟩ := by
  induction n with
  | zero =>
    show d.next T v = _
    unfold next
    rw [if_neg hv]
  | succ n ih =>
    rw [List.replicate_succ', List.foldl_append, ih]
    show (⟨v, n, if T ≤ n then v else d.out⟩ : Debounce α).next T v = _
    unfold next
    by_cases hle : T ≤ n
    · have hle' : T ≤ n + 1 := Nat.le_succ_of_le hle
      simp [hle']
    · simp [hle]

end Debounce

end Espmod.Lib
