/-
# Espmod.Lib.Follower — a thread that copies selected inputs to its outputs

A multiplexer modelled as a thread: it reads the inputs its lanes select, writes them out, and sleeps
until a selection is announced or one of the inputs it went to sleep on changes. A follower that has
nothing pending shows the selected inputs. `Follows` is the invariant and each thing that can happen
keeps it: a selection that is announced, a change of an input, and the thread's own turn.
-/
import Mathlib.Tactic.Common
import Mathlib.Data.Fintype.Basic

namespace Espmod.Lib

universe u v w

/-- Lanes `κ` over inputs `ι` with levels in `α`. `watched` is what the thread sleeps on. -/
structure Follower (κ : Type u) (ι : Type v) (α : Type w) where
  sel : κ → ι
  out : κ → α
  watched : κ → ι
  pending : Bool

namespace Follower

variable {κ : Type u} {ι : Type v} {α : Type w}

/-- The thread's turn. -/
def run (level : ι → α) (f : Follower κ ι α) : Follower κ ι α :=
  if f.pending then
    { f with out := fun k => level (f.sel k), watched := f.sel, pending := false }
  else f

/-- A new selection for one lane, announced to the thread. -/
def select [DecidableEq κ] (k : κ) (i : ι) (f : Follower κ ι α) : Follower κ ι α :=
  { f with sel := fun j => if j = k then i else f.sel j, pending := true }

/-- The announcement alone. -/
def wake (f : Follower κ ι α) : Follower κ ι α := { f with pending := true }

/-- Input `i` has changed. -/
def inputChanged [Fintype κ] [DecidableEq ι] (i : ι) (f : Follower κ ι α) : Follower κ ι α :=
  { f with pending := f.pending || decide (∃ k, f.watched k = i) }

@[simp] theorem sel_run (level : ι → α) (f : Follower κ ι α) : (f.run level).sel = f.sel := by
  unfold run
  split <;> rfl

@[simp] theorem sel_inputChanged [Fintype κ] [DecidableEq ι] (i : ι) (f : Follower κ ι α) :
    (f.inputChanged i).sel = f.sel := rfl

@[simp] theorem sel_wake (f : Follower κ ι α) : f.wake.sel = f.sel := rfl

/-- Asleep, the thread watches what it selects and shows its levels. -/
def Follows (level : ι → α) (f : Follower κ ι α) : Prop :=
  f.pending = false → f.watched = f.sel ∧ ∀ k, f.out k = level (f.sel k)

theorem follows_of_pending {level : ι → α} {f : Follower κ ι α} (h : f.pending = true) :
    Follows level f := by
  intro hp
  rw [h] at hp
  cases hp

theorem Follows.run {level : ι → α} {f : Follower κ ι α} (h : Follows level f) :
    Follows level (f.run level) := by
  unfold Follower.run
  split
  · intro _
    exact ⟨rfl, fun _ => rfl⟩
  · exact h

/-- A change of one input level, seen or not. -/
theorem Follows.inputChanged [Fintype κ] [DecidableEq ι] {level level' : ι → α} {i : ι}
    {f : Follower κ ι α} (h : Follows level f) (hlevel : ∀ j, j ≠ i → level' j = level j) :
    Follows level' (f.inputChanged i) := by
  intro hp
  obtain ⟨hnp, hnw⟩ : f.pending = false ∧ ¬ ∃ k, f.watched k = i := by
    simpa [Follower.inputChanged] using hp
  obtain ⟨hw, hout⟩ := h hnp
  refine ⟨hw, fun k => ?_⟩
  show f.out k = level' (f.sel k)
  rw [hlevel, hout]
  intro heq
  apply hnw
  exact ⟨k, by rw [hw, heq]⟩

end Follower

end Espmod.Lib
