/-
# Espmod.Lib.Signal — values that change between two evaluation phases

A discrete-event simulator separates what a process reads from what it writes: during an evaluation
phase every read of a signal gives the value it had when the phase began, and the last value written
is installed by the update phase that follows. `Signal` keeps both values. A signal is `Quiet` when
no written value waits for an update.

A bank of signals is a family indexed by position; `patch` is one pass of a process that looks at the
present value of each position of the bank and may write a new one.
-/
import Mathlib.Tactic.Common

namespace Espmod.Lib

universe u v

/-- A signal: the value readers see, and the value the next update phase installs. -/
structure Signal (α : Type u) where
  cur : α
  next : α
deriving Repr, DecidableEq

namespace Signal

variable {α : Type u}

/-- A signal at rest at `a`. -/
def init (a : α) : Signal α := ⟨a, a⟩

/-- A write of the evaluation phase; the last one counts. -/
def write (s : Signal α) (a : α) : Signal α := { s with next := a }

/-- The update phase. -/
def update (s : Signal α) : Signal α := ⟨s.next, s.next⟩

/-- No value waits for the update phase. -/
def Quiet (s : Signal α) : Prop := s.next = s.cur

instance [DecidableEq α] (s : Signal α) : Decidable s.Quiet := inferInstanceAs (Decidable (_ = _))

@[simp] theorem cur_init (a : α) : (init a).cur = a := rfl

@[simp] theorem next_init (a : α) : (init a).next = a := rfl

@[simp] theorem cur_write (s : Signal α) (a : α) : (s.write a).cur = s.cur := rfl

@[simp] theorem next_write (s : Signal α) (a : α) : (s.write a).next = a := rfl

@[simp] theorem cur_update (s : Signal α) : s.update.cur = s.next := rfl

@[simp] theorem next_update (s : Signal α) : s.update.next = s.next := rfl

theorem quiet_update (s : Signal α) : s.update.Quiet := rfl

/-- An update phase for which no value waits. -/
theorem Quiet.update_eq {s : Signal α} (h : s.Quiet) : s.update = s := by
  show (⟨s.next, s.next⟩ : Signal α) = ⟨s.cur, s.next⟩
  rw [show s.next = s.cur from h]

/-! ## Banks -/

variable {ι : Type v}

/-- One pass over a bank: at each position `w` sees the present value and says what is written, if
anything is. -/
def patch (w : ι → α → Option α) (bank : ι → Signal α) (i : ι) : Signal α :=
  match w i (bank i).cur with
  | some a => (bank i).write a
  | none => bank i

@[simp] theorem cur_patch (w : ι → α → Option α) (bank : ι → Signal α) (i : ι) :
    (patch w bank i).cur = (bank i).cur := by
  unfold patch
  split <;> rfl

/-- What the update phase finds at a position after a pass. -/
theorem next_patch (w : ι → α → Option α) (bank : ι → Signal α) (i : ι) :
    (patch w bank i).next = (w i (bank i).cur).getD (bank i).next := by
  unfold patch
  split
  next a h => rw [h]; rfl
  next h => rw [h]; rfl

end Signal

end Espmod.Lib
