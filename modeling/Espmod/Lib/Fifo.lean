/-
# Espmod.Lib.Fifo — bounded queues between two evaluation phases

A queue of a discrete-event simulator keeps its two sides apart until the phase is over: what has been
written since the last update cannot be read yet, and the place of what has been read is not free yet.
`content` is all it holds, in order; a read takes its head, a write adds to its end, and an update
leaves it alone.
-/
import Mathlib.Logic.Function.Iterate
import Mathlib.Tactic.Common

namespace Espmod.Lib

universe u

/-- A queue with its capacity. -/
structure Fifo (α : Type u) where
  size : Nat
  /-- what can be read -/
  ready : List α
  /-- what was written since the last update -/
  fresh : List α
  /-- how many were read since the last update -/
  taken : Nat
deriving Repr, DecidableEq

namespace Fifo

variable {α : Type u}

def init (size : Nat) : Fifo α := ⟨size, [], [], 0⟩

def numAvailable (f : Fifo α) : Nat := f.ready.length

def numFree (f : Fifo α) : Nat := f.size - (f.ready.length + f.taken) - f.fresh.length

def write (f : Fifo α) (a : α) : Fifo α := { f with fresh := f.fresh ++ [a] }

def read (f : Fifo α) : Fifo α := { f with ready := f.ready.tail, taken := f.taken + 1 }

def update (f : Fifo α) : Fifo α := ⟨f.size, f.ready ++ f.fresh, [], 0⟩

/-- All that is in the queue. -/
def content (f : Fifo α) : List α := f.ready ++ f.fresh

@[simp] theorem content_init (size : Nat) : (init size : Fifo α).content = [] := rfl

@[simp] theorem content_write (f : Fifo α) (a : α) : (f.write a).content = f.content ++ [a] := by
  simp [content, write]

@[simp] theorem content_update (f : Fifo α) : f.update.content = f.content := by
  simp [content, update]

/-- A read takes the head of the queue. -/
theorem content_read {f : Fifo α} {a : α} {as : List α} (h : f.ready = a :: as) :
    f.content = a :: f.read.content := by
  simp [content, read, h]

/-- The place of what is read is free in the next phase only. -/
theorem numFree_of_read {f : Fifo α} {a : α} {as : List α} (h : f.ready = a :: as) :
    f.read.numFree = f.numFree := by
  unfold numFree read
  rw [h, List.tail_cons, List.length_cons, Nat.add_assoc, Nat.add_comm f.taken 1]

/-- Many writes, one after the other. -/
@[simp] theorem content_writes (as : List α) (f : Fifo α) : (as.foldl write f).content = f.content ++ as := by
  induction as generalizing f with
  | nil => simp
  | cons a as ih => simp [ih]

/-- A queue of one, where it can be read. -/
theorem ready_of_content_singleton {f : Fifo α} {a b : α} {bs : List α} (h : f.content = [a])
    (hready : f.ready = b :: bs) : b = a ∧ bs = [] ∧ f.fresh = [] := by
  unfold content at h
  rw [hready, List.cons_append] at h
  injection h with hb hrest
  obtain ⟨hbs, hfresh⟩ := List.append_eq_nil_iff.mp hrest
  exact ⟨hb, hbs, hfresh⟩

/-- Reads as long as there is something to read. -/
theorem ready_drain (f : Fifo α) : (read^[f.numAvailable] f).ready = [] := by
  suffices h : ∀ (n : Nat) (f : Fifo α), f.ready.length = n → (read^[n] f).ready = [] from h _ f rfl
  intro n
  induction n with
  | zero => exact fun f hf => List.eq_nil_of_length_eq_zero hf
  | succ n ih =>
    intro f hf
    rw [Function.iterate_succ_apply]
    exact ih f.read (by simp [read, hf])

/-- Reads leave what was written since the last update. -/
theorem fresh_reads (n : Nat) (f : Fifo α) : (read^[n] f).fresh = f.fresh := by
  induction n generalizing f with
  | zero => rfl
  | succ n ih =>
    rw [Function.iterate_succ_apply]
    exact ih f.read

end Fifo

/-! ## Deliveries -/

/-- What is kept of a list of arrivals, each with whether there was room for it. -/
def kept {α : Type u} (arrivals : List (α × Bool)) : List α :=
  (arrivals.filter Prod.snd).map Prod.fst

@[simp] theorem kept_append_room {α : Type u} (arrivals : List (α × Bool)) (a : α) :
    kept (arrivals ++ [(a, true)]) = kept arrivals ++ [a] := by
  simp [kept]

@[simp] theorem kept_append_full {α : Type u} (arrivals : List (α × Bool)) (a : α) :
    kept (arrivals ++ [(a, false)]) = kept arrivals := by
  simp [kept]

end Espmod.Lib
