/-
# Espmod.Lib.Window — reading a window of a list that is written in windows

A buffer is filled by `overlay`, one window after the other, and read through a window of its own. What is
read is what was written there last, and the windows beside it do not matter.
-/
import Espmod.Lib.Words

namespace Espmod.Lib.Window

open Espmod.Lib.Words

variable {α : Type} {l ws : List α} {k m n : Nat}

/-- The `n` entries from `k` on. -/
def window (l : List α) (k n : Nat) : List α := (l.drop k).take n

@[simp] theorem window_zero (l : List α) (k : Nat) : window l k 0 = [] := by
  simp [window]

theorem window_length (h : k + n ≤ l.length) : (window l k n).length = n := by
  simp only [window, List.length_take, List.length_drop]
  omega

/-- A window is what two windows that share an end are together. -/
theorem window_add (l : List α) (k m n : Nat) :
    window l k (m + n) = window l k m ++ window l (k + m) n := by
  simp only [window]
  rw [List.take_add, List.drop_drop]

theorem getElem?_window (l : List α) (k n j : Nat) :
    (window l k n)[j]? = if j < n then l[k + j]? else none := by
  simp only [window, List.getElem?_take, List.getElem?_drop]

/-- What was just written. -/
theorem window_overlay (h : k + ws.length ≤ l.length) :
    window (overlay l k ws) k ws.length = ws := by
  apply List.ext_getElem?
  intro j
  rw [getElem?_window, getElem?_overlay h]
  by_cases hj : j < ws.length
  · rw [if_pos hj, if_pos (by omega), Nat.add_sub_cancel_left]
  · rw [if_neg hj, List.getElem?_eq_none (by omega)]

/-- What stands in front of what was written. -/
theorem window_overlay_before (h : k + ws.length ≤ l.length) (hm : m + n ≤ k) :
    window (overlay l k ws) m n = window l m n := by
  apply List.ext_getElem?
  intro j
  rw [getElem?_window, getElem?_window, getElem?_overlay h]
  by_cases hj : j < n
  · rw [if_pos hj, if_pos hj, if_neg (by omega)]
  · rw [if_neg hj, if_neg hj]

/-- What stands behind it. -/
theorem window_overlay_behind (h : k + ws.length ≤ l.length) (hm : k + ws.length ≤ m) :
    window (overlay l k ws) m n = window l m n := by
  apply List.ext_getElem?
  intro j
  rw [getElem?_window, getElem?_window, getElem?_overlay h]
  by_cases hj : j < n
  · rw [if_pos hj, if_pos hj, if_neg (by omega)]
  · rw [if_neg hj, if_neg hj]

/-- The window that ends where the writing begins grows by what is written. -/
theorem window_append (h : k + m + ws.length ≤ l.length) :
    window (overlay l (k + m) ws) k (m + ws.length) = window l k m ++ ws := by
  rw [window_add, window_overlay_before h (Nat.le_refl _), window_overlay h]

/-- The window that begins where the writing ends has what is written in front. -/
theorem window_prepend (h : k + ws.length ≤ l.length) :
    window (overlay l k ws) k (ws.length + n) = ws ++ window l (k + ws.length) n := by
  rw [window_add, window_overlay h, window_overlay_behind h (Nat.le_refl _)]

/-- A change of one entry, seen through the window. -/
theorem window_modify (l : List α) (k n i : Nat) (f : α → α) :
    window (l.modify (k + i) f) k n = (window l k n).modify i f := by
  apply List.ext_getElem?
  intro j
  rw [getElem?_window, List.getElem?_modify, List.getElem?_modify, getElem?_window]
  by_cases hj : j < n
  · rw [if_pos hj, if_pos hj]
    simp only [Nat.add_left_cancel_iff]
  · rw [if_neg hj, if_neg hj]
    rfl

end Espmod.Lib.Window
