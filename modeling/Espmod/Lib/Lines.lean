/-
# Espmod.Lib.Lines — lines that end with two characters

A scanner for lines ended by `cr` and `lf` holds a `cr` back until it has seen what follows it. `next`
is what it does with a character: nothing when the line ends, else the text it lets through and whether
it holds a `cr` back. Over the text up to the first `cr` `lf` it lets through that text (`scan_line`).
-/
import Mathlib.Data.List.Infix
import Mathlib.Tactic.Common

namespace Espmod.Lib.Lines

variable {α : Type} [DecidableEq α] {cr lf c : α} {bs text rest : List α} {held : Bool}

/-- One character; `held` says whether a `cr` is held back. -/
def next (cr lf : α) (held : Bool) (c : α) : Option (List α × Bool) :=
  if c = lf ∧ held then none
  else some ((if held then [cr] else []) ++ (if c = cr then [] else [c]), c = cr)

/-- The text up to the end of the line, and what follows; `none` when the line does not end. -/
def scan (cr lf : α) : Bool → List α → Option (List α × List α)
  | _, [] => none
  | held, c :: bs =>
    match next cr lf held c with
    | none => some ([], bs)
    | some (text, held) => (scan cr lf held bs).map fun r => (text ++ r.1, r.2)

/-- The character that ends the line. -/
theorem scan_end (h : next cr lf held c = none) (bs : List α) :
    scan cr lf held (c :: bs) = some ([], bs) := by
  rw [scan, h]

/-- Any other character: what it lets through comes first. -/
theorem scan_next {held' : Bool} (h : next cr lf held c = some (text, held')) (bs : List α) :
    scan cr lf held (c :: bs) = (scan cr lf held' bs).map fun r => (text ++ r.1, r.2) := by
  rw [scan, h]

/-- **The line ends at the first `cr` `lf`**, and everything before it is its text. -/
theorem scan_line (hne : cr ≠ lf) (rest : List α) : ∀ {line : List α} {held : Bool},
    ¬ [cr, lf] <:+: (if held then [cr] else []) ++ line →
    scan cr lf held (line ++ [cr, lf] ++ rest) = some ((if held then [cr] else []) ++ line, rest) := by
  intro line
  induction line with
  | nil =>
    intro held _
    have hcr : next cr lf held cr = some ((if held then [cr] else []) ++ [], true) := by
      rw [next, if_neg (by simp [hne]), if_pos rfl]
      simp
    have hlf : next cr lf true lf = none := by rw [next, if_pos ⟨rfl, rfl⟩]
    show scan cr lf held (cr :: lf :: rest) = _
    rw [scan_next hcr, scan_end hlf, Option.map_some, List.append_nil]
  | cons c line ih =>
    intro held hline
    have hgoes : ¬ (c = lf ∧ held = true) := by
      rintro ⟨rfl, rfl⟩
      exact hline ⟨[], line, rfl⟩
    have hnext : next cr lf held c =
        some ((if held then [cr] else []) ++ (if c = cr then [] else [c]), decide (c = cr)) := by
      rw [next, if_neg hgoes]
    have hrest : ¬ [cr, lf] <:+: (if decide (c = cr) = true then [cr] else []) ++ line := by
      intro hin
      refine hline (hin.trans ⟨(if held then [cr] else []) ++ (if c = cr then [] else [c]), [], ?_⟩)
      by_cases hc : c = cr <;> simp [hc]
    rw [List.cons_append, List.cons_append, scan_next hnext, ih hrest, Option.map_some]
    by_cases hc : c = cr <;> simp [hc]

end Espmod.Lib.Lines
