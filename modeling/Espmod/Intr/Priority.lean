/-
# Espmod.Intr.Priority — the order of the interrupt lines

`get_next` is a chain of 32 tests, written in the order of the lines' levels; the levels themselves stand
in `int_desc`, the table of the interrupt allocator. Each line is tested once, and the order of the tests
is that of the table. So the first test that succeeds is at a line of the highest level that is pending.

Lines are of three kinds. The NMI is pending while it is asserted, a line of a timer, of the profiler or
of software when it has risen since the last look, and any other line is one or the other as the edge mask
says.
-/
import Espmod.Intr.Drivers

namespace Espmod.Intr

/-! ## §1 — the levels -/

/-- The levels of `int_desc`, from line 0 to line 31. -/
def intDescLevels : List Nat :=
  [1, 1, 1, 1, 1, 1, 1, 1,
    1, 1, 1, 3, 1, 1, 7, 3,
    5, 1, 1, 2, 2, 2, 3, 3,
    4, 4, 5, 3, 4, 3, 4, 5]

def intDescLevel (n : Nat) : Nat := intDescLevels.getD n 0

/-- The timer, software and profiling lines. -/
def timerLines : List Nat := [6, 7, 11, 15, 16, 29]

def kindOf (n : Nat) : LineKind :=
  if n = 14 then .nmi else if n ∈ timerLines then .timer else .masked

/-- **A line that is pending**, by the word, the word at the last look, and the edge mask. -/
def Pending (edgemask now last : BitVec 32) (n : Nat) : Prop :=
  now.getLsbD n = true ∧
    (n = 14 ∨ n ∈ timerLines ∧ last.getLsbD n = false ∨
      n ≠ 14 ∧ n ∉ timerLines ∧ (edgemask.getLsbD n = false ∨ last.getLsbD n = false))

/-! ## §2 — the chain of tests -/

/-- Every line is tested, under its own kind. -/
theorem mem_priorities : ∀ n < 32, (n, kindOf n) ∈ priorities := by decide

theorem priorities_kind : ∀ p ∈ priorities, p.1 < 32 ∧ p.2 = kindOf p.1 := by decide

/-- The tests go down the levels. -/
theorem priorities_levels :
    priorities.Pairwise fun p q => intDescLevel q.1 ≤ intDescLevel p.1 := by decide

/-- The first element that meets a test, in a list that is ordered: every other one that meets it stands
behind it. -/
theorem find?_first {α : Type} {R : α → α → Prop} {p : α → Bool} {l : List α} {a : α}
    (hl : l.Pairwise R) (ha : l.find? p = some a) : ∀ b ∈ l, p b = true → b = a ∨ R a b := by
  obtain ⟨_, before, after, rfl, hbefore⟩ := List.find?_eq_some_iff_append.mp ha
  intro b hb hpb
  rcases List.mem_append.mp hb with hmem | hmem
  · have hno := hbefore b hmem
    rw [hpb] at hno
    cases hno
  · rcases List.mem_cons.mp hmem with rfl | hmem
    · exact Or.inl rfl
    · have htail := (List.pairwise_append.mp hl).2.1
      exact Or.inr (List.rel_of_pairwise_cons htail hmem)

/-! ## §3 — the tests -/

variable {edgemask now last : BitVec 32} {n : Nat}

/-- A test looks at one bit. -/
theorem and_shift_ne_zero (w : BitVec 32) (hn : n < 32) :
    (w &&& ((1 : BitVec 32) <<< n) != 0) = w.getLsbD n := by
  rw [show (1 : BitVec 32) <<< n = BitVec.twoPow 32 n from rfl, BitVec.and_twoPow]
  cases w.getLsbD n with
  | true =>
    refine bne_iff_ne.mpr fun hzero => ?_
    have hbit := congrArg (fun v : BitVec 32 => v.getLsbD n) hzero
    simp [hn] at hbit
  | false => rfl

/-- The word of a line's kind has the bit of a line exactly when the line is pending. -/
theorem word_pending (hn : n < 32) :
    ((kindOf n).word edgemask now last).getLsbD n = true ↔ Pending edgemask now last n := by
  unfold kindOf Pending
  by_cases hnmi : n = 14
  · rw [if_pos hnmi]
    simp [LineKind.word, hnmi]
  · rw [if_neg hnmi]
    by_cases htimer : n ∈ timerLines
    · rw [if_pos htimer]
      simp [LineKind.word, hnmi, htimer, hn]
    · rw [if_neg htimer]
      simp only [LineKind.word, BitVec.getLsbD_and, BitVec.getLsbD_not, BitVec.getLsbD_or, hn]
      cases now.getLsbD n <;> cases last.getLsbD n <;> cases edgemask.getLsbD n <;> simp [hnmi, htimer]

theorem pending_lt (h : Pending edgemask now last n) : n < 32 := by
  by_contra hge
  have hclear := BitVec.getLsbD_of_ge now n (Nat.le_of_not_lt hge)
  rw [h.1] at hclear
  cases hclear

/-- The test of a line. -/
def tested (edgemask now last : BitVec 32) (p : Nat × LineKind) : Bool :=
  p.2.word edgemask now last &&& ((1 : BitVec 32) <<< p.1) != 0

theorem tested_iff {p : Nat × LineKind} (hp : p ∈ priorities) :
    tested edgemask now last p = true ↔ Pending edgemask now last p.1 := by
  obtain ⟨hn, hkind⟩ := priorities_kind p hp
  unfold tested
  rw [and_shift_ne_zero _ hn, hkind]
  exact word_pending hn

/-- **The choice of a line**: for every three words, −1 exactly when no line is pending, and otherwise a
pending line of the highest level there is. -/
theorem getNext_highest (edgemask now last : BitVec 32) :
    (getNext edgemask now last = none ↔ ∀ n, ¬ Pending edgemask now last n) ∧
      ∀ n, getNext edgemask now last = some n → Pending edgemask now last n ∧
        ∀ m, Pending edgemask now last m → intDescLevel m ≤ intDescLevel n := by
  have hfind : getNext edgemask now last =
      (priorities.find? (tested edgemask now last)).map Prod.fst := rfl
  have hentry : ∀ m, Pending edgemask now last m → tested edgemask now last (m, kindOf m) = true :=
    fun m hm => (tested_iff (mem_priorities m (pending_lt hm))).mpr hm
  constructor
  · rw [hfind, Option.map_eq_none_iff, List.find?_eq_none]
    constructor
    · intro hnone n hn
      exact hnone _ (mem_priorities n (pending_lt hn)) (hentry n hn)
    · intro hnone p hp htest
      exact hnone p.1 ((tested_iff hp).mp htest)
  · intro n hsome
    rw [hfind, Option.map_eq_some_iff] at hsome
    obtain ⟨p, hp, rfl⟩ := hsome
    have hmem := List.mem_of_find?_eq_some hp
    refine ⟨(tested_iff hmem).mp (List.find?_some hp), fun m hm => ?_⟩
    rcases find?_first priorities_levels hp _ (mem_priorities m (pending_lt hm)) (hentry m hm) with
      heq | hle
    · exact Nat.le_of_eq (congrArg (fun q : Nat × LineKind => intDescLevel q.1) heq)
    · exact hle

/-- Line 31 before line 24, and an edge line that has not risen not at all. -/
example : getNext 0x80000000 0x81000000 0x80000000 = some 24 := by decide

end Espmod.Intr
