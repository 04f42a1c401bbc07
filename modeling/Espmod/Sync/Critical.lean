/-
# Espmod.Sync.Critical — critical sections on a semaphore

`portENTER_CRITICAL` is a `trywait` whose result nobody looks at, and `portEXIT_CRITICAL` is a `post`. So
an entry that finds the semaphore taken goes in all the same, and its exit gives back what it never
took.

Every entry that finds the semaphore free keeps the sum of its value and the number of open brackets at
one, which is what exclusion rests on. An entry that finds it taken raises the sum for good: once all
brackets are closed, it shows in the value.
-/
import Espmod.Lib.Run

namespace Espmod.Sync

open Espmod.Lib

/-! ## §1 — the semaphore -/

/-- `sc_semaphore`: its value, and whether `m_free` has been notified in this delta cycle. -/
structure ScSemaphore where
  value : Int
  free : Bool
deriving Repr, DecidableEq

namespace ScSemaphore

/-- `in_use`. -/
def InUse (m : ScSemaphore) : Prop := m.value ≤ 0

instance (m : ScSemaphore) : Decidable m.InUse := inferInstanceAs (Decidable (_ ≤ _))

/-- `trywait`, with its result. -/
def trywait (m : ScSemaphore) : ScSemaphore × Int :=
  if m.InUse then (m, -1) else ({ m with value := m.value - 1 }, 0)

/-- `post`. -/
def post (m : ScSemaphore) : ScSemaphore := { value := m.value + 1, free := true }

end ScSemaphore

/-! ## §2 — bracketed code -/

/-- What a thread does, as far as a semaphore is concerned: it enters or leaves a section, or it
waits. -/
inductive CriticalOp where
  | enter
  | exit
  | wait
deriving Repr, DecidableEq

/-- Every exit has its entry and every entry its exit, with `d` brackets open at the start. -/
def Matched : Nat → List CriticalOp → Prop
  | d, [] => d = 0
  | d, .enter :: ops => Matched (d + 1) ops
  | d, .exit :: ops => 0 < d ∧ Matched (d - 1) ops
  | d, .wait :: ops => Matched d ops

instance decidableMatched : ∀ (d : Nat) (ops : List CriticalOp), Decidable (Matched d ops)
  | d, [] => inferInstanceAs (Decidable (d = 0))
  | d, .enter :: ops => decidableMatched (d + 1) ops
  | d, .exit :: ops =>
    @instDecidableAnd _ _ (inferInstanceAs (Decidable (0 < d))) (decidableMatched (d - 1) ops)
  | d, .wait :: ops => decidableMatched d ops

/-- `pcnt_counter_pause`, `pcnt_counter_resume`, `pcnt_intr_enable` and `pcnt_intr_disable`: the struct
is pushed, with a wait, inside a section of `pcnt_spinlock`. -/
def pcntPushSection : List CriticalOp := [.enter, .wait, .exit]

/-- `pcnt_isr_handler_add` disables and enables the interrupt inside a section of its own. -/
def pcntIsrHandlerAdd : List CriticalOp := [CriticalOp.enter] ++ pcntPushSection ++ pcntPushSection ++ [CriticalOp.exit]

/-! ## §3 — threads -/

variable {T : Type} [DecidableEq T]

/-- A semaphore and the threads that use it. -/
structure Sections (T : Type) where
  sem : ScSemaphore
  /-- the open brackets, by the threads that opened them -/
  inside : List T
  /-- what each thread has still to do -/
  todo : T → List CriticalOp

namespace Sections

/-- The semaphore is created with the value 1. -/
def new : Sections T := ⟨⟨1, false⟩, [], fun _ => []⟩

/-- A thread begins bracketed code, or takes its next step. -/
inductive SectionEvent (T : Type) where
  | call (t : T) (ops : List CriticalOp)
  | op (t : T)

/-- A thread does the first of what it has to do. -/
def act (t : T) (s : Sections T) : List CriticalOp → Sections T
  | [] => s
  | .enter :: rest =>
    { sem := s.sem.trywait.1
      inside := t :: s.inside
      todo := fun t' => if t' = t then rest else s.todo t' }
  | .exit :: rest =>
    { sem := s.sem.post
      inside := s.inside.erase t
      todo := fun t' => if t' = t then rest else s.todo t' }
  | .wait :: rest => { s with todo := fun t' => if t' = t then rest else s.todo t' }

/-- The threads may interleave at every step, their waits among them. -/
def step (s : Sections T) : SectionEvent T → Sections T
  | .call t ops =>
    if s.todo t = [] ∧ Matched 0 ops then
      { s with todo := fun t' => if t' = t then ops else s.todo t' }
    else s
  | .op t => s.act t (s.todo t)

/-- **Exclusion**: at most one thread is inside, and the value never exceeds 1. -/
structure Excludes (s : Sections T) : Prop where
  one : ∀ t ∈ s.inside, ∀ t' ∈ s.inside, t = t'
  value : s.sem.value ≤ 1

/-- An entry finds the semaphore free. -/
def FindsFree (s : Sections T) : SectionEvent T → Prop
  | .op t => (s.todo t).head? = some .enter → ¬ s.sem.InUse
  | .call _ _ => True

/-! ## §4 — the account -/

/-- The value and the open brackets together. -/
def sum (s : Sections T) : Int := s.sem.value + s.inside.length

/-- What a thread has still to do closes the brackets that it has opened. -/
def Bracketed (s : Sections T) : Prop := ∀ t, Matched (s.inside.count t) (s.todo t)

variable {s : Sections T}

theorem step_op (s : Sections T) (t : T) : s.step (.op t) = s.act t (s.todo t) := rfl

theorem bracketed_new : Bracketed (new : Sections T) := fun _ => rfl

/-- What the other threads have to do, and have opened, stays. -/
theorem Bracketed.update (h : Bracketed s) {s' : Sections T} (t : T) {rest : List CriticalOp}
    (htodo : s'.todo = fun t' => if t' = t then rest else s.todo t')
    (hother : ∀ t', t' ≠ t → s'.inside.count t' = s.inside.count t')
    (hown : Matched (s'.inside.count t) rest) : Bracketed s' := by
  intro t'
  rw [htodo]
  dsimp only
  by_cases ht : t' = t
  · subst ht
    rw [if_pos rfl]
    exact hown
  · rw [if_neg ht, hother t' ht]
    exact h t'

/-- What a step does to the account: an entry that finds the semaphore taken raises the sum by one,
and every other step leaves it. -/
structure Accounts (s : Sections T) (e : SectionEvent T) : Prop where
  bracketed : Bracketed (s.step e)
  taken : FindsFree s e → (s.step e).sum = s.sum ∧ (0 ≤ s.sem.value → 0 ≤ (s.step e).sem.value)
  overrun : ¬ FindsFree s e → (s.step e).sum = s.sum + 1

/-- A step that leaves the semaphore and the brackets alone. -/
theorem accounts_same {e : SectionEvent T} (hb : Bracketed (s.step e)) (hok : FindsFree s e)
    (hsem : (s.step e).sem = s.sem) (hin : (s.step e).inside = s.inside) : Accounts s e where
  bracketed := hb
  taken _ := by
    unfold sum
    rw [hsem, hin]
    exact ⟨rfl, id⟩
  overrun hno := absurd hok hno

theorem Bracketed.enters (h : Bracketed s) {t : T} {rest : List CriticalOp}
    (htodo : s.todo t = .enter :: rest) : Accounts s (.op t) := by
  have hs : s.step (.op t) =
      { sem := s.sem.trywait.1
        inside := t :: s.inside
        todo := fun t' => if t' = t then rest else s.todo t' } := by
    rw [step_op, htodo]
    rfl
  have hmatched := h t
  rw [htodo] at hmatched
  have hlength : ((t :: s.inside).length : Int) = s.inside.length + 1 := by simp
  refine ⟨?_, ?_, ?_⟩ <;> rw [hs]
  · refine h.update t rfl ?_ ?_
    · intro t' ht
      exact List.count_cons_of_ne (Ne.symm ht)
    · rw [List.count_cons_self]
      exact hmatched
  · intro hfree
    -- the semaphore is taken: one less, and one bracket more
    have hno : ¬ s.sem.InUse := hfree (by rw [htodo]; rfl)
    have hpos : ¬ s.sem.value ≤ 0 := hno
    have htry : s.sem.trywait.1 = { s.sem with value := s.sem.value - 1 } := by
      unfold ScSemaphore.trywait
      rw [if_neg hno]
    unfold sum
    dsimp only
    rw [htry, hlength]
    dsimp only
    constructor
    · omega
    · intro _
      omega
  · intro hfound
    -- the entry takes nothing and goes on as if it had
    have huse : s.sem.InUse := by
      by_contra hno
      exact hfound fun _ => hno
    have htry : s.sem.trywait.1 = s.sem := by
      unfold ScSemaphore.trywait
      rw [if_pos huse]
    unfold sum
    dsimp only
    rw [htry, hlength]
    omega

theorem Bracketed.exits (h : Bracketed s) {t : T} {rest : List CriticalOp}
    (htodo : s.todo t = .exit :: rest) : Accounts s (.op t) := by
  have hs : s.step (.op t) =
      { sem := s.sem.post
        inside := s.inside.erase t
        todo := fun t' => if t' = t then rest else s.todo t' } := by
    rw [step_op, htodo]
    rfl
  have hmatched := h t
  rw [htodo] at hmatched
  obtain ⟨hopen, hrest⟩ := hmatched
  have hmem : t ∈ s.inside := List.count_pos_iff.mp hopen
  have hfree : FindsFree s (.op t) := by
    intro hhead
    rw [htodo] at hhead
    cases hhead
  refine ⟨?_, ?_, fun hno => absurd hfree hno⟩ <;> rw [hs]
  · refine h.update t rfl ?_ ?_
    · intro t' ht
      exact List.count_erase_of_ne ht
    · rw [List.count_erase_self]
      exact hrest
  · intro _
    have hlength := List.length_erase_of_mem hmem
    have hpos := List.length_pos_of_mem hmem
    unfold sum ScSemaphore.post
    dsimp only
    constructor
    · omega
    · intro hvalue
      omega

theorem Bracketed.calls (h : Bracketed s) (t : T) (ops : List CriticalOp) :
    Accounts s (.call t ops) := by
  have hs : s.step (.call t ops) = if s.todo t = [] ∧ Matched 0 ops then
      { s with todo := fun t' => if t' = t then ops else s.todo t' } else s := rfl
  by_cases hgo : s.todo t = [] ∧ Matched 0 ops
  · rw [if_pos hgo] at hs
    refine accounts_same ?_ trivial ?_ ?_ <;> rw [hs]
    -- a thread with nothing to do has no bracket open
    have hclosed : s.inside.count t = 0 := by
      have hmatched := h t
      rw [hgo.1] at hmatched
      exact hmatched
    refine h.update t rfl (fun _ _ => rfl) ?_
    rw [hclosed]
    exact hgo.2
  · rw [if_neg hgo] at hs
    refine accounts_same ?_ trivial ?_ ?_ <;> rw [hs]
    exact h

/-- **One step.** -/
theorem Bracketed.step (h : Bracketed s) (e : SectionEvent T) : Accounts s e := by
  cases e with
  | call t ops => exact h.calls t ops
  | op t =>
    cases htodo : s.todo t with
    | nil =>
      have hs : s.step (.op t) = s := by
        rw [step_op, htodo]
        rfl
      refine accounts_same ?_ ?_ ?_ ?_
      · rw [hs]
        exact h
      · intro hhead
        rw [htodo] at hhead
        cases hhead
      all_goals rw [hs]
    | cons op rest =>
      cases op with
      | enter => exact h.enters htodo
      | exit => exact h.exits htodo
      | wait =>
        have hs : s.step (.op t) =
            { s with todo := fun t' => if t' = t then rest else s.todo t' } := by
          rw [step_op, htodo]
          rfl
        have hmatched := h t
        rw [htodo] at hmatched
        refine accounts_same ?_ ?_ ?_ ?_
        · rw [hs]
          exact h.update t rfl (fun _ _ => rfl) hmatched
        · intro hhead
          rw [htodo] at hhead
          cases hhead
        all_goals rw [hs]

/-! ## §5 — runs -/

omit [DecidableEq T] in
/-- With a sum of one and a value that is not negative, at most one bracket is open. -/
theorem excludes_of_sum (hsum : s.sum = 1) (hvalue : 0 ≤ s.sem.value) : Excludes s := by
  have hsum : s.sem.value + s.inside.length = 1 := hsum
  refine ⟨?_, by omega⟩
  have hlength : s.inside.length ≤ 1 := by omega
  intro t ht t' ht'
  match hin : s.inside with
  | [] =>
    rw [hin] at ht
    cases ht
  | [a] =>
    rw [hin, List.mem_singleton] at ht ht'
    rw [ht, ht']
  | a :: b :: rest =>
    rw [hin] at hlength
    simp at hlength

/-- **Critical sections.** For any number of threads that run any bracketed code, in every
interleaving: if every entry finds the semaphore free, at most one thread is inside at every point and
the value never exceeds 1; and in a run that ends with all brackets closed, this is the only way. -/
theorem sections_exclude (es : List (SectionEvent T)) :
    (Throughout FindsFree step (new : Sections T) es →
      Always (fun _ s => Excludes s) step [] (new : Sections T) es) ∧
    ((es.foldl step (new : Sections T)).inside = [] →
      Always (fun _ s => Excludes s) step [] (new : Sections T) es →
        Throughout FindsFree step (new : Sections T) es) := by
  constructor
  · refine always_of_throughout
      (I := fun _ s => Bracketed s ∧ s.sum = 1 ∧ 0 ≤ s.sem.value) ?_ ?_ es [] _ ?_
    · intro _ s h
      exact excludes_of_sum h.2.1 h.2.2
    · intro _ s e h hok
      have hacc := h.1.step e
      obtain ⟨hsum, hvalue⟩ := hacc.taken hok
      exact ⟨hacc.bracketed, hsum.trans h.2.1, hvalue h.2.2⟩
    · exact ⟨bracketed_new, rfl, (by decide : (0 : Int) ≤ 1)⟩
  · intro hclosed halways
    have hend : (es.foldl step (new : Sections T)).sum ≤ (new : Sections T).sum := by
      have hvalue := halways.last.value
      unfold sum
      rw [hclosed]
      show _ ≤ (1 : Int)
      simpa using hvalue
    refine throughout_of_measure (I := Bracketed) (q := sum) ?_ ?_ ?_ es _ bracketed_new hend
    · intro s e h
      exact (h.step e).bracketed
    · intro s e h
      by_cases hok : FindsFree s e
      · exact Int.le_of_eq ((h.step e).taken hok).1.symm
      · have hup := (h.step e).overrun hok
        omega
    · intro s e h hbad
      have hup := (h.step e).overrun hbad
      omega

/-- Two threads push the struct and the second enters while the first waits; and one thread adds a
handler, which leaves the semaphore with the value 2. -/
theorem sections_overlap :
    ¬ Always (fun _ s => Excludes s) step [] (new : Sections Bool)
      [.call true pcntPushSection, .op true, .op true, .call false pcntPushSection, .op false] ∧
    ¬ Always (fun _ s => Excludes s) step [] (new : Sections Bool)
      (.call true pcntIsrHandlerAdd :: List.replicate 8 (.op true)) := by
  constructor
  · intro h
    have hone := h.last.one true (by decide) false (by decide)
    exact Bool.noConfusion hone
  · intro h
    have hvalue := h.last.value
    revert hvalue
    decide

end Sections

end Espmod.Sync
