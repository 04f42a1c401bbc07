/-
# Espmod.Sync.Semaphore — FreeRTOS semaphores with a block time

`xSemaphoreTake` waits on a `gn_semaphore`, for ever or for a block time. The timed wait loops while the
semaphore is in use, each time for the whole block time or until a give, and then looks whether the
give came in this delta cycle.

The value is always what the gives and the successful takes make it. But the loop has no other way out
than the semaphore becoming available, so a timed take never times out; and on a semaphore that is
available from the start the last look fails, unless it has just been given. Takes behave exactly as
long as no timed take comes to either.
-/
import Espmod.Sync.Critical

namespace Espmod.Sync

open Espmod.Lib

/-! ## §1 — the waits -/

def portTickPeriodMs : Nat := 1

/-- Nanoseconds in a millisecond. -/
def scMs : Nat := 1000000

/-- The timeout of `xSemaphoreTake`; a negative block time has none. -/
def timeoutOf (xBlockTime : Int) : Option Nat :=
  if xBlockTime < 0 then none else some (xBlockTime.toNat / portTickPeriodMs * scMs)

/-- `sc_semaphore::wait` and `gn_semaphore::wait(timeout)` from the test of their loop on: the thread
has to wait, or it goes on with the semaphore taken or not. -/
def ScSemaphore.attempt (timeout : Option Nat) (m : ScSemaphore) : Option (ScSemaphore × Bool) :=
  if m.InUse then none
  else
    match timeout with
    | none => some ({ m with value := m.value - 1 }, true)
    | some _ => if m.free then some ({ m with value := m.value - 1 }, true) else some (m, false)

/-- A take in progress. -/
structure Take where
  timeout : Option Nat
  /-- when it began -/
  since : Nat
  /-- when its present wait for `m_free` times out -/
  due : Option Nat
  /-- the wait is over, and the thread has not run since -/
  woken : Bool
  /-- the block time has passed in a wait -/
  expired : Bool
deriving Repr, DecidableEq

/-- A take waits, from now on. -/
def Take.suspend (now : Nat) (k : Take) : Take :=
  { k with due := k.timeout.map (now + ·), woken := false }

/-- A wait whose time has come is over. -/
def Take.fire (now : Nat) (k : Take) : Take :=
  if k.due = some now then { k with woken := true, expired := true } else k

theorem Take.fire_frame (k : Take) (now : Nat) :
    (k.fire now).timeout = k.timeout ∧ (k.fire now).since = k.since := by
  unfold Take.fire
  split
  · exact ⟨rfl, rfl⟩
  · exact ⟨rfl, rfl⟩

/-- The semaphore and the threads that take it. -/
structure Takers (n : Nat) where
  sem : ScSemaphore
  now : Nat
  takes : Fin n → Option Take
  gives : Nat
  /-- the takes that returned `pdTRUE` -/
  taken : Nat
  /-- a take that found the semaphore available did not get it there and then -/
  denied : Bool

namespace Takers

variable {n : Nat}

def new (v : Nat) : Takers n := ⟨⟨v, false⟩, 0, fun _ => none, 0, 0, false⟩

inductive TakerEvent (n : Nat) where
  | take (t : Fin n) (xBlockTime : Int)
  | give
  | run (t : Fin n)
  | delta
  | advance (d : Nat)

/-- The take of `t` becomes `k`. -/
def set (t : Fin n) (k : Option Take) (s : Takers n) (t' : Fin n) : Option Take :=
  if t' = t then k else s.takes t'

/-- The thread `t` tries to take the semaphore: it waits in `k`, or returns. -/
def tries (t : Fin n) (k : Take) (s : Takers n) : Takers n :=
  match s.sem.attempt k.timeout with
  | none => { s with takes := s.set t (some (k.suspend s.now)) }
  | some (sem, ok) =>
    { s with
      sem := sem
      takes := s.set t none
      taken := s.taken + ok.toNat
      denied := s.denied || !ok }

/-- A thread is due. -/
def Busy (s : Takers n) : Prop := ∃ t ∈ List.finRange n, ∃ k ∈ s.takes t, k.woken = true

instance (s : Takers n) : Decidable s.Busy := by
  unfold Busy
  infer_instance

/-- A wait times out without time passing. -/
def Immediate (s : Takers n) : Prop := ∃ t ∈ List.finRange n, ∃ k ∈ s.takes t, k.due = some s.now

instance (s : Takers n) : Decidable s.Immediate := by
  unfold Immediate
  infer_instance

/-- The time after `d`, or at which the first wait times out. -/
def stop (d : Nat) (s : Takers n) : Nat :=
  ((List.finRange n).filterMap fun t => (s.takes t).bind Take.due).foldl min (s.now + d)

/-- What happens. A thread that is due runs before the delta cycle ends, and waits without a time are
over with the delta cycle. -/
def step (s : Takers n) : TakerEvent n → Takers n
  | .take t xBlockTime =>
    match s.takes t with
    | none => s.tries t ⟨timeoutOf xBlockTime, s.now, none, false, false⟩
    | some _ => s
  | .give =>
    { s with
      sem := s.sem.post
      takes := fun t => (s.takes t).map fun k => { k with woken := true }
      gives := s.gives + 1 }
  | .run t =>
    match s.takes t with
    | some k => if k.woken then s.tries t k else s
    | none => s
  | .delta =>
    if s.Busy then s
    else
      { s with
        sem := { s.sem with free := false }
        takes := fun t => (s.takes t).map (Take.fire s.now) }
  | .advance d =>
    if s.Busy ∨ s.Immediate then s
    else
      { s with
        sem := { s.sem with free := false }
        now := s.stop d
        takes := fun t => (s.takes t).map (Take.fire (s.stop d)) }

/-! ## §2 — the properties -/

/-- **The account**: the value is the initial one, the gives and the successful takes. -/
structure Balanced (v : Nat) (s : Takers n) : Prop where
  value : s.sem.value = v + s.gives - s.taken
  nonneg : 0 ≤ s.sem.value

/-- **Takes behave**: one that finds the semaphore available gets it, and a timed one is not there any
more when its time has passed, nor waits again when its wait has timed out. -/
structure Behaves (s : Takers n) : Prop where
  prompt : s.denied = false
  timely : ∀ t k T, s.takes t = some k → k.timeout = some T →
    s.now ≤ k.since + T ∧ (k.expired = true → k.woken = true)

/-- A timed take of an available semaphore comes in a delta cycle with a give; one that has waited its
time finds the semaphore available when it runs; and time does not pass the end of the block time of
one that waits. -/
def NoTimeout (s : Takers n) : TakerEvent n → Prop
  | .take t xBlockTime => s.takes t = none → 0 ≤ xBlockTime → ¬ s.sem.InUse → s.sem.free = true
  | .run t => ∀ k T, s.takes t = some k → k.timeout = some T → k.woken = true → k.expired = true →
      ¬ s.sem.InUse
  | .advance d => ¬ (s.Busy ∨ s.Immediate) → ∀ t k T, s.takes t = some k → k.timeout = some T →
      s.stop d ≤ k.since + T
  | _ => True

/-! ## §3 — one attempt -/

variable {v : Nat} {s : Takers n} {t : Fin n} {k : Take}

/-- The semaphore is in use, or is taken, or is left although it is available. -/
theorem attempt_cases (timeout : Option Nat) (m : ScSemaphore) :
    (m.InUse ∧ m.attempt timeout = none) ∨
      (¬ m.InUse ∧ m.attempt timeout = some ({ m with value := m.value - 1 }, true)) ∨
      (¬ m.InUse ∧ timeout ≠ none ∧ m.free = false ∧ m.attempt timeout = some (m, false)) := by
  unfold ScSemaphore.attempt
  by_cases huse : m.InUse
  · exact Or.inl ⟨huse, if_pos huse⟩
  · rw [if_neg huse]
    cases timeout with
    | none => exact Or.inr (Or.inl ⟨huse, rfl⟩)
    | some T =>
      by_cases hfree : m.free = true
      · exact Or.inr (Or.inl ⟨huse, if_pos hfree⟩)
      · exact Or.inr (Or.inr ⟨huse, Option.some_ne_none T, Bool.eq_false_iff.mpr hfree, if_neg hfree⟩)

theorem Balanced.tries (h : Balanced v s) (t : Fin n) (k : Take) : Balanced v (s.tries t k) := by
  unfold Takers.tries
  rcases attempt_cases k.timeout s.sem with ⟨_, hatt⟩ | ⟨hno, hatt⟩ | ⟨_, _, _, hatt⟩ <;> rw [hatt]
  · exact ⟨h.value, h.nonneg⟩
  · have hpos : ¬ s.sem.value ≤ 0 := hno
    have hvalue := h.value
    constructor
    · show s.sem.value - 1 = v + s.gives - ((s.taken + 1 : Nat) : Int)
      omega
    · show 0 ≤ s.sem.value - 1
      omega
  · exact ⟨h.value, h.nonneg⟩

/-- **One step**, whatever it is, keeps the account. -/
theorem Balanced.step (h : Balanced v s) (e : TakerEvent n) : Balanced v (s.step e) := by
  cases e with
  | take t xBlockTime =>
    unfold Takers.step
    dsimp only
    split
    · exact h.tries t _
    · exact h
  | give =>
    have hvalue := h.value
    have hnonneg := h.nonneg
    constructor
    · show s.sem.value + 1 = v + ((s.gives + 1 : Nat) : Int) - s.taken
      omega
    · show 0 ≤ s.sem.value + 1
      omega
  | run t =>
    unfold Takers.step
    dsimp only
    split
    · split
      · exact h.tries t _
      · exact h
    · exact h
  | delta =>
    show Balanced v (if s.Busy then s else _)
    split
    · exact h
    · exact ⟨h.value, h.nonneg⟩
  | advance d =>
    show Balanced v (if s.Busy ∨ s.Immediate then s else _)
    split
    · exact h
    · exact ⟨h.value, h.nonneg⟩

/-! ## §4 — the invariant -/

/-- A take that waits found the semaphore in use, and one that has been woken while it is available
was woken by a give of this delta cycle. -/
structure Taking (s : Takers n) : Prop extends Behaves s where
  waiting : ∀ t k, s.takes t = some k → k.woken = false → s.sem.InUse
  freed : ∀ t k, s.takes t = some k → k.woken = true → ¬ s.sem.InUse → s.sem.free = true

theorem set_self (s : Takers n) (t : Fin n) (k : Option Take) : s.set t k t = k := if_pos rfl

theorem set_other (s : Takers n) {t t' : Fin n} (k : Option Take) (ht : t' ≠ t) :
    s.set t k t' = s.takes t' := if_neg ht

/-- One attempt of a thread that has the give it needs, whose time has not passed. -/
theorem Taking.tries (h : Taking s)
    (hfree : ¬ s.sem.InUse → k.timeout ≠ none → s.sem.free = true)
    (htime : ∀ T, k.timeout = some T → s.now ≤ k.since + T)
    (hfresh : s.sem.InUse → ∀ T, k.timeout = some T → k.expired = false) :
    Taking (s.tries t k) := by
  unfold Takers.tries
  rcases attempt_cases k.timeout s.sem with ⟨huse, hatt⟩ | ⟨hno, hatt⟩ | ⟨hno, htimed, hlate, _⟩
  · rw [hatt]
    -- the semaphore is in use and the thread waits, again if it has waited before
    refine ⟨⟨h.prompt, ?_⟩, fun _ _ _ _ => huse, fun _ _ _ _ hno => absurd huse hno⟩
    intro t' k' T hk' hT
    by_cases ht : t' = t
    · subst ht
      have hk' : s.set t' (some (k.suspend s.now)) t' = some k' := hk'
      rw [set_self] at hk'
      cases hk'
      refine ⟨htime T hT, ?_⟩
      intro hexp
      have hexp : k.expired = true := hexp
      rw [hfresh huse T hT] at hexp
      exact absurd hexp Bool.false_ne_true
    · have hk' : s.set t (some (k.suspend s.now)) t' = some k' := hk'
      rw [set_other s _ ht] at hk'
      exact h.timely t' k' T hk' hT
  · rw [hatt]
    -- what the other threads do is as before, and none of them was waiting
    have hother : ∀ t' k', s.set t none t' = some k' → s.takes t' = some k' := by
      intro t' k' hk'
      by_cases ht : t' = t
      · subst ht
        rw [set_self] at hk'
        cases hk'
      · rw [set_other s _ ht] at hk'
        exact hk'
    refine ⟨⟨?_, ?_⟩, ?_, ?_⟩
    · show (s.denied || !true) = false
      rw [h.prompt]
      rfl
    · intro t' k' T hk' hT
      exact h.timely t' k' T (hother t' k' hk') hT
    · intro t' k' hk' hw
      exact absurd (h.waiting t' k' (hother t' k' hk') hw) hno
    · intro t' k' hk' hw _
      exact h.freed t' k' (hother t' k' hk') hw hno
  -- the semaphore is available and not given, which the hypothesis excludes
  · rw [hfree hno htimed] at hlate
    exact Bool.noConfusion hlate

/-- The delta cycle is over, and time has come to `now`. -/
theorem Taking.timeouts (h : Taking s) (hbusy : ¬ s.Busy) {now : Nat}
    (hnow : ∀ t k T, s.takes t = some k → k.timeout = some T → now ≤ k.since + T) :
    Taking { s with
      sem := { s.sem with free := false }
      now := now
      takes := fun t => (s.takes t).map (Take.fire now) } := by
  have hidle : ∀ t k, s.takes t = some k → k.woken = false := by
    intro t k hk
    exact Bool.eq_false_iff.mpr fun hw => hbusy ⟨t, List.mem_finRange t, k, hk, hw⟩
  -- no thread is due, so that all that are in the semaphore wait for it
  have huse : ∀ t k, s.takes t = some k → s.sem.InUse := fun t k hk =>
    h.waiting t k hk (hidle t k hk)
  refine ⟨⟨h.prompt, ?_⟩, ?_, ?_⟩
  · intro t k' T hk' hT
    obtain ⟨k, hk, rfl⟩ := Option.map_eq_some_iff.mp hk'
    have hsame := k.fire_frame now
    rw [hsame.1] at hT
    rw [hsame.2]
    refine ⟨hnow t k T hk hT, ?_⟩
    unfold Take.fire
    split
    · exact fun _ => rfl
    · exact (h.timely t k T hk hT).2
  · intro t k' hk' _
    obtain ⟨k, hk, rfl⟩ := Option.map_eq_some_iff.mp hk'
    exact huse t k hk
  · intro t k' hk' _ hno
    obtain ⟨k, hk, rfl⟩ := Option.map_eq_some_iff.mp hk'
    exact absurd (huse t k hk) hno

theorem timeoutOf_ne_none {xBlockTime : Int} (h : timeoutOf xBlockTime ≠ none) : 0 ≤ xBlockTime := by
  by_contra hneg
  exact h (if_pos (Int.not_le.mp hneg))

/-- **One step** without a timeout keeps the invariant. -/
theorem Taking.step (h : Taking s) {e : TakerEvent n} (hok : NoTimeout s e) : Taking (s.step e) := by
  cases e with
  | take t xBlockTime =>
    unfold Takers.step
    dsimp only
    split
    next hidle =>
      refine h.tries ?_ ?_ ?_
      · intro hno htimed
        exact hok hidle (timeoutOf_ne_none htimed) hno
      · exact fun T _ => Nat.le_add_right _ _
      · exact fun _ _ _ => rfl
    · exact h
  | give =>
    refine ⟨⟨h.prompt, ?_⟩, ?_, fun _ _ _ _ _ => rfl⟩
    · intro t k' T hk' hT
      obtain ⟨k, hk, rfl⟩ := Option.map_eq_some_iff.mp hk'
      exact ⟨(h.timely t k T hk hT).1, fun _ => rfl⟩
    · intro t k' hk' hw
      obtain ⟨k, hk, rfl⟩ := Option.map_eq_some_iff.mp hk'
      exact absurd hw Bool.noConfusion
  | run t =>
    unfold Takers.step
    dsimp only
    split
    next k hk =>
      split
      next hw =>
        refine h.tries ?_ ?_ ?_
        · exact fun hno _ => h.freed t k hk hw hno
        · exact fun T hT => (h.timely t k T hk hT).1
        · intro huse T hT
          exact Bool.eq_false_iff.mpr fun hexp => hok k T hk hT hw hexp huse
      · exact h
    · exact h
  | delta =>
    show Taking (if s.Busy then s else _)
    split
    · exact h
    next hbusy => exact h.timeouts hbusy fun t k T hk hT => (h.timely t k T hk hT).1
  | advance d =>
    show Taking (if s.Busy ∨ s.Immediate then s else _)
    split
    · exact h
    next hgo => exact h.timeouts (not_or.mp hgo).1 (hok hgo)

/-! ## §5 — steps that time out -/

/-- A timed take of an available semaphore that has not just been given is refused. -/
theorem take_refused {xBlockTime : Int} (hbad : ¬ NoTimeout s (.take t xBlockTime)) :
    ¬ Behaves (s.step (.take t xBlockTime)) := by
  intro hb
  apply hbad
  intro hidle htimed hno
  by_contra hfree
  have htimeout : timeoutOf xBlockTime = some (xBlockTime.toNat / portTickPeriodMs * scMs) :=
    if_neg (Int.not_lt.mpr htimed)
  have hatt : s.sem.attempt (timeoutOf xBlockTime) = some (s.sem, false) := by
    unfold ScSemaphore.attempt
    rw [if_neg hno, htimeout]
    exact if_neg hfree
  have hdenied : (s.step (.take t xBlockTime)).denied = true := by
    unfold Takers.step
    dsimp only
    rw [hidle]
    dsimp only
    unfold Takers.tries
    dsimp only
    rw [hatt]
    exact Bool.or_true _
  rw [hb.prompt] at hdenied
  exact Bool.false_ne_true hdenied

/-- A take whose time has passed waits again. -/
theorem run_repeated (hbad : ¬ NoTimeout s (.run t)) : ¬ Behaves (s.step (.run t)) := by
  intro hb
  apply hbad
  intro k T hk hT hw hexp huse
  -- the loop of the timed wait does not ask how long it has waited
  have hatt : s.sem.attempt k.timeout = none := if_pos huse
  have hs : s.step (.run t) = { s with takes := s.set t (some (k.suspend s.now)) } := by
    unfold Takers.step
    dsimp only
    rw [hk]
    dsimp only
    rw [if_pos hw]
    unfold Takers.tries
    rw [hatt]
  have hlater := (hb.timely t (k.suspend s.now) T (by rw [hs]; exact set_self s t _) hT).2 hexp
  exact Bool.false_ne_true hlater

/-- Time passes the end of a block time. -/
theorem time_passed {d : Nat} (hbad : ¬ NoTimeout s (.advance d)) :
    ¬ Behaves (s.step (.advance d)) := by
  intro hb
  apply hbad
  intro hgo t k T hk hT
  have hs : s.step (.advance d) =
      { s with
        sem := { s.sem with free := false }
        now := s.stop d
        takes := fun t => (s.takes t).map (Take.fire (s.stop d)) } := if_neg hgo
  have hfire := k.fire_frame (s.stop d)
  have hk' : (s.step (.advance d)).takes t = some (k.fire (s.stop d)) := by
    rw [hs]
    dsimp only
    rw [hk]
    rfl
  have hlate := (hb.timely t _ T hk' (hfire.1.trans hT)).1
  rw [hs, hfire.2] at hlate
  exact hlate

/-! ## §6 — runs -/

theorem taking_new (v : Nat) : Taking (new v : Takers n) where
  prompt := rfl
  timely := by
    rintro t k T ⟨⟩
  waiting := by
    rintro t k ⟨⟩
  freed := by
    rintro t k ⟨⟩

/-- **Semaphores.** For any number of threads and any initial value, in every run the value is the
account of gives and takes; and the takes behave at every point of the run if and only if no timed take
comes to an available semaphore without a give in the same delta cycle, and every timed take that waits
gets the semaphore before its time has passed. -/
theorem semaphores_account (v : Nat) (es : List (TakerEvent n)) :
    Always (fun _ s => Balanced v s) step [] (new v) es ∧
      (Always (fun _ s => Balanced v s ∧ Behaves s) step [] (new v) es ↔
        Throughout NoTimeout step (new v : Takers n) es) := by
  have hstart : Balanced v (new v : Takers n) := by
    constructor
    · show (v : Int) = v + ((0 : Nat) : Int) - ((0 : Nat) : Int)
      omega
    · exact Int.natCast_nonneg v
  constructor
  · refine always_of_invariant (I := fun _ s => Balanced v s) ?_ ?_ es [] _ hstart
    · exact fun _ _ h => h
    · exact fun _ _ e h => h.step e
  · refine always_iff_of_invariant (I := fun _ s => Balanced v s ∧ Taking s) ?_ ?_ ?_ es [] _
      ⟨hstart, taking_new v⟩
    · intro _ s h
      exact ⟨h.1, h.2.toBehaves⟩
    · intro _ s e h hok
      exact ⟨h.1.step e, h.2.step hok⟩
    · intro _ s e _ hbad hgood
      cases e with
      | take t xBlockTime => exact take_refused hbad hgood.2
      | run t => exact run_repeated hbad hgood.2
      | advance d => exact time_passed hbad hgood.2
      | give => exact hbad trivial
      | delta => exact hbad trivial

/-- A take with a block time of 100 ms is refused on a semaphore that is available; and one with a
block time of 5 ms waits again after 5 ms. -/
theorem takes_fail :
    ¬ Always (fun _ s => Balanced 1 s ∧ Behaves s) step [] (new 1 : Takers 1) [.take 0 100] ∧
    ¬ Always (fun _ s => Balanced 0 s ∧ Behaves s) step [] (new 0 : Takers 1)
      [.take 0 5, .advance 5000000, .run 0] := by
  constructor
  · intro h
    have hprompt := h.last.2.prompt
    revert hprompt
    decide
  · intro h
    have htimely := (h.last.2.timely 0 ⟨some 5000000, 0, some 10000000, false, true⟩ 5000000
      (by decide) rfl).2 rfl
    revert htimely
    decide

end Takers

end Espmod.Sync
