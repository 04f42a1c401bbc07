/-
# Espmod.Serial.LookaheadReturns — every call of the reader comes to its end

A call sleeps at five places at most, one behind the other, and at each of them for a clock period, for
its timeout or for a byte. `rank` counts the places that are left: a turn of a thread that is awake lowers
it or ends the call, and nothing raises it. So a call returns when its thread has had five turns, each
late enough after the one before; one without a timeout needs a byte besides.
-/
import Espmod.Serial.Lookahead

namespace Espmod.Serial

open Espmod.Lib

/-- The calls that wait for a byte however long it takes. -/
def Call.blocks : Call → Bool
  | blRead none => true
  | blPeek none => true
  | _ => false

namespace Reader

/-- The call that is under way. -/
def request : Reader → Option Request
  | idle => none
  | entering r _ => some r
  | asking r _ _ => some r
  | waiting r _ => some r
  | clocked r _ => some r
  | askingAgain r _ => some r
  | blocked r => some r

/-- When the thread wakes up by itself. -/
def due : Reader → Option Nat
  | idle => none
  | entering _ due => some due
  | asking _ _ due => some due
  | waiting _ deadline => some deadline
  | clocked _ due => some due
  | askingAgain _ due => some due
  | blocked _ => none

/-- What the place says about the call: the timed ones wait for a byte at one place, the others at another. -/
def Tied : Reader → Prop
  | idle => True
  | entering _ _ => True
  | asking r tmout _ => r.call.tmout = some tmout
  | waiting r _ => r.call.blocks = false
  | clocked r _ => r.call.blocks = false
  | askingAgain r _ => r.call.blocks = false
  | blocked r => r.call.blocks = true

/-- How often the thread sleeps in its call, from here on. -/
def rank : Reader → Nat
  | idle => 0
  | entering _ _ => 5
  | asking _ _ _ => 4
  | waiting _ _ => 3
  | clocked _ _ => 2
  | askingAgain _ _ => 1
  | blocked _ => 1

theorem rank_le (reader : Reader) : reader.rank ≤ 5 := by
  unfold rank
  split <;> omega

theorem rank_pos {reader : Reader} {r : Request} (h : reader.request = some r) : 0 < reader.rank := by
  cases reader with
  | idle => exact nomatch h
  | _ => exact Nat.succ_pos _

end Reader

namespace TestSerial

/-! ## §1 — a thread that wakes up -/

/-- The longest that a call sleeps at one place without a byte. -/
def lap (s : TestSerial) (r : Request) : Nat := max (1000 * s.apbPeriod) (r.call.tmout.getD 0)

/-- A thread that is asleep is going to wake up: at its time, which comes within a lap, or by a byte. -/
structure Alive (s : TestSerial) : Prop where
  due : ∀ {r : Request} {due : Nat}, s.reader.request = some r → s.reader.due = some due →
    due ≤ s.now + s.lap r
  tied : s.reader.Tied
  woken : ∀ r, s.reader = .blocked r → (s.woken = true ↔ s.fromFifo.ready ≠ [])

variable {s : TestSerial} {r : Request}

/-- The next edge of the clock is at most a period away. -/
theorem nextApbClk_le (s : TestSerial) (r : Request) : s.nextApbClk ≤ s.now + s.lap r := by
  have hlap : 1000 * s.apbPeriod ≤ s.lap r := Nat.le_max_left _ _
  have hsub : s.apbPeriod - s.now / 1000 % s.apbPeriod ≤ s.apbPeriod := Nat.sub_le _ _
  unfold nextApbClk
  omega

/-- A thread that sleeps for a time. -/
theorem alive_due {due : Nat} (hrequest : s.reader.request = some r) (hdue : s.reader.due = some due)
    (hle : due ≤ s.now + s.lap r) (htied : s.reader.Tied) : s.Alive := by
  refine ⟨fun hr hd => ?_, htied, fun r' hblocked => ?_⟩
  · obtain rfl := Option.some.inj (hrequest.symm.trans hr)
    obtain rfl := Option.some.inj (hdue.symm.trans hd)
    exact hle
  · rw [hblocked] at hdue
    exact nomatch hdue

theorem alive_idle (hreader : s.reader = .idle) : s.Alive := by
  refine ⟨fun hrequest => ?_, ?_, fun r' hblocked => ?_⟩
  · rw [hreader] at hrequest
    exact nomatch hrequest
  · rw [hreader]
    trivial
  · exact nomatch hreader.symm.trans hblocked

/-- A thread that is left where it is. -/
theorem Alive.later (h : s.Alive) {s' : TestSerial} (hperiod : s'.apbPeriod = s.apbPeriod)
    (hreader : s'.reader = s.reader) (hnow : s.now ≤ s'.now)
    (hwoken : (s.woken = true ↔ s.fromFifo.ready ≠ []) → (s'.woken = true ↔ s'.fromFifo.ready ≠ [])) :
    s'.Alive := by
  constructor
  · intro r due hrequest hdue
    rw [hreader] at hrequest hdue
    have hlap : s'.lap r = s.lap r := by
      unfold lap
      rw [hperiod]
    rw [hlap]
    exact Nat.le_trans (h.due hrequest hdue) (Nat.add_le_add_right hnow _)
  · rw [hreader]
    exact h.tied
  · rw [hreader]
    exact fun r hblocked => hwoken (h.woken r hblocked)

/-! ## §2 — a turn of the thread -/

/-- The call returns, and what it returns is recorded. One that blocks returns a byte. -/
structure Ends (s : TestSerial) (r : Request) (s' : TestSerial) : Prop where
  answered : ∃ got, s'.answers = s.answers ++ [⟨r, s.now, s.returned.length, s.arrived.length, got⟩] ∧
    (r.call.blocks = true → got ≠ -1)
  idle : s'.reader = .idle
  arrived : s'.arrived = s.arrived
  fresh : s'.fromFifo.fresh = s.fromFifo.fresh

/-- The call goes to sleep somewhere behind. -/
structure Advances (s : TestSerial) (r : Request) (s' : TestSerial) : Prop where
  request : s'.reader.request = some r
  answers : s'.answers = s.answers
  arrived : s'.arrived = s.arrived
  fresh : s'.fromFifo.fresh = s.fromFifo.fresh
  period : s'.apbPeriod = s.apbPeriod
  rank : s'.reader.rank < s.reader.rank
  alive : s'.Alive

/-- The thread sleeps: its time has not come, or it waits for a byte and there is none. -/
def Sleeps (s : TestSerial) (r : Request) (s' : TestSerial) : Prop :=
  s' = s ∧ ((∃ due, s.reader.due = some due ∧ s.now < due) ∨
    r.call.blocks = true ∧ s.arrived.length = s.returned.length)

theorem ends_byte {s' : TestSerial} (b : BitVec 8) (hanswers : s'.answers = s.answers)
    (hnow : s'.now = s.now) (harrived : s'.arrived = s.arrived)
    (hfresh : s'.fromFifo.fresh = s.fromFifo.fresh) :
    s.Ends r (s'.answer r (byte b)) := by
  refine ⟨⟨byte b, ?_, fun _ => byte_ne b⟩, rfl, harrived, hfresh⟩
  show s'.answers ++ [⟨r, s'.now, s'.returned.length, s'.arrived.length, byte b⟩] = _
  have hreturned : s'.returned = s.returned := congrArg (List.filterMap Answer.byteRead) hanswers
  rw [hreturned, hanswers, hnow, harrived]

/-- A call that does not block may return anything. -/
theorem ends_answer (hblocks : r.call.blocks = false) (got : Int) : s.Ends r (s.answer r got) := by
  refine ⟨⟨got, rfl, fun h => ?_⟩, rfl, rfl, rfl⟩
  rw [hblocks] at h
  exact Bool.noConfusion h

/-- `from->read()` returns a byte that is there. -/
theorem ends_fetch (hready : s.fromFifo.ready ≠ []) : s.Ends r (s.fetch r) := by
  unfold fetch
  split
  next hempty => exact absurd hempty hready
  next b bs _ =>
    unfold deliver
    split
    · exact ends_byte b rfl rfl rfl rfl
    · exact ends_byte b rfl rfl rfl rfl

theorem ends_poll (hblocks : r.call.blocks = false) : s.Ends r (s.poll r) := by
  unfold poll
  split
  next => exact ends_answer hblocks _
  next hsome => exact ends_fetch fun hempty => hsome (congrArg List.length hempty)

theorem sleeps_early {due : Nat} (hdue : s.reader.due = some due) (hearly : ¬ due ≤ s.now) : s.Sleeps r s :=
  ⟨rfl, Or.inl ⟨due, hdue, Nat.lt_of_not_le hearly⟩⟩

/-- What `available` counts, with nothing taken, is in the FIFO. -/
theorem ready_of_count (htaken : s.taken = false) (hcount : s.count ≠ 0) : s.fromFifo.ready ≠ [] := by
  intro hempty
  refine hcount ?_
  unfold count Fifo.numAvailable
  rw [htaken, hempty]
  rfl

/-- A call that finds nothing taken and has no timeout is over, or waits in the FIFO. -/
theorem fetch_or_blocked (hblocks : r.call.blocks = true) (hrank : 1 < s.reader.rank) :
    s.Ends r (s.fetch r) ∨ s.Advances r (s.fetch r) := by
  by_cases hready : s.fromFifo.ready = []
  · right
    have hfetch : s.fetch r = { s with taken := s.taken || !r.call.reads, reader := .blocked r, woken := false } := by
      unfold fetch
      rw [hready]
    rw [hfetch]
    refine ⟨rfl, rfl, rfl, rfl, rfl, hrank, ⟨fun _ hdue => (nomatch hdue), hblocks, fun _ _ => ?_⟩⟩
    exact ⟨fun h => Bool.noConfusion h, fun h => absurd hready h⟩
  · exact Or.inl (ends_fetch hready)

theorem block_advances {tmout : Option Nat} (htmout : r.call.tmout = tmout)
    (hblocks : tmout = none → r.call.blocks = true) (hrank : 4 < s.reader.rank) :
    s.Ends r (s.block r tmout) ∨ s.Advances r (s.block r tmout) := by
  cases tmout with
  | none => exact fetch_or_blocked (hblocks rfl) (by omega)
  | some t => exact Or.inr ⟨rfl, rfl, rfl, rfl, rfl, hrank, alive_due rfl rfl (nextApbClk_le s r) htmout⟩

/-- **A call behind its first wait** is over or sleeps at the next place. -/
theorem enter_advances {due : Nat} (hreader : s.reader = .entering r due) :
    s.Ends r (s.enter r) ∨ s.Advances r (s.enter r) := by
  have hrank : 4 < s.reader.rank := by
    rw [hreader]
    exact Nat.lt_succ_self _
  unfold enter
  cases hcall : r.call with
  | available => exact Or.inl (ends_answer (by rw [hcall]; rfl) _)
  | read =>
    dsimp only
    split
    · exact Or.inl (ends_byte _ rfl rfl rfl rfl)
    · exact Or.inl (ends_poll (by rw [hcall]; rfl))
  | peek =>
    dsimp only
    split
    · exact Or.inl (ends_byte _ rfl rfl rfl rfl)
    · exact Or.inl (ends_poll (by rw [hcall]; rfl))
  | blRead tmout =>
    dsimp only
    split
    · exact Or.inl (ends_byte _ rfl rfl rfl rfl)
    · exact block_advances (by rw [hcall]; rfl) (fun hnone => by rw [hcall, hnone]; rfl) hrank
  | blPeek tmout =>
    dsimp only
    split
    · exact Or.inl (ends_byte _ rfl rfl rfl rfl)
    · exact block_advances (by rw [hcall]; rfl) (fun hnone => by rw [hcall, hnone]; rfl) hrank

/-- A call with a timeout does not block. -/
theorem blocks_of_tmout {c : Call} {t : Nat} (h : c.tmout = some t) : c.blocks = false := by
  cases c with
  | available => rfl
  | read => rfl
  | peek => rfl
  | blRead tmout =>
    obtain rfl : tmout = some t := h
    rfl
  | blPeek tmout =>
    obtain rfl : tmout = some t := h
    rfl

/-- **A turn of the thread** ends its call, brings it to the next place, or finds it asleep. -/
theorem run_advances (halive : s.Alive) (hplaced : s.Placed) (hkept : s.arrived.length = s.returned.length +
    s.unread.length) (hrequest : s.reader.request = some r) :
    s.Ends r s.run ∨ s.Advances r s.run ∨ s.Sleeps r s.run := by
  have htied := halive.tied
  unfold Placed at hplaced
  unfold TestSerial.run
  cases hreader : s.reader with
  | idle =>
    rw [hreader] at hrequest
    exact nomatch hrequest
  | entering r' due =>
    rw [hreader] at hrequest
    obtain rfl := Option.some.inj hrequest
    dsimp only
    split
    next hdue => exact (enter_advances hreader).imp_right Or.inl
    next hearly => exact Or.inr (Or.inr (sleeps_early (by rw [hreader]; rfl) hearly))
  | asking r' tmout due =>
    -- with a timeout the call asks how much there is, and waits only if there is nothing
    rw [hreader] at hrequest htied hplaced
    obtain rfl := Option.some.inj hrequest
    have hblocks := blocks_of_tmout htied
    dsimp only
    split
    next hdue =>
      split
      next hcount =>
        refine Or.inr (Or.inl ⟨rfl, rfl, rfl, rfl, rfl, ?_, alive_due rfl rfl ?_ hblocks⟩)
        · rw [hreader]
          exact Nat.lt_succ_self _
        · have hlap : r'.call.tmout.getD 0 ≤ s.lap r' := Nat.le_max_right _ _
          rw [htied] at hlap
          exact Nat.add_le_add_left hlap _
      next hcount => exact Or.inl (ends_fetch (ready_of_count hplaced.1 hcount))
    next hearly => exact Or.inr (Or.inr (sleeps_early (by rw [hreader]; rfl) hearly))
  | waiting r' deadline =>
    -- woken by a write or by the timeout, whichever is first
    rw [hreader] at hrequest htied
    obtain rfl := Option.some.inj hrequest
    dsimp only
    split
    next hawake =>
      refine Or.inr (Or.inl ⟨rfl, rfl, rfl, rfl, rfl, ?_, alive_due rfl rfl (nextApbClk_le s r') htied⟩)
      rw [hreader]
      exact Nat.lt_succ_self _
    next hasleep =>
      rw [Bool.or_eq_true_iff, not_or, decide_eq_true_iff] at hasleep
      exact Or.inr (Or.inr (sleeps_early (by rw [hreader]; rfl) hasleep.2))
  | clocked r' due =>
    rw [hreader] at hrequest htied
    obtain rfl := Option.some.inj hrequest
    dsimp only
    split
    next hdue =>
      refine Or.inr (Or.inl ⟨rfl, rfl, rfl, rfl, rfl, ?_, alive_due rfl rfl (nextApbClk_le s r') htied⟩)
      rw [hreader]
      exact Nat.lt_succ_self _
    next hearly => exact Or.inr (Or.inr (sleeps_early (by rw [hreader]; rfl) hearly))
  | askingAgain r' due =>
    rw [hreader] at hrequest htied hplaced
    obtain rfl := Option.some.inj hrequest
    dsimp only
    split
    next hdue =>
      split
      next hcount => exact Or.inl (ends_answer htied _)
      next hcount => exact Or.inl (ends_fetch (ready_of_count hplaced.1 hcount))
    next hearly => exact Or.inr (Or.inr (sleeps_early (by rw [hreader]; rfl) hearly))
  | blocked r' =>
    -- inside the read of the FIFO: asleep only as long as all that has arrived has been returned
    rw [hreader] at hrequest htied
    obtain rfl := Option.some.inj hrequest
    have hwake := halive.woken r' hreader
    dsimp only
    split
    next hwoken => exact Or.inl (ends_fetch (hwake.mp hwoken))
    next hasleep =>
      refine Or.inr (Or.inr ⟨rfl, Or.inr ⟨htied, ?_⟩⟩)
      have hready : s.fromFifo.ready = [] := by
        by_contra hsome
        exact hasleep (hwake.mpr hsome)
      have hunread : s.unread = [] := by
        unfold unread slot
        rw [hreader, hready]
        rfl
      rw [hkept, hunread]
      rfl

/-- A thread that is in no call. -/
theorem run_idle (hrequest : s.reader.request = none) : s.run = s := by
  unfold TestSerial.run
  cases hreader : s.reader with
  | idle => rfl
  | _ => rw [hreader] at hrequest; exact nomatch hrequest

/-! ## §3 — every event -/

/-- What every reachable state meets. -/
structure Served (s : TestSerial) : Prop where
  kept : s.Kept
  alive : s.Alive

theorem Served.run (h : Served s) : Served s.run := by
  refine ⟨h.kept.run, ?_⟩
  cases hrequest : s.reader.request with
  | none =>
    rw [run_idle hrequest]
    exact h.alive
  | some r =>
    rcases run_advances h.alive h.kept.placed h.kept.length hrequest with hends | hadvances | hsleeps
    · exact alive_idle hends.idle
    · exact hadvances.alive
    · rw [hsleeps.1]
      exact h.alive

/-- **One step.** -/
theorem Served.step (h : Served s) (e : Event) : Served (s.step e) := by
  cases e with
  | call c =>
    refine ⟨h.kept.step (.call c), ?_⟩
    show Alive (if s.reader = .idle then { s with reader := .entering ⟨c, s.now⟩ s.nextApbClk } else s)
    split
    · exact alive_due rfl rfl (nextApbClk_le s ⟨c, s.now⟩) trivial
    · exact h.alive
  | run => exact h.run
  | write b =>
    refine ⟨h.kept.step (.write b), ?_⟩
    show Alive (if s.fromFifo.numFree = 0 then s else { s with fromFifo := s.fromFifo.write b })
    split
    · exact h.alive
    · exact h.alive.later rfl rfl (Nat.le_refl _) id
  | delta =>
    refine ⟨h.kept.delta, h.alive.later rfl rfl (Nat.le_refl _) fun hiff => ?_⟩
    -- woken by what was written before or in this phase
    show (s.woken || !s.fromFifo.fresh.isEmpty) = true ↔ s.fromFifo.ready ++ s.fromFifo.fresh ≠ []
    rw [Bool.or_eq_true, hiff, Bool.not_eq_true', List.isEmpty_eq_false_iff, Ne, Ne, Ne,
      List.append_eq_nil_iff, not_and_or]
  | pass d => exact ⟨h.kept.step (.pass d), h.alive.later rfl rfl (Nat.le_add_right _ _) id⟩

theorem served_init (apbPeriod size : Nat) : Served (init apbPeriod size) := ⟨kept_init apbPeriod size, alive_idle rfl⟩

theorem Served.foldl (h : Served s) (es : List Event) : Served (es.foldl TestSerial.step s) :=
  List.foldlRecOn es TestSerial.step h fun _ h e _ => h.step e

/-! ## §4 — from the call to its answer -/

/-- A call made in `s` is under way. -/
structure UnderWay (s : TestSerial) (r : Request) (s' : TestSerial) : Prop where
  request : s'.reader.request = some r
  answers : s'.answers = s.answers
  arrived : s.arrived <+: s'.arrived
  period : s'.apbPeriod = s.apbPeriod

/-- It has returned. -/
def Answered (s : TestSerial) (r : Request) (s' : TestSerial) : Prop :=
  ∃ a, s'.answers[s.answers.length]? = some a ∧ a.request = r ∧ a.returned = s.returned.length ∧
    s.arrived.length ≤ a.arrived ∧ (r.call.blocks = true → a.got ≠ -1)

/-- A call is begun, or the thread is in one. -/
theorem step_call_cases (s : TestSerial) (c : Call) : s.step (.call c) = s ∨
    s.step (.call c) = { s with reader := .entering ⟨c, s.now⟩ s.nextApbClk } := by
  show (if s.reader = .idle then _ else s) = s ∨ (if s.reader = .idle then _ else s) = _
  split
  · exact Or.inr rfl
  · exact Or.inl rfl

/-- A thread in a call begins no other. -/
theorem step_call_busy (hrequest : s.reader.request = some r) (c : Call) : s.step (.call c) = s :=
  if_neg fun hidle => by
    rw [hidle] at hrequest
    exact nomatch hrequest

/-- A write changes the FIFO, or nothing. -/
theorem step_write (s : TestSerial) (b : BitVec 8) : ∃ fifo, s.step (.write b) = { s with fromFifo := fifo } := by
  show ∃ fifo, (if s.fromFifo.numFree = 0 then s else { s with fromFifo := s.fromFifo.write b }) = _
  split
  · exact ⟨s.fromFifo, rfl⟩
  · exact ⟨_, rfl⟩

/-- What has been answered stays. -/
theorem Served.answers_step (h : Served s) (e : Event) : s.answers <+: (s.step e).answers := by
  have hsame : ∀ {t : TestSerial}, t.answers = s.answers → s.answers <+: t.answers :=
    fun heq => heq ▸ List.prefix_refl _
  cases e with
  | call c =>
    rcases s.step_call_cases c with heq | heq
    · exact hsame (by rw [heq])
    · exact hsame (by rw [heq])
  | run =>
    show _ <+: s.run.answers
    cases hrequest : s.reader.request with
    | none => exact hsame (congrArg answers (run_idle hrequest))
    | some r =>
      rcases run_advances h.alive h.kept.placed h.kept.length hrequest with hends | hadvances | hsleeps
      · obtain ⟨got, hanswers, -⟩ := hends.answered
        exact ⟨_, hanswers.symm⟩
      · exact hsame hadvances.answers
      · exact hsame (congrArg answers hsleeps.1)
  | write b =>
    obtain ⟨fifo, heq⟩ := s.step_write b
    exact hsame (by rw [heq])
  | delta => exact hsame rfl
  | pass d => exact hsame rfl

theorem Served.answers_foldl (h : Served s) (es : List Event) :
    s.answers <+: (es.foldl TestSerial.step s).answers := by
  induction es generalizing s with
  | nil => exact List.prefix_refl _
  | cons e es ih => exact (h.answers_step e).trans (ih (h.step e))

/-- An answer stays. -/
theorem Answered.later {s' : TestSerial} (h : s.Answered r s') (hserved : Served s') (es : List Event) :
    s.Answered r (es.foldl TestSerial.step s') := by
  obtain ⟨a, ha, hanswer⟩ := h
  obtain ⟨hlt, rfl⟩ := List.getElem?_eq_some_iff.mp ha
  refine ⟨_, ?_, hanswer⟩
  obtain ⟨more, hmore⟩ := hserved.answers_foldl es
  rw [← hmore, List.getElem?_append_left hlt, ha]

theorem UnderWay.returned {s' : TestSerial} (h : s.UnderWay r s') : s'.returned = s.returned :=
  congrArg (List.filterMap Answer.byteRead) h.answers

theorem UnderWay.answered_run {s' t : TestSerial} (h : s.UnderWay r s') (hends : s'.Ends r t) :
    s.Answered r t := by
  obtain ⟨got, hanswers, hgot⟩ := hends.answered
  refine ⟨⟨r, s'.now, s'.returned.length, s'.arrived.length, got⟩, ?_, rfl, ?_, h.arrived.length_le, hgot⟩
  · rw [hanswers, h.answers]
    exact List.getElem?_concat_length
  · exact congrArg List.length h.returned

theorem UnderWay.advances {s' t : TestSerial} (h : s.UnderWay r s') (hadvances : s'.Advances r t) :
    s.UnderWay r t where
  request := hadvances.request
  answers := hadvances.answers.trans h.answers
  arrived := by
    rw [hadvances.arrived]
    exact h.arrived
  period := hadvances.period.trans h.period

/-- **A call that is under way** stays so in a step, or has returned. -/
theorem UnderWay.step {s' : TestSerial} (h : s.UnderWay r s') (hserved : Served s') (e : Event) :
    s.UnderWay r (s'.step e) ∨ s.Answered r (s'.step e) := by
  cases e with
  | call c =>
    rw [step_call_busy h.request]
    exact Or.inl h
  | run =>
    rcases run_advances hserved.alive hserved.kept.placed hserved.kept.length h.request with
      hends | hadvances | hsleeps
    · exact Or.inr (h.answered_run hends)
    · exact Or.inl (h.advances hadvances)
    · left
      show UnderWay s r s'.run
      rw [hsleeps.1]
      exact h
  | write b =>
    obtain ⟨fifo, heq⟩ := s'.step_write b
    rw [heq]
    exact Or.inl ⟨h.request, h.answers, h.arrived, h.period⟩
  | delta => exact Or.inl ⟨h.request, h.answers, h.arrived.trans (List.prefix_append _ _), h.period⟩
  | pass d => exact Or.inl ⟨h.request, h.answers, h.arrived, h.period⟩

/-! ## §5 — turns -/

/-- The turns that the thread gets in a part of a run, where at least `lap` has passed from one to the
next. `passed` is the time since the last of them. -/
def turns (lap : Nat) : Nat → List Event → Nat
  | _, [] => 0
  | passed, .pass d :: es => turns lap (passed + d) es
  | passed, .run :: es => if lap ≤ passed then 1 + turns lap 0 es else turns lap passed es
  | passed, .call _ :: es => turns lap passed es
  | passed, .write _ :: es => turns lap passed es
  | passed, .delta :: es => turns lap passed es

/-- A thread that `n` turns bring to the end of its call: it has fewer places left, or as many and its
time comes with the next turn. -/
def Within (s : TestSerial) (r : Request) (n passed : Nat) : Prop :=
  s.reader.rank < n ∨ s.reader.rank = n ∧ ∀ due, s.reader.due = some due → due + passed ≤ s.now + s.lap r

/-- A turn is over: with one turn less to come, the thread is within what is left. -/
theorem Alive.within (h : s.Alive) (hrequest : s.reader.request = some r) {n : Nat}
    (hrank : s.reader.rank ≤ n) : s.Within r n 0 := by
  rcases Nat.lt_or_eq_of_le hrank with hlt | heq
  · exact Or.inl hlt
  · exact Or.inr ⟨heq, fun due hdue => h.due hrequest hdue⟩

/-- **A call returns** when its thread has had the turns that are left, and its byte if it blocks. -/
theorem UnderWay.returns (es : List Event) : ∀ {s' : TestSerial} {n passed : Nat}, s.UnderWay r s' →
    Served s' → (r.call.blocks = true → s.returned.length < s'.arrived.length) →
    n ≤ turns (s.lap r) passed es → s'.Within r n passed →
    s.Answered r (es.foldl TestSerial.step s') := by
  induction es with
  | nil =>
    -- no turn is left, and a call that is under way needs one
    intro s' n passed h _ _ hturns hwithin
    have hzero : n = 0 := Nat.le_zero.mp hturns
    have hpos := Reader.rank_pos h.request
    rcases hwithin with hlt | ⟨heq, -⟩
    · omega
    · omega
  | cons e es ih =>
    intro s' n passed h hserved hbyte hturns hwithin
    have hlap : s'.lap r = s.lap r := by
      unfold lap
      rw [h.period]
    cases e with
    | call c =>
      rw [List.foldl_cons, step_call_busy h.request]
      exact ih h hserved hbyte hturns hwithin
    | write b =>
      obtain ⟨fifo, hstep⟩ := s'.step_write b
      have hnext := hserved.step (.write b)
      rw [List.foldl_cons, hstep]
      rw [hstep] at hnext
      exact ih ⟨h.request, h.answers, h.arrived, h.period⟩ hnext hbyte hturns hwithin
    | delta =>
      rcases h.step hserved .delta with hstill | hdone
      · refine ih hstill (hserved.step _) (fun hblocks => ?_) hturns hwithin
        exact Nat.lt_of_lt_of_le (hbyte hblocks) (List.prefix_append _ _).length_le
      · exact hdone.later (hserved.step _) es
    | pass d =>
      rcases h.step hserved (.pass d) with hstill | hdone
      · refine ih hstill (hserved.step _) hbyte hturns (hwithin.imp_right fun hdue => ⟨hdue.1, fun due hd => ?_⟩)
        have hle := hdue.2 due hd
        show due + (passed + d) ≤ s'.now + d + s'.lap r
        omega
      · exact hdone.later (hserved.step _) es
    | run =>
      rcases run_advances hserved.alive hserved.kept.placed hserved.kept.length h.request with
        hends | hadvances | hsleeps
      · exact (h.answered_run hends).later hserved.run es
      · -- a place further: with `n` turns for the rank before, one is to spare
        have hstill := h.advances hadvances
        have hless : s'.run.reader.rank < n := by
          rcases hwithin with hlt | ⟨heq, -⟩
          · exact Nat.lt_trans hadvances.rank hlt
          · exact heq ▸ hadvances.rank
        have hbyte' : r.call.blocks = true → s.returned.length < s'.run.arrived.length := by
          rw [hadvances.arrived]
          exact hbyte
        show s.Answered r (es.foldl TestSerial.step s'.run)
        unfold turns at hturns
        split at hturns
        · refine ih hstill hserved.run hbyte' (Nat.sub_le_iff_le_add'.mpr hturns) ?_
          exact hadvances.alive.within hstill.request (Nat.le_sub_one_of_lt hless)
        · exact ih hstill hserved.run hbyte' hturns (Or.inl hless)
      · -- the time of a thread that sleeps comes within the lap
        obtain ⟨hsame, hwhy⟩ := hsleeps
        show s.Answered r (es.foldl TestSerial.step s'.run)
        rw [hsame]
        unfold turns at hturns
        split at hturns
        next hlate =>
          refine ih h hserved hbyte (Nat.sub_le_iff_le_add'.mpr hturns) ?_
          refine hserved.alive.within h.request (Nat.le_sub_one_of_lt ?_)
          rcases hwithin with hlt | ⟨-, hdue⟩
          · exact hlt
          · rcases hwhy with ⟨due, hd, hearly⟩ | ⟨hblocks, hnone⟩
            · have hle := hdue due hd
              omega
            · have hlt := hbyte hblocks
              rw [hnone, h.returned] at hlt
              exact absurd hlt (Nat.lt_irrefl _)
        next => exact ih h hserved hbyte hturns hwithin

/-! ## §6 — the specification -/

/-- The bytes of a run that found room in the FIFO. -/
def accepted (s : TestSerial) : List Event → List (BitVec 8)
  | [] => []
  | .write b :: es => (if s.fromFifo.numFree = 0 then [] else [b]) ++ (s.step (.write b)).accepted es
  | e :: es => (s.step e).accepted es

/-- **A call returns.** Made now, and given five turns in time at any later point, it has an answer: one
that blocks from where a byte has arrived that it may return, and with a byte. If there is a byte to be
returned when the call is made, it is the answer. -/
def Returns (s : TestSerial) : Prop :=
  ∀ (c : Call) (before after : List Event), s.reader = .idle →
    let s' := before.foldl step (s.step (.call c))
    (c.blocks = true → s.returned.length < s'.arrived.length) → 5 ≤ turns (s.lap ⟨c, s.now⟩) 0 after →
    ∃ a, (after.foldl step s').answers[s.answers.length]? = some a ∧ a.request = ⟨c, s.now⟩ ∧
      (c.blocks = true → a.got ≠ -1) ∧
      (c ≠ .available → ∀ got, (s.arrived.map byte)[s.returned.length]? = some got → a.got = got)

theorem accepted_append (es : List Event) (e : Event) : ∀ s : TestSerial,
    s.accepted (es ++ [e]) = s.accepted es ++ (es.foldl step s).accepted [e] := by
  induction es with
  | nil => exact fun s => rfl
  | cons d es ih =>
    intro s
    cases d with
    | write b =>
      show _ ++ (s.step (.write b)).accepted (es ++ [e]) = _
      rw [ih, ← List.append_assoc]
      rfl
    | call c => exact ih _
    | run => exact ih _
    | delta => exact ih _
    | pass d => exact ih _

/-- The thread leaves the other end of the FIFO alone. -/
theorem Served.run_fresh (h : Served s) :
    s.run.arrived = s.arrived ∧ s.run.fromFifo.fresh = s.fromFifo.fresh := by
  cases hrequest : s.reader.request with
  | none =>
    rw [run_idle hrequest]
    exact ⟨rfl, rfl⟩
  | some r =>
    rcases run_advances h.alive h.kept.placed h.kept.length hrequest with hends | hadvances | hsleeps
    · exact ⟨hends.arrived, hends.fresh⟩
    · exact ⟨hadvances.arrived, hadvances.fresh⟩
    · rw [hsleeps.1]
      exact ⟨rfl, rfl⟩

/-- **What is accepted arrives**: it is in the FIFO until the phase is over. -/
theorem Served.arrived_step (h : Served s) (e : Event) :
    (s.step e).arrived ++ (s.step e).fromFifo.fresh = s.arrived ++ s.fromFifo.fresh ++ s.accepted [e] := by
  cases e with
  | call c =>
    show (if s.reader = .idle then { s with reader := .entering ⟨c, s.now⟩ s.nextApbClk } else s).arrived ++
      (if s.reader = .idle then { s with reader := .entering ⟨c, s.now⟩ s.nextApbClk } else s).fromFifo.fresh = _
    split <;> exact (List.append_nil _).symm
  | run =>
    show s.run.arrived ++ s.run.fromFifo.fresh = _
    rw [h.run_fresh.1, h.run_fresh.2]
    exact (List.append_nil _).symm
  | write b =>
    by_cases hfull : s.fromFifo.numFree = 0
    · have hstep : s.step (.write b) = s := if_pos hfull
      unfold accepted
      rw [hstep, if_pos hfull]
      exact (List.append_nil _).symm
    · have hstep : s.step (.write b) = { s with fromFifo := s.fromFifo.write b } := if_neg hfull
      unfold accepted
      rw [hstep, if_neg hfull]
      exact (List.append_assoc _ _ _).symm
  | delta => rfl
  | pass d => exact (List.append_nil _).symm

/-- What there is to return when a call is made is what it returns. -/
theorem Answered.got {s' : TestSerial} {a : Answer} (hright : Right s') (hearlier : s.arrived <+: s'.arrived)
    (ha : a ∈ s'.answers) (hreturned : a.returned = s.returned.length) (harrived : s.arrived.length ≤ a.arrived)
    (hcall : a.request.call ≠ .available) {got : Int}
    (hgot : (s.arrived.map byte)[s.returned.length]? = some got) : a.got = got := by
  have hrightly := hright.rightly a ha
  unfold Rightly at hrightly
  rw [if_neg hcall] at hrightly
  have hlt : s.returned.length < s.arrived.length := by
    have hlt := (List.getElem?_eq_some_iff.mp hgot).1
    rwa [List.length_map] at hlt
  split at hrightly
  next =>
    have heq := hrightly.1
    omega
  next =>
    obtain ⟨more, hmore⟩ := hearlier
    rw [← hmore, hreturned, List.map_append, List.getElem?_append_left (by rwa [List.length_map]), hgot]
      at hrightly
    exact (Option.some.inj hrightly).symm

/-- What has arrived stays. -/
theorem Served.arrived_kept (h : Served s) (e : Event) : s.arrived <+: (s.step e).arrived := by
  have hsame : ∀ {t : TestSerial}, t.arrived = s.arrived → s.arrived <+: t.arrived :=
    fun heq => heq ▸ List.prefix_refl _
  cases e with
  | call c =>
    rcases s.step_call_cases c with heq | heq
    · exact hsame (by rw [heq])
    · exact hsame (by rw [heq])
  | run => exact hsame h.run_fresh.1
  | write b =>
    obtain ⟨fifo, heq⟩ := s.step_write b
    exact hsame (by rw [heq])
  | delta => exact List.prefix_append _ _
  | pass d => exact hsame rfl

theorem Served.arrived_foldl (es : List Event) :
    ∀ {s : TestSerial}, Served s → s.arrived <+: (es.foldl TestSerial.step s).arrived := by
  induction es with
  | nil => exact fun _ => List.prefix_refl _
  | cons e es ih => exact fun h => (h.arrived_kept e).trans (ih (h.step e))

theorem UnderWay.foldl (es : List Event) : ∀ {s' : TestSerial}, s.UnderWay r s' → Served s' →
    s.UnderWay r (es.foldl TestSerial.step s') ∨ s.Answered r (es.foldl TestSerial.step s') := by
  induction es with
  | nil => exact fun h _ => Or.inl h
  | cons e es ih =>
    intro s' h hserved
    rcases h.step hserved e with hstill | hdone
    · exact ih hstill (hserved.step e)
    · exact Or.inr (hdone.later (hserved.step e) es)

/-- **Every call returns.** -/
theorem Served.returns (h : Served s) : s.Returns := by
  intro c before after hidle s' hbyte hturns
  have hserved : Served s' := (h.step _).foldl before
  have hcalled : s.UnderWay ⟨c, s.now⟩ (s.step (.call c)) := by
    have hstep : s.step (.call c) = { s with reader := .entering ⟨c, s.now⟩ s.nextApbClk } := if_pos hidle
    rw [hstep]
    exact ⟨rfl, rfl, List.prefix_refl _, rfl⟩
  -- the answer came before the turns were counted, or it comes by them
  have hdone : s.Answered ⟨c, s.now⟩ (after.foldl TestSerial.step s') := by
    rcases hcalled.foldl before (h.step _) with hstill | hdone
    · exact hstill.returns after hserved hbyte hturns (hserved.alive.within hstill.request (Reader.rank_le _))
    · exact hdone.later hserved after
  obtain ⟨a, ha, hrequest, hreturned, harrived, hblocks⟩ := hdone
  refine ⟨a, ha, hrequest, hblocks, fun hcall got hgot => ?_⟩
  have hend := hserved.foldl after
  have hsince : s.arrived <+: s'.arrived := Served.arrived_foldl (.call c :: before) h
  refine Answered.got hend.kept.right (hsince.trans (Served.arrived_foldl after hserved))
    (List.mem_of_getElem? ha) hreturned harrived ?_ hgot
  rw [hrequest]
  exact hcall

/-- **The reader with look-ahead.** Through any calls of the thread and any arrivals, with any clock and
a FIFO of any size, what is written to the FIFO where it has room arrives; the reads return the bytes in
order, none lost and none twice; a peek returns the byte that is to be read next; `available` counts what
is unread; a call that returns -1 has found nothing, after its timeout if it has one; and every call
returns, one that blocks when its byte is there. -/
theorem lookahead_right (apbPeriod size : Nat) (es : List Event) :
    Always (fun es s => s.arrived ++ s.fromFifo.fresh = (init apbPeriod size).accepted es ∧ Right s ∧ s.Returns)
      step [] (init apbPeriod size) es := by
  refine always_of_invariant (I := fun es s => s = es.foldl step (init apbPeriod size) ∧ Served s ∧
    s.arrived ++ s.fromFifo.fresh = (init apbPeriod size).accepted es) ?_ ?_ es [] _
    ⟨rfl, served_init apbPeriod size, rfl⟩
  · rintro es s ⟨-, h, harrived⟩
    exact ⟨harrived, h.kept.right, h.returns⟩
  · rintro es s e ⟨hs, h, harrived⟩
    refine ⟨?_, h.step e, ?_⟩
    · rw [List.foldl_append, ← hs]
      rfl
    · rw [h.arrived_step, harrived, accepted_append, ← hs]

/-- A byte arrives while `bl_peek` waits; it is peeked at, counted and read. -/
example :
    (([Event.call (.blPeek (some 1000000)), .pass 100000, .run, .pass 100000, .run, .write 65, .delta, .run,
      .pass 100000, .run, .pass 100000, .run, .call .available, .pass 100000, .run, .call .read, .pass 100000,
      .run].foldl step (init 13 4)).answers.map Answer.got) = [65, 1, 65] := by
  decide

end TestSerial

end Espmod.Serial
