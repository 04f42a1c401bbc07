/-
# Espmod.Serial.Lookahead — a serial reader that can peek

`TestSerial` reads from the FIFO of a UART. A byte that was peeked at has left the FIFO; it stays in
`waiting` until it is read, and `taken` says that it is there. Six functions use the two, and some of
them sleep between the look at `taken` and the read: for a clock edge, for a byte to arrive, or until a
time is over, and `available` sleeps for a clock edge of its own when the others call it.

What has arrived is what the reads have returned, the byte kept, and what the FIFO has ready, in this
order. Every call keeps that, and what it returns can be told from the numbers of bytes that have
arrived and that were read until then. That every call does return is the next module's.

There is one thread that reads, and `flush` is not called. Time is in picoseconds.
-/
import Espmod.Lib.Fifo
import Espmod.Lib.Run

namespace Espmod.Serial

open Espmod.Lib

/-! ## §1 — calls -/

/-- The functions that read. `bl_read` and `bl_peek` may come with a timeout. -/
inductive Call where
  | available
  | read
  | blRead (tmout : Option Nat)
  | peek
  | blPeek (tmout : Option Nat)
deriving Repr, DecidableEq

/-- Whether a call takes the byte it returns. -/
def Call.reads : Call → Bool
  | read => true
  | blRead _ => true
  | _ => false

def Call.tmout : Call → Option Nat
  | blRead tmout => tmout
  | blPeek tmout => tmout
  | _ => none

/-- A call and when it was made. -/
structure Request where
  call : Call
  since : Nat
deriving Repr, DecidableEq

/-- Where the thread is. -/
inductive Reader where
  | idle
  /-- in the first `wait_next_apb_clk` of a call -/
  | entering (r : Request) (due : Nat)
  /-- in that of `available`, before the wait for a byte -/
  | asking (r : Request) (tmout due : Nat)
  /-- in `wait(tmout, from->data_written_event())` -/
  | waiting (r : Request) (deadline : Nat)
  /-- in the `wait_next_apb_clk` behind it -/
  | clocked (r : Request) (due : Nat)
  /-- in that of `available`, behind the wait for a byte -/
  | askingAgain (r : Request) (due : Nat)
  /-- in `from->read()` -/
  | blocked (r : Request)
deriving Repr, DecidableEq

/-- A call that has returned: when, how many bytes had been returned and had arrived before, and what
it has returned. -/
structure Answer where
  request : Request
  time : Nat
  returned : Nat
  arrived : Nat
  got : Int
deriving Repr, DecidableEq

/-- The byte a call has read. -/
def Answer.byteRead (a : Answer) : Option Int :=
  if a.request.call.reads && a.got != -1 then some a.got else none

/-- An `unsigned char` that is returned as an `int`. -/
def byte (b : BitVec 8) : Int := b.toNat

/-- `TestSerial`, its `from` FIFO and the thread that reads. `woken` says that the FIFO has been written
to since the thread went to sleep on it, `arrived` is what has become ready to be read so far. -/
structure TestSerial where
  apbPeriod : Nat
  now : Nat
  fromFifo : Fifo (BitVec 8)
  taken : Bool
  waiting : BitVec 8
  reader : Reader
  woken : Bool
  arrived : List (BitVec 8)
  answers : List Answer
deriving Repr, DecidableEq

namespace TestSerial

/-- What the reads have returned. -/
def returned (s : TestSerial) : List Int := s.answers.filterMap Answer.byteRead

/-- `wait_next_apb_clk`: the time it waits for. The period is in nanoseconds, and so is its offset. -/
def nextApbClk (s : TestSerial) : Nat := s.now + 1000 * (s.apbPeriod - s.now / 1000 % s.apbPeriod)

/-! ## §2 — the functions, from wait to wait -/

/-- A call returns. -/
def answer (r : Request) (got : Int) (s : TestSerial) : TestSerial :=
  { s with
    reader := .idle
    answers := s.answers ++ [⟨r, s.now, s.returned.length, s.arrived.length, got⟩] }

/-- `available`, behind its wait. -/
def count (s : TestSerial) : Nat :=
  if s.taken then 1 + s.fromFifo.numAvailable else s.fromFifo.numAvailable

/-- The end of a call that has read `b` from the FIFO. -/
def deliver (r : Request) (b : BitVec 8) (s : TestSerial) : TestSerial :=
  if r.call.reads then { s with fromFifo := s.fromFifo.read }.answer r (byte b)
  else { s with fromFifo := s.fromFifo.read, taken := true, waiting := b }.answer r (byte b)

/-- `from->read()`, which blocks while there is nothing. A peek sets `taken` before. -/
def fetch (r : Request) (s : TestSerial) : TestSerial :=
  match s.fromFifo.ready with
  | [] => { s with taken := s.taken || !r.call.reads, reader := .blocked r, woken := false }
  | b :: _ => s.deliver r b

/-- `read` and `peek`, when nothing is taken. -/
def poll (r : Request) (s : TestSerial) : TestSerial :=
  if s.fromFifo.numAvailable = 0 then s.answer r (-1) else s.fetch r

/-- `bl_read` and `bl_peek`, when nothing is taken. -/
def block (r : Request) (tmout : Option Nat) (s : TestSerial) : TestSerial :=
  match tmout with
  | none => s.fetch r
  | some t => { s with reader := .asking r t s.nextApbClk }

/-- A call behind its first wait. -/
def enter (r : Request) (s : TestSerial) : TestSerial :=
  match r.call with
  | .available => s.answer r s.count
  | .read => if s.taken then { s with taken := false }.answer r (byte s.waiting) else s.poll r
  | .blRead tmout =>
    if s.taken then { s with taken := false }.answer r (byte s.waiting) else s.block r tmout
  | .peek => if s.taken then s.answer r (byte s.waiting) else s.poll r
  | .blPeek tmout => if s.taken then s.answer r (byte s.waiting) else s.block r tmout

/-- The thread takes its turn, if it is awake. -/
def run (s : TestSerial) : TestSerial :=
  match s.reader with
  | .idle => s
  | .entering r due => if due ≤ s.now then s.enter r else s
  | .asking r tmout due =>
    if due ≤ s.now then
      if s.count = 0 then { s with reader := .waiting r (s.now + tmout), woken := false } else s.fetch r
    else s
  | .waiting r deadline =>
    if s.woken || decide (deadline ≤ s.now) then { s with reader := .clocked r s.nextApbClk } else s
  | .clocked r due => if due ≤ s.now then { s with reader := .askingAgain r s.nextApbClk } else s
  | .askingAgain r due =>
    if due ≤ s.now then if s.count = 0 then s.answer r (-1) else s.fetch r else s
  | .blocked r => if s.woken then s.fetch r else s

/-- The phase is over: what was written is ready, and a thread that sleeps on the FIFO is woken. -/
def delta (s : TestSerial) : TestSerial :=
  { s with
    fromFifo := s.fromFifo.update
    arrived := s.arrived ++ s.fromFifo.fresh
    woken := s.woken || !s.fromFifo.fresh.isEmpty }

/-- The thread makes a call, when it is in none, or takes its turn; the UART writes a byte, if there is
room; a phase is over; time passes. -/
inductive Event where
  | call (c : Call)
  | run
  | write (b : BitVec 8)
  | delta
  | pass (d : Nat)
deriving Repr, DecidableEq

def step (s : TestSerial) : Event → TestSerial
  | .call c => if s.reader = .idle then { s with reader := .entering ⟨c, s.now⟩ s.nextApbClk } else s
  | .run => s.run
  | .write b => if s.fromFifo.numFree = 0 then s else { s with fromFifo := s.fromFifo.write b }
  | .delta => s.delta
  | .pass d => { s with now := s.now + d }

/-- After construction. -/
def init (apbPeriod size : Nat) : TestSerial where
  apbPeriod := apbPeriod
  now := 0
  fromFifo := Fifo.init size
  taken := false
  waiting := 0
  reader := .idle
  woken := false
  arrived := []
  answers := []

/-! ## §3 — the specification -/

/-- What a call should have returned. `available` counts what has arrived and was not read; the others
return the first byte that was not read, or -1 if there was none, and a timeout was over then. -/
def Rightly (arrived : List (BitVec 8)) (a : Answer) : Prop :=
  if a.request.call = .available then a.got = (a.arrived - a.returned : Nat)
  else if a.got = -1 then
    a.arrived = a.returned ∧ ∀ t, a.request.call.tmout = some t → a.request.since + t ≤ a.time
  else (arrived.map byte)[a.returned]? = some a.got

/-- **Nothing is lost, repeated or made up**: the reads have returned the bytes that have arrived, in
their order, and every call has returned what it should. -/
structure Right (s : TestSerial) : Prop where
  inOrder : s.returned <+: s.arrived.map byte
  rightly : ∀ a ∈ s.answers, Rightly s.arrived a

/-! ## §4 — the invariant -/

/-- The byte that is kept. While a peek waits for a byte, `taken` is set and there is none. -/
def slot (s : TestSerial) : List (BitVec 8) :=
  match s.reader with
  | .blocked _ => []
  | _ => if s.taken then [s.waiting] else []

/-- What has arrived and was not read. -/
def unread (s : TestSerial) : List (BitVec 8) := s.slot ++ s.fromFifo.ready

/-- What the thread may rely on where it sleeps. -/
def Placed (s : TestSerial) : Prop :=
  match s.reader with
  | .idle => True
  | .entering r _ => r.since ≤ s.now
  | .asking r tmout _ => s.taken = false ∧ r.since ≤ s.now ∧ r.call.tmout = some tmout
  | .waiting r deadline => s.taken = false ∧ (∀ t, r.call.tmout = some t → r.since + t ≤ deadline) ∧
      r.call ≠ .available ∧ (s.woken = true → s.fromFifo.ready ≠ [])
  | .clocked r _ => s.taken = false ∧ r.call ≠ .available ∧
      ((∀ t, r.call.tmout = some t → r.since + t ≤ s.now) ∨ s.fromFifo.ready ≠ [])
  | .askingAgain r _ => s.taken = false ∧ r.call ≠ .available ∧
      ((∀ t, r.call.tmout = some t → r.since + t ≤ s.now) ∨ s.fromFifo.ready ≠ [])
  | .blocked r => s.taken = !r.call.reads ∧ r.call ≠ .available

/-- What has arrived is what was returned and what is unread. -/
structure Kept (s : TestSerial) : Prop where
  conserved : s.arrived.map byte = s.returned ++ s.unread.map byte
  rightly : ∀ a ∈ s.answers, Rightly s.arrived a
  placed : s.Placed

theorem Kept.right {s : TestSerial} (h : Kept s) : Right s := ⟨⟨_, h.conserved.symm⟩, h.rightly⟩

theorem byte_ne (b : BitVec 8) : byte b ≠ -1 := by
  unfold byte
  omega

section Kept

variable {s : TestSerial}

/-- With `taken` clear no byte is kept. -/
theorem slot_free (htaken : s.taken = false) : s.slot = [] := by
  unfold slot
  split
  · rfl
  · rw [htaken]
    rfl

theorem unread_free (htaken : s.taken = false) : s.unread = s.fromFifo.ready := by
  unfold unread
  rw [slot_free htaken, List.nil_append]

theorem Kept.length (h : Kept s) : s.arrived.length = s.returned.length + s.unread.length := by
  have hlength := congrArg List.length h.conserved
  simpa using hlength

/-- The first byte that is unread is the next one of those that have arrived. -/
theorem Kept.next (h : Kept s) {b : BitVec 8} {rest : List (BitVec 8)} (hunread : s.unread = b :: rest) :
    (s.arrived.map byte)[s.returned.length]? = some (byte b) := by
  rw [h.conserved, hunread, List.getElem?_append_right (Nat.le_refl _), Nat.sub_self]
  rfl

theorem returned_answer (r : Request) (got : Int) (s : TestSerial) :
    (s.answer r got).returned =
      s.returned ++ if r.call.reads && got != -1 then [got] else [] := by
  have hsingle : ∀ a : Answer, [a].filterMap Answer.byteRead =
      if a.request.call.reads && a.got != -1 then [a.got] else [] := by
    intro a
    rw [List.filterMap_cons, List.filterMap_nil]
    unfold Answer.byteRead
    cases a.request.call.reads && a.got != -1 <;> rfl
  show (s.answers ++ [_]).filterMap Answer.byteRead = _
  rw [List.filterMap_append, hsingle]
  rfl

/-- **A call returns** from a state that has the same arrivals and answers. -/
theorem Kept.answer (h : Kept s) {s' : TestSerial} {r : Request} {got : Int}
    (harrived : s'.arrived = s.arrived) (hanswers : s'.answers = s.answers)
    (hrightly : Rightly s.arrived ⟨r, s'.now, s.returned.length, s.arrived.length, got⟩)
    (hunread : s.unread.map byte =
      (if r.call.reads && got != -1 then [got] else []) ++ (s'.answer r got).unread.map byte) :
    Kept (s'.answer r got) := by
  have hreturned : s'.returned = s.returned := congrArg (List.filterMap Answer.byteRead) hanswers
  refine ⟨?_, ?_, trivial⟩
  · rw [returned_answer, hreturned, List.append_assoc, ← hunread]
    show s'.arrived.map byte = _
    rw [harrived]
    exact h.conserved
  · intro a ha
    have ha : a ∈ s'.answers ++ [⟨r, s'.now, s'.returned.length, s'.arrived.length, got⟩] := ha
    show Rightly s'.arrived a
    rw [harrived] at ha ⊢
    rw [hanswers, hreturned] at ha
    rcases List.mem_append.mp ha with hold | hnew
    · exact h.rightly a hold
    · rw [List.mem_singleton.mp hnew]
      exact hrightly

/-- **A byte is returned**: the first one that is unread. A read takes it, a peek leaves it. -/
theorem Kept.returns (h : Kept s) {s' : TestSerial} {r : Request} {b : BitVec 8} {rest : List (BitVec 8)}
    (hcall : r.call ≠ .available) (harrived : s'.arrived = s.arrived) (hanswers : s'.answers = s.answers)
    (hunread : s.unread = b :: rest)
    (hleft : (s'.answer r (byte b)).unread = if r.call.reads then rest else b :: rest) :
    Kept (s'.answer r (byte b)) := by
  refine h.answer harrived hanswers ?_ ?_
  · unfold Rightly
    rw [if_neg hcall, if_neg (byte_ne b)]
    exact h.next hunread
  · have hbyte : (byte b != -1) = true := bne_iff_ne.mpr (byte_ne b)
    rw [hleft, hunread, hbyte, Bool.and_true]
    cases r.call.reads <;> rfl

/-- **Nothing is returned**, for there is nothing. -/
theorem Kept.nothing (h : Kept s) {r : Request} (hcall : r.call ≠ .available) (htaken : s.taken = false)
    (hready : s.fromFifo.ready = []) (htmout : ∀ t, r.call.tmout = some t → r.since + t ≤ s.now) :
    Kept (s.answer r (-1)) := by
  have hunread : s.unread = [] := (unread_free htaken).trans hready
  have hleft : (s.answer r (-1)).unread = [] := (unread_free (s := s.answer r (-1)) htaken).trans hready
  refine h.answer rfl rfl ?_ ?_
  · unfold Rightly
    rw [if_neg hcall, if_pos rfl]
    refine ⟨?_, htmout⟩
    show s.arrived.length = s.returned.length
    rw [h.length, hunread]
    rfl
  · have hnot : ((-1 : Int) != -1) = false := rfl
    rw [hunread, hleft, hnot, Bool.and_false]
    rfl

/-- **A byte is taken from the FIFO**, by a thread that has looked at `taken`. -/
theorem Kept.deliver (h : Kept s) {r : Request} {b : BitVec 8} {bs : List (BitVec 8)}
    (hcall : r.call ≠ .available) (hslot : s.slot = []) (hready : s.fromFifo.ready = b :: bs)
    (htaken : r.call.reads = true → s.taken = false) : Kept (s.deliver r b) := by
  have hunread : s.unread = b :: bs := by
    unfold unread
    rw [hslot, hready]
    rfl
  have htail : s.fromFifo.read.ready = bs := by
    show s.fromFifo.ready.tail = bs
    rw [hready]
    rfl
  unfold TestSerial.deliver
  split
  next hreads =>
    refine h.returns hcall rfl rfl hunread ?_
    show (if s.taken then [s.waiting] else []) ++ s.fromFifo.read.ready = _
    rw [htaken hreads, htail, if_pos hreads]
    rfl
  next hpeeks =>
    refine h.returns hcall rfl rfl hunread ?_
    show [b] ++ s.fromFifo.read.ready = _
    rw [htail, if_neg hpeeks]
    rfl

/-- A thread that goes to sleep, or on with its call, without touching a byte. -/
theorem Kept.moves (h : Kept s) {s' : TestSerial} (harrived : s'.arrived = s.arrived)
    (hanswers : s'.answers = s.answers) (hunread : s'.unread = s.unread) (hplaced : s'.Placed) : Kept s' where
  conserved := by
    have hreturned : s'.returned = s.returned := congrArg (List.filterMap Answer.byteRead) hanswers
    rw [harrived, hreturned, hunread]
    exact h.conserved
  rightly a ha := by
    rw [harrived]
    rw [hanswers] at ha
    exact h.rightly a ha
  placed := hplaced

/-- A thread that goes to sleep somewhere else, with nothing taken. -/
theorem Kept.sleeps (h : Kept s) {s' : TestSerial} (harrived : s'.arrived = s.arrived)
    (hanswers : s'.answers = s.answers) (hfifo : s'.fromFifo = s.fromFifo) (htaken : s.taken = false)
    (hfree : s'.taken = false) (hplaced : s'.Placed) : Kept s' := by
  refine h.moves harrived hanswers ?_ hplaced
  rw [unread_free hfree, unread_free htaken, hfifo]

/-- **`from->read()`**, by a thread that has looked at `taken`. -/
theorem Kept.fetch (h : Kept s) {r : Request} (hcall : r.call ≠ .available) (hslot : s.slot = [])
    (htaken : r.call.reads = true → s.taken = false) : Kept (s.fetch r) := by
  unfold TestSerial.fetch
  split
  next hempty =>
    refine h.moves rfl rfl ?_ ?_
    · show [] ++ s.fromFifo.ready = s.slot ++ s.fromFifo.ready
      rw [hslot]
    · refine ⟨?_, hcall⟩
      show (s.taken || !r.call.reads) = !r.call.reads
      cases hreads : r.call.reads with
      | true =>
        rw [htaken hreads]
        rfl
      | false => exact Bool.or_true _
  next b bs hready => exact h.deliver hcall hslot hready htaken

end Kept

/-! ## §5 — a call -/

section Enter

variable {s : TestSerial} {r : Request} {due : Nat}

theorem unread_entering (hreader : s.reader = .entering r due) :
    s.unread = (if s.taken then [s.waiting] else []) ++ s.fromFifo.ready := by
  unfold unread slot
  rw [hreader]

/-- What `available` returns is the number of unread bytes. -/
theorem count_unread (h : Kept s) (hreader : s.reader = .entering r due) :
    (s.count : Nat) = s.arrived.length - s.returned.length := by
  rw [h.length, unread_entering hreader, Nat.add_sub_cancel_left]
  unfold count Fifo.numAvailable
  cases s.taken with
  | true => simp [Nat.add_comm]
  | false => simp

/-- **A byte that was kept is returned.** A peek keeps it. -/
theorem Kept.kept (h : Kept s) (hreader : s.reader = .entering r due) (hcall : r.call ≠ .available)
    (htaken : s.taken = true) {s' : TestSerial} (harrived : s'.arrived = s.arrived)
    (hanswers : s'.answers = s.answers) (hfifo : s'.fromFifo = s.fromFifo)
    (hwaiting : s'.waiting = s.waiting) (hkeeps : s'.taken = !r.call.reads) :
    Kept (s'.answer r (byte s.waiting)) := by
  have hunread : s.unread = s.waiting :: s.fromFifo.ready := by
    rw [unread_entering hreader, if_pos htaken]
    rfl
  refine h.returns hcall harrived hanswers hunread ?_
  show (if s'.taken then [s'.waiting] else []) ++ s'.fromFifo.ready = _
  rw [hkeeps, hwaiting, hfifo]
  cases r.call.reads <;> rfl

theorem Kept.poll (h : Kept s) (hcall : r.call ≠ .available)
    (htmout : r.call.tmout = none) (htaken : s.taken = false) : Kept (s.poll r) := by
  unfold TestSerial.poll
  split
  next hempty =>
    refine h.nothing hcall htaken (List.length_eq_zero_iff.mp hempty) fun t ht => ?_
    exact absurd (htmout.symm.trans ht) nofun
  next => exact h.fetch hcall (slot_free htaken) fun _ => htaken

theorem Kept.block (h : Kept s) (hreader : s.reader = .entering r due) (hcall : r.call ≠ .available)
    (htaken : s.taken = false) : Kept (s.block r r.call.tmout) := by
  have hplaced := h.placed
  unfold Placed at hplaced
  rw [hreader] at hplaced
  unfold TestSerial.block
  split
  next => exact h.fetch hcall (slot_free htaken) fun _ => htaken
  next t ht =>
    exact h.sleeps rfl rfl rfl htaken htaken ⟨htaken, hplaced, ht⟩

/-- **A call behind its first wait.** -/
theorem Kept.enter (h : Kept s) (hreader : s.reader = .entering r due) : Kept (s.enter r) := by
  unfold TestSerial.enter
  cases hcall : r.call with
  | available =>
    refine h.answer rfl rfl ?_ ?_
    · unfold Rightly
      rw [if_pos hcall]
      exact congrArg Nat.cast (count_unread h hreader)
    · rw [hcall]
      show _ = [] ++ ((if s.taken then [s.waiting] else []) ++ s.fromFifo.ready).map byte
      rw [unread_entering hreader]
      rfl
  | read =>
    have hother : r.call ≠ .available := hcall ▸ Call.noConfusion
    dsimp only
    split
    next htaken => exact h.kept hreader hother htaken rfl rfl rfl rfl (by rw [hcall]; rfl)
    next hfree => exact h.poll hother (by rw [hcall]; rfl) (eq_false_of_ne_true hfree)
  | peek =>
    have hother : r.call ≠ .available := hcall ▸ Call.noConfusion
    dsimp only
    split
    next htaken => exact h.kept hreader hother htaken rfl rfl rfl rfl (by rw [htaken, hcall]; rfl)
    next hfree => exact h.poll hother (by rw [hcall]; rfl) (eq_false_of_ne_true hfree)
  | blRead tmout =>
    have hother : r.call ≠ .available := hcall ▸ Call.noConfusion
    have hblock := h.block hreader hother
    rw [hcall] at hblock
    dsimp only
    split
    next htaken => exact h.kept hreader hother htaken rfl rfl rfl rfl (by rw [hcall]; rfl)
    next hfree => exact hblock (eq_false_of_ne_true hfree)
  | blPeek tmout =>
    have hother : r.call ≠ .available := hcall ▸ Call.noConfusion
    have hblock := h.block hreader hother
    rw [hcall] at hblock
    dsimp only
    split
    next htaken => exact h.kept hreader hother htaken rfl rfl rfl rfl (by rw [htaken, hcall]; rfl)
    next hfree => exact hblock (eq_false_of_ne_true hfree)

end Enter

/-! ## §6 — every event -/

section Step

variable {s : TestSerial}

/-- **A turn of the thread.** -/
theorem Kept.run (h : Kept s) : Kept s.run := by
  have hplaced := h.placed
  unfold Placed at hplaced
  unfold TestSerial.run
  cases hreader : s.reader with
  | idle => exact h
  | entering r due =>
    dsimp only
    split
    · exact h.enter hreader
    · exact h
  | asking r tmout due =>
    rw [hreader] at hplaced
    obtain ⟨htaken, hsince, htmout⟩ := hplaced
    have hother : r.call ≠ .available := fun hcall => by
      rw [hcall] at htmout
      exact nomatch htmout
    dsimp only
    split
    · split
      · refine h.sleeps rfl rfl rfl htaken htaken ⟨htaken, fun t ht => ?_, hother, fun hno => nomatch hno⟩
        obtain rfl := Option.some.inj (htmout.symm.trans ht)
        exact Nat.add_le_add_right hsince tmout
      · exact h.fetch hother (slot_free htaken) fun _ => htaken
    · exact h
  | waiting r deadline =>
    rw [hreader] at hplaced
    obtain ⟨htaken, hdeadline, hother, hwoken⟩ := hplaced
    dsimp only
    split
    next hawake =>
      refine h.sleeps rfl rfl rfl htaken htaken ⟨htaken, hother, ?_⟩
      -- woken by a byte, or by the time
      rcases Bool.or_eq_true_iff.mp hawake with hbyte | htime
      · exact Or.inr (hwoken hbyte)
      · exact Or.inl fun t ht => Nat.le_trans (hdeadline t ht) (of_decide_eq_true htime)
    next => exact h
  | clocked r due =>
    rw [hreader] at hplaced
    obtain ⟨htaken, hother, hcause⟩ := hplaced
    dsimp only
    split
    · exact h.sleeps rfl rfl rfl htaken htaken ⟨htaken, hother, hcause⟩
    · exact h
  | askingAgain r due =>
    rw [hreader] at hplaced
    obtain ⟨htaken, hother, hcause⟩ := hplaced
    dsimp only
    split
    · split
      next hcount =>
        have hready : s.fromFifo.ready = [] := by
          unfold count at hcount
          rw [htaken] at hcount
          exact List.length_eq_zero_iff.mp hcount
        exact h.nothing hother htaken hready (hcause.resolve_right fun hno => hno hready)
      next => exact h.fetch hother (slot_free htaken) fun _ => htaken
    · exact h
  | blocked r =>
    rw [hreader] at hplaced
    obtain ⟨htaken, hother⟩ := hplaced
    dsimp only
    split
    · refine h.fetch hother ?_ fun hreads => ?_
      · unfold slot
        rw [hreader]
      · rw [htaken, hreads]
        rfl
    · exact h

/-- What was right stays right when bytes arrive. -/
theorem Rightly.append {arrived : List (BitVec 8)} {a : Answer} (h : Rightly arrived a)
    (more : List (BitVec 8)) : Rightly (arrived ++ more) a := by
  unfold Rightly at h ⊢
  split
  next hcall =>
    rw [if_pos hcall] at h
    exact h
  next hcall =>
    rw [if_neg hcall] at h
    split
    next hgot =>
      rw [if_pos hgot] at h
      exact h
    next hgot =>
      rw [if_neg hgot] at h
      rw [List.map_append]
      rw [List.getElem?_append_left (List.getElem?_eq_some_iff.mp h).1]
      exact h

/-- What holds of a thread that sleeps goes on to hold when time passes and bytes arrive. -/
theorem Placed.later (h : s.Placed) {s' : TestSerial} (hreader : s'.reader = s.reader)
    (htaken : s'.taken = s.taken) (hnow : s.now ≤ s'.now)
    (hready : s.fromFifo.ready ≠ [] → s'.fromFifo.ready ≠ [])
    (hwoken : s'.woken = true → s.woken = true ∨ s'.fromFifo.ready ≠ []) : s'.Placed := by
  unfold Placed at h ⊢
  rw [hreader, htaken]
  cases hplace : s.reader with
  | idle => trivial
  | entering r due =>
    rw [hplace] at h
    exact Nat.le_trans h hnow
  | asking r tmout due =>
    rw [hplace] at h
    exact ⟨h.1, Nat.le_trans h.2.1 hnow, h.2.2⟩
  | waiting r deadline =>
    rw [hplace] at h
    obtain ⟨hfree, hdeadline, hother, hbyte⟩ := h
    exact ⟨hfree, hdeadline, hother, fun hw => (hwoken hw).elim (fun hold => hready (hbyte hold)) id⟩
  | clocked r due =>
    rw [hplace] at h
    exact ⟨h.1, h.2.1, h.2.2.imp (fun htime t ht => Nat.le_trans (htime t ht) hnow) hready⟩
  | askingAgain r due =>
    rw [hplace] at h
    exact ⟨h.1, h.2.1, h.2.2.imp (fun htime t ht => Nat.le_trans (htime t ht) hnow) hready⟩
  | blocked r =>
    rw [hplace] at h
    exact h

/-- **Bytes arrive.** -/
theorem Kept.delta (h : Kept s) : Kept s.delta where
  conserved := by
    have hunread : s.delta.unread = s.unread ++ s.fromFifo.fresh := (List.append_assoc _ _ _).symm
    show (s.arrived ++ s.fromFifo.fresh).map byte = s.returned ++ s.delta.unread.map byte
    rw [hunread, List.map_append, List.map_append, h.conserved, List.append_assoc]
  rightly a ha := (h.rightly a ha).append s.fromFifo.fresh
  placed := by
    refine h.placed.later rfl rfl (Nat.le_refl _) (fun hne => ?_) (fun hwoken => ?_)
    · exact List.append_ne_nil_of_left_ne_nil hne _
    · rcases Bool.or_eq_true_iff.mp hwoken with hold | hnew
      · exact Or.inl hold
      · refine Or.inr (List.append_ne_nil_of_right_ne_nil _ ?_)
        rw [Bool.not_eq_true', List.isEmpty_eq_false_iff] at hnew
        exact hnew

/-- **One step.** -/
theorem Kept.step (h : Kept s) (e : Event) : Kept (s.step e) := by
  cases e with
  | call c =>
    show Kept (if s.reader = .idle then { s with reader := .entering ⟨c, s.now⟩ s.nextApbClk } else s)
    split
    next hidle =>
      refine h.moves rfl rfl ?_ (Nat.le_refl _)
      unfold unread slot
      rw [hidle]
    next => exact h
  | run => exact h.run
  | write b =>
    show Kept (if s.fromFifo.numFree = 0 then s else { s with fromFifo := s.fromFifo.write b })
    split
    · exact h
    · exact h.moves rfl rfl rfl (h.placed.later rfl rfl (Nat.le_refl _) id Or.inl)
  | delta => exact h.delta
  | pass d => exact h.moves rfl rfl rfl (h.placed.later rfl rfl (Nat.le_add_right _ _) id Or.inl)

end Step

/-- After construction. -/
theorem kept_init (apbPeriod size : Nat) : Kept (init apbPeriod size) where
  conserved := rfl
  rightly _ h := nomatch h
  placed := trivial

end TestSerial

end Espmod.Serial
