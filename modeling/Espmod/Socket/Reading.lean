/-
# Espmod.Socket.Reading — one reader at a time

Every call that reads takes `__oneread` first and keeps it until it has what it wants, also while it
waits for characters. An idle descriptor with a waiting reader therefore holds up the readers of all
the others, whatever their buffers hold: the semaphore is there so that the threads do not run into
each other, and it is the only one.

What the semaphore does give is an order. At most one thread is inside the reading section, the
semaphore is taken exactly while one is, the one inside gives it up in the very step in which it has
everything it wants, and a thread that finds it free and has everything in its buffer does not wait at
all.
-/
import Espmod.Socket.Isolation

namespace Espmod.Socket

open Espmod.Lib Espmod.Lib.Text

/-! ## §1 — enough in the buffer -/

/-- The buffer holds what a reader wants: the end of a line, or all its characters. -/
def Reader.enough : Reader → Bytes → Prop
  | readline crseen, bs => str "\r\n" <:+: (if crseen then chr '\r' :: bs else bs)
  | receive more, bs => more < bs.length

instance (reader : Reader) (bs : Bytes) : Decidable (reader.enough bs) := by
  cases reader <;> unfold Reader.enough <;> infer_instance

theorem Reader.enough_readline {crseen : Bool} {c : UInt8} {cs : Bytes} :
    (Reader.readline crseen).enough (c :: cs) ↔
      (c = chr '\n' ∧ crseen = true) ∨ (Reader.readline (c = chr '\r')).enough cs := by
  -- the line ends at the head of `bs`, or behind it
  have hstr : str "\r\n" = [chr '\r', chr '\n'] := by decide
  have hcons : ∀ (b : UInt8) (bs : Bytes), str "\r\n" <:+: b :: bs ↔
      b = chr '\r' ∧ [chr '\n'] <+: bs ∨ str "\r\n" <:+: bs := by
    intro b bs
    rw [List.infix_cons_iff, hstr, List.cons_prefix_cons, eq_comm (a := chr '\r')]
  have hend : [chr '\n'] <+: c :: cs ↔ c = chr '\n' := by
    rw [List.cons_prefix_cons, eq_comm (a := chr '\n')]
    simp
  have hrest : str "\r\n" <:+: c :: cs ↔ (Reader.readline (c = chr '\r')).enough cs := by
    by_cases hc : c = chr '\r'
    · simp [Reader.enough, hc]
    · rw [hcons]
      simp [Reader.enough, hc]
  cases crseen with
  | false =>
    show str "\r\n" <:+: c :: cs ↔ _
    rw [hrest]
    simp
  | true =>
    show str "\r\n" <:+: chr '\r' :: c :: cs ↔ _
    rw [hcons, hend, hrest]
    simp

theorem Reader.enough_receive {more : Nat} {c : UInt8} {cs : Bytes} :
    (Reader.receive more).enough (c :: cs) ↔ more = 0 ∨ (Reader.receive (more - 1)).enough cs := by
  show more < cs.length + 1 ↔ more = 0 ∨ more - 1 < cs.length
  omega

/-- **A reader ends its loop without a wait exactly when the buffer holds enough.** -/
theorem Reader.run_eq_none {bs : Bytes} : ∀ {reader : Reader},
    (reader.run bs).1 = none ↔ reader.enough bs := by
  induction bs with
  | nil =>
    intro reader
    cases reader with
    | readline crseen => cases crseen <;> decide
    | receive more => simp [run, enough]
  | cons c cs ih =>
    intro reader
    cases reader with
    | readline crseen =>
      rw [run, enough_readline]
      split
      next h => simp [h]
      next h =>
        rw [ih]
        simp [h]
    | receive more =>
      rw [run, enough_receive]
      split
      next h => simp [h]
      next h =>
        rw [ih]
        simp [h]

/-- The buffer holds everything a call reads. Without `MSG_WAITALL` that is what there is. -/
def ReadFor.enough : ReadFor → Bytes → Prop
  | recv _ len waitall _, bs => waitall = true → len ≤ bs.length
  | accept _ _, bs => (Reader.readline false).enough bs
  | connect _ _, bs => (Reader.readline false).enough bs

instance (k : ReadFor) (bs : Bytes) : Decidable (k.enough bs) := by
  cases k <;> unfold ReadFor.enough <;> infer_instance

/-! ## §2 — the reading section -/

/-- Inside the reading section. -/
def Task.reads : Task → Bool
  | reading _ _ _ _ _ => true
  | _ => false

/-- The read a thread waits for `__oneread` with. -/
def Task.pending : Task → Option ReadFor
  | readSem k => some k
  | _ => none

/-- The read a thread holds `__oneread` for, the index it waits at, and the notifications before its
wait. -/
def Task.holding : Task → Option (ReadFor × Nat × Nat)
  | reading k ind _ _ since => some (k, ind, since)
  | _ => none

/-- Behind the reading section, or in no call. -/
def Task.behind : Task → Bool
  | idle => true
  | writeSem _ _ => true
  | _ => false

theorem Task.reads_of_behind {t : Task} (h : t.behind = true) : t.reads = false := by
  cases t <;> first | rfl | cases h

namespace Firmware

variable {w w' : Firmware} {r ind : Nat} {t : Task}

/-- The index at which a call reads once it has `__oneread`. -/
def readsAt (w : Firmware) : ReadFor → Option Nat
  | .recv fd _ _ _ => getind w.net.fdlist fd
  | .accept fd _ => getind w.net.fdlist fd
  | .connect _ ind => (w.net.fdlist[ind]?).bind fun f => getind w.net.fdlist f.fdn

/-- The buffer of the call's descriptor holds everything it needs. -/
def holds (w : Firmware) (k : ReadFor) : Prop :=
  ∃ ind ∈ w.readsAt k, ∃ f ∈ w.net.fdlist[ind]?, k.enough f.buffer

instance (w : Firmware) (k : ReadFor) : Decidable (w.holds k) :=
  inferInstanceAs (Decidable (∃ ind ∈ w.readsAt k, _))

/-- The thread is inside the reading section. -/
def ReadingAt (w : Firmware) (q : Nat) : Prop := ∃ t, w.threads[q]? = some t ∧ t.reads = true

/-- The thread is behind the reading section, and `__oneread` is posted. -/
def Served (r : Nat) (w : Firmware) : Prop :=
  w.oneread = false ∧ ∃ t, w.threads[r]? = some t ∧ t.behind = true

/-- The thread `r` has everything it needs and waits for `__oneread`, which `q` holds while it waits
in front of the empty buffer of another descriptor. -/
def Stalled (w : Firmware) (r q : Nat) : Prop :=
  ∃ k ∈ (w.threads[r]?).bind Task.pending, ∃ h ∈ (w.threads[q]?).bind Task.holding,
    k.fd ≠ h.1.fd ∧ w.holds k ∧ w.oneread = true ∧ h.2.2 = w.net.notified ∧
      ∃ f ∈ w.net.fdlist[h.2.1]?, f.buffer = []

instance (w : Firmware) (r q : Nat) : Decidable (w.Stalled r q) :=
  inferInstanceAs (Decidable (∃ k ∈ (w.threads[r]?).bind Task.pending, _))

/-- No thread is stalled behind another. -/
def Flowing (_ : List Step) (w : Firmware) : Prop :=
  ∀ r < w.threads.length, ∀ q < w.threads.length, ¬ w.Stalled r q

instance (es : List Step) (w : Firmware) : Decidable (Flowing es w) :=
  inferInstanceAs (Decidable (∀ r < _, _))

/-! ## §3 — what a thread does to the semaphore -/

/-- The thread `r` has gone on to the wait `t`, and `__oneread` is `b`. -/
structure Moved (r : Nat) (t : Task) (b : Bool) (w w' : Firmware) : Prop where
  threads : w'.threads = w.threads.set r t
  oneread : w'.oneread = b
  pc : w'.net.pc = w.net.pc ∨ w'.net.pc = .crashed

/-- How a reading section goes on. -/
inductive Outcome (r : Nat) (w w' : Firmware) : Prop
  | lost (hpc : w'.net.pc = .crashed)
  | waits (t : Task) (ht : t.reads = true) (hm : Moved r t w.oneread w w')
  | behind (t : Task) (ht : t.behind = true) (hm : Moved r t false w w')

theorem acceptLine_moved (w : Firmware) (r : Nat) (fd : Int) (ind : Nat) (msg : Bytes) :
    ∃ t, t.behind = true ∧ Moved r t w.oneread w (w.acceptLine r fd ind msg) := by
  unfold acceptLine
  split
  · exact ⟨.idle, rfl, rfl, rfl, Or.inl rfl⟩
  · split
    · exact ⟨.idle, rfl, rfl, rfl, Or.inl rfl⟩
    next afd fdlist _ =>
      dsimp only
      split
      · exact ⟨.idle, rfl, rfl, rfl, Or.inl rfl⟩
      · split
        · exact ⟨.idle, rfl, rfl, rfl, Or.inr rfl⟩
        next f _ =>
          exact ⟨.writeSem (.accept fd ind afd) (Sockets.acceptMsg f.port w.adapter), rfl, rfl, rfl,
            Or.inl rfl⟩

theorem connectLine_moved (w : Firmware) (r : Nat) (fd : Int) (ind : Nat) (msg : Bytes) :
    ∃ t, t.behind = true ∧ Moved r t w.oneread w (w.connectLine r fd ind msg) := by
  unfold connectLine
  split
  · dsimp only
    split
    · exact ⟨.idle, rfl, rfl, rfl, Or.inr rfl⟩
    · exact ⟨.idle, rfl, rfl, rfl, Or.inl rfl⟩
  · exact ⟨.idle, rfl, rfl, rfl, Or.inl rfl⟩

theorem readDone_moved (w : Firmware) (r : Nat) (k : ReadFor) (got : Bytes) :
    ∃ t, t.behind = true ∧ Moved r t w.oneread w (w.readDone r k got) := by
  cases k with
  | recv fd len waitall dontwait => exact ⟨.idle, rfl, rfl, rfl, Or.inl rfl⟩
  | accept fd ind => exact w.acceptLine_moved r fd ind _
  | connect fd ind => exact w.connectLine_moved r fd ind _

theorem readFail_moved (w : Firmware) (r : Nat) : Moved r .idle false w (w.readFail r) :=
  ⟨rfl, rfl, Or.inl rfl⟩

/-- A read that finds enough leaves its section in the same step. -/
theorem read_behind {f : Fd} (hf : w.net.fdlist[ind]? = some f) {reader : Reader}
    (henough : reader.enough f.buffer) (r : Nat) (k : ReadFor) (got : Bytes) :
    ∃ t, t.behind = true ∧ Moved r t false w (w.read r k ind reader got) := by
  have hrun := Reader.run_eq_none.mpr henough
  unfold read
  rw [hf]
  dsimp only
  generalize reader.run f.buffer = out at hrun ⊢
  obtain ⟨reader', rest⟩ := out
  obtain rfl : reader' = none := hrun
  dsimp only
  obtain ⟨t, ht, hm⟩ := readDone_moved
    { (w.touch k.fd ind (f.buffer.take (f.buffer.length - rest.length))).setFdlist
        (update w.net.fdlist ind (·.consume rest)) with oneread := false } r k
    (got ++ f.buffer.take (f.buffer.length - rest.length))
  exact ⟨t, ht, hm.threads, hm.oneread, hm.pc⟩

/-- **A read** ends, waits inside its section, or leaves the table. -/
theorem read_outcome (w : Firmware) (r : Nat) (k : ReadFor) (ind : Nat) (reader : Reader)
    (got : Bytes) : Outcome r w (w.read r k ind reader got) := by
  cases hf : w.net.fdlist[ind]? with
  | none =>
    refine .lost ?_
    unfold read
    rw [hf]
    rfl
  | some f =>
    by_cases henough : reader.enough f.buffer
    · obtain ⟨t, ht, hm⟩ := read_behind hf henough r k got
      exact .behind t ht hm
    · have hrun := mt Reader.run_eq_none.mp henough
      unfold read
      rw [hf]
      dsimp only
      generalize reader.run f.buffer = out at hrun ⊢
      obtain ⟨reader', rest⟩ := out
      cases reader' with
      | none => exact absurd rfl hrun
      | some reader' =>
        exact .waits (.reading k ind reader'
          (got ++ f.buffer.take (f.buffer.length - rest.length)) w.net.notified) rfl
          ⟨rfl, rfl, Or.inl rfl⟩

theorem receive_outcome (w : Firmware) (r : Nat) (fd : Int) (len : Nat) (waitall dontwait : Bool) :
    Outcome r w (w.receive r fd len waitall dontwait) := by
  have hfail : Outcome r w (w.readFail r) := .behind .idle rfl (w.readFail_moved r)
  unfold receive
  split
  · exact hfail
  · dsimp only
    split_ifs
    · exact hfail
    · exact hfail
    · exact hfail
    · exact hfail
    · exact hfail
    · exact w.read_outcome r _ _ _ _
    · exact .behind .idle rfl ⟨rfl, rfl, Or.inl rfl⟩

theorem startRead_outcome (w : Firmware) (r : Nat) (k : ReadFor) : Outcome r w (w.startRead r k) := by
  have hfail : Outcome r w (w.readFail r) := .behind .idle rfl (w.readFail_moved r)
  cases k with
  | recv fd len waitall dontwait => exact w.receive_outcome r fd len waitall dontwait
  | accept fd ind₀ =>
    unfold startRead
    dsimp only
    split
    · exact hfail
    · exact w.read_outcome r _ _ _ _
  | connect fd ind₀ =>
    unfold startRead
    dsimp only
    split
    · exact .lost rfl
    · split
      · exact .behind .idle rfl ⟨rfl, rfl, Or.inl rfl⟩
      next ind _ =>
        cases (w.touch fd ind₀ []).read_outcome r (.connect fd ind₀) ind (.readline false) [] with
        | lost hpc => exact .lost hpc
        | waits t ht hm => exact .waits t ht ⟨hm.threads, hm.oneread, hm.pc⟩
        | behind t ht hm => exact .behind t ht ⟨hm.threads, hm.oneread, hm.pc⟩

/-- **A call that takes `__oneread` and has everything in its buffer does not wait.** -/
theorem startRead_behind {k : ReadFor} (h : w.holds k) (r : Nat) :
    ∃ t, t.behind = true ∧ Moved r t false w (w.startRead r k) := by
  obtain ⟨ind, hind, f, hf, henough⟩ := h
  have hf' : w.net.fdlist[ind]? = some f := hf
  cases k with
  | recv fd len waitall dontwait =>
    have hind' : getind w.net.fdlist fd = some ind := hind
    have hfail : ∃ t, t.behind = true ∧ Moved r t false w (w.readFail r) :=
      ⟨.idle, rfl, w.readFail_moved r⟩
    show ∃ t, t.behind = true ∧ Moved r t false w (w.receive r fd len waitall dontwait)
    unfold receive
    rw [hind']
    dsimp only
    split_ifs with _ _ _ _ hlen hwait
    · exact hfail
    · exact hfail
    · exact hfail
    · exact hfail
    · exact hfail
    · apply read_behind hf'
      have hle : len ≤ f.buffer.length := henough hwait
      show len - 1 < f.buffer.length
      omega
    · exact ⟨.idle, rfl, rfl, rfl, Or.inl rfl⟩
  | accept fd ind₀ =>
    have hind' : getind w.net.fdlist fd = some ind := hind
    unfold startRead
    dsimp only
    rw [hind']
    have hline : (Reader.readline false).enough f.buffer := henough
    exact read_behind hf' hline r _ _
  | connect fd ind₀ =>
    obtain ⟨f₀, hf₀, hind'⟩ := Option.bind_eq_some_iff.mp hind
    have hf₀' : (w.touch fd ind₀ []).net.fdlist[ind₀]? = some f₀ := hf₀
    have hind'' : getind (w.touch fd ind₀ []).net.fdlist f₀.fdn = some ind := hind'
    unfold startRead
    dsimp only
    rw [hf₀']
    dsimp only
    rw [hind'']
    dsimp only
    have hf'' : (w.touch fd ind₀ []).net.fdlist[ind]? = some f := hf'
    have hline : (Reader.readline false).enough f.buffer := henough
    obtain ⟨t, ht, hm⟩ := read_behind hf'' hline r (.connect fd ind₀) []
    exact ⟨t, ht, hm.threads, hm.oneread, hm.pc⟩

/-! ## §4 — what the rest of the calls does to it -/

/-- The thread has gone on to a wait outside the reading section and left the semaphore alone. -/
def Elsewhere (r : Nat) (w w' : Firmware) : Prop := ∃ t, t.reads = false ∧ Moved r t w.oneread w w'

theorem closeReturn_elsewhere (w : Firmware) (r : Nat) (callers : List CloseFrame) :
    Elsewhere r w (w.closeReturn r callers) := by
  unfold closeReturn
  split
  · exact ⟨.idle, rfl, rfl, rfl, Or.inl rfl⟩
  · exact ⟨.closing callers, rfl, rfl, rfl, Or.inl rfl⟩

theorem erase_elsewhere (w : Firmware) (r : Nat) (fd : Int) (ind : Nat) (callers : List CloseFrame) :
    Elsewhere r w (w.erase r fd ind callers) := by
  unfold erase
  dsimp only
  split
  · obtain ⟨t, ht, hm⟩ := closeReturn_elsewhere
      { w.touch fd ind [] with
        net := { w.net with fdlist := w.net.fdlist.eraseIdx ind, portclosed := true } } r callers
    exact ⟨t, ht, hm.threads, hm.oneread, hm.pc⟩
  · exact ⟨.idle, rfl, rfl, rfl, Or.inr rfl⟩

theorem closeFinish_elsewhere (w : Firmware) (r : Nat) (fd : Int) (ind : Nat)
    (callers : List CloseFrame) : Elsewhere r w (w.closeFinish r fd ind callers) := by
  unfold closeFinish
  dsimp only
  split
  · exact ⟨.idle, rfl, rfl, rfl, Or.inr rfl⟩
  next f _ =>
    split
    · exact ⟨.writeSem (.close fd ind callers) (Sockets.closeMsg f.port), rfl, rfl, rfl, Or.inl rfl⟩
    · obtain ⟨t, ht, hm⟩ := (w.touch fd ind []).erase_elsewhere r fd ind callers
      exact ⟨t, ht, hm.threads, hm.oneread, hm.pc⟩

theorem closeEnter_elsewhere (w : Firmware) (r : Nat) (fd : Int) (callers : List CloseFrame) :
    Elsewhere r w (w.closeEnter r fd callers) := by
  unfold closeEnter
  split
  · exact w.closeReturn_elsewhere r callers
  next ind _ =>
    split
    · exact w.closeReturn_elsewhere r callers
    · dsimp only
      split
      · exact w.closeFinish_elsewhere r fd ind callers
      next o _ =>
        split
        · exact ⟨.closing (⟨fd, ind, 0⟩ :: callers), rfl, rfl, rfl, Or.inl rfl⟩
        · obtain ⟨t, ht, hm⟩ :=
            (w.setFdlist (update w.net.fdlist o Fd.release)).closeFinish_elsewhere r fd ind callers
          exact ⟨t, ht, hm.threads, hm.oneread, hm.pc⟩

theorem closePass_elsewhere (w : Firmware) (r : Nat) (frames : List CloseFrame) :
    Elsewhere r w (w.closePass r frames) := by
  unfold closePass
  split
  · exact ⟨.idle, rfl, rfl, rfl, Or.inl rfl⟩
  · split
    · exact w.closeFinish_elsewhere r _ _ _
    · exact w.closeEnter_elsewhere r _ _

theorem startWrite_elsewhere (w : Firmware) (r room : Nat) (k : WriteFor) (msg : Bytes) :
    Elsewhere r w (w.startWrite r room k msg) := by
  unfold startWrite
  cases k with
  | accept fd ind afd => exact ⟨.sending (.accept fd ind afd) _ _, rfl, rfl, rfl, Or.inl rfl⟩
  | connect fd ind => exact ⟨.sending (.connect fd ind) _ _, rfl, rfl, rfl, Or.inl rfl⟩
  | close fd ind callers => exact ⟨.sending (.close fd ind callers) _ _, rfl, rfl, rfl, Or.inl rfl⟩

theorem writeDone_elsewhere (w : Firmware) (r : Nat) (k : WriteFor) (resp : Nat) :
    Elsewhere r w (w.writeDone r k resp) := by
  cases k with
  | accept fd ind afd =>
    unfold writeDone
    dsimp only
    split
    · exact w.closeEnter_elsewhere r afd []
    · exact ⟨.idle, rfl, rfl, rfl, Or.inl rfl⟩
  | connect fd ind => exact ⟨.readSem (.connect fd ind), rfl, rfl, rfl, Or.inl rfl⟩
  | close fd ind callers => exact w.erase_elsewhere r fd ind callers

/-! ## §5 — the invariant -/

/-- **The semaphore and its holder**: one thread at most is inside the reading section, and the
semaphore is taken exactly while one is. -/
structure Exclusive (w : Firmware) : Prop where
  single : ∀ q q', w.ReadingAt q → w.ReadingAt q' → q = q'
  held : w.oneread = true ↔ ∃ q, w.ReadingAt q

theorem Moved.readingAt {b : Bool} (hm : Moved r t b w w') {q : Nat} (h : w'.ReadingAt q) :
    (q = r ∧ t.reads = true) ∨ (q ≠ r ∧ w.ReadingAt q) := by
  obtain ⟨t', ht', hreads⟩ := h
  rw [hm.threads, List.getElem?_set] at ht'
  split at ht'
  next hrq =>
    split at ht'
    · cases ht'
      exact Or.inl ⟨hrq.symm, hreads⟩
    · cases ht'
  next hrq => exact Or.inr ⟨Ne.symm hrq, t', ht', hreads⟩

/-- The others are where they were. -/
theorem Moved.readingAt_other {b : Bool} (hm : Moved r t b w w') {q : Nat} (hqr : q ≠ r)
    (h : w.ReadingAt q) : w'.ReadingAt q := by
  obtain ⟨t', ht', hreads⟩ := h
  refine ⟨t', ?_, hreads⟩
  rw [hm.threads, List.getElem?_set_ne (Ne.symm hqr)]
  exact ht'

theorem Moved.task {b : Bool} (hm : Moved r t b w w') (hlt : r < w.threads.length) :
    w'.threads[r]? = some t := by
  rw [hm.threads]
  exact List.getElem?_set_self hlt

/-- A thread outside the reading section stays outside. -/
theorem Exclusive.elsewhere (h : Exclusive w) (hm : Elsewhere r w w') (hr : ¬ w.ReadingAt r) :
    Exclusive w' := by
  obtain ⟨t, ht, hm⟩ := hm
  have hback : ∀ q, w'.ReadingAt q → w.ReadingAt q := by
    intro q hq
    rcases hm.readingAt hq with ⟨_, hreads⟩ | ⟨_, hold⟩
    · rw [ht] at hreads
      cases hreads
    · exact hold
  have hforth : ∀ q, w.ReadingAt q → w'.ReadingAt q := by
    intro q hq
    apply hm.readingAt_other _ hq
    rintro rfl
    exact hr hq
  refine ⟨fun q q' hq hq' => h.single q q' (hback q hq) (hback q' hq'), ?_⟩
  rw [hm.oneread, h.held]
  constructor
  · rintro ⟨q, hq⟩
    exact ⟨q, hforth q hq⟩
  · rintro ⟨q, hq⟩
    exact ⟨q, hback q hq⟩

/-- The only thread in the reading section waits there again. -/
theorem Exclusive.waits (honly : ∀ q, w.ReadingAt q → q = r) (hlt : r < w.threads.length)
    (ht : t.reads = true) (hm : Moved r t true w w') : Exclusive w' := by
  have hself : ∀ q, w'.ReadingAt q → q = r := by
    intro q hq
    rcases hm.readingAt hq with ⟨hqr, _⟩ | ⟨_, hold⟩
    · exact hqr
    · exact honly q hold
  refine ⟨fun q q' hq hq' => (hself q hq).trans (hself q' hq').symm, ?_⟩
  rw [hm.oneread]
  exact ⟨fun _ => ⟨r, t, hm.task hlt, ht⟩, fun _ => rfl⟩

/-- The only thread in the reading section leaves it. -/
theorem Exclusive.leaves (honly : ∀ q, w.ReadingAt q → q = r) (ht : t.behind = true)
    (hm : Moved r t false w w') : Exclusive w' := by
  have hnone : ∀ q, ¬ w'.ReadingAt q := by
    intro q hq
    rcases hm.readingAt hq with ⟨_, hreads⟩ | ⟨hqr, hold⟩
    · rw [Task.reads_of_behind ht] at hreads
      cases hreads
    · exact hqr (honly q hold)
  refine ⟨fun q _ hq _ => absurd hq (hnone q), ?_⟩
  rw [hm.oneread]
  constructor
  · intro hfalse
    cases hfalse
  · rintro ⟨q, hq⟩
    exact absurd hq (hnone q)

theorem Exclusive.outcome (honly : ∀ q, w.ReadingAt q → q = r) (htaken : w.oneread = true)
    (hlt : r < w.threads.length) (hout : Outcome r w w') :
    w'.net.pc = .crashed ∨ Exclusive w' := by
  cases hout with
  | lost hpc => exact Or.inl hpc
  | waits t ht hm => exact Or.inr (Exclusive.waits honly hlt ht (htaken ▸ hm))
  | behind t ht hm => exact Or.inr (Exclusive.leaves honly ht hm)

theorem Exclusive.turn (h : Exclusive w) (room : Nat) :
    (w.turn r room).net.pc = .crashed ∨ Exclusive (w.turn r room) := by
  unfold Firmware.turn
  cases htask : w.threads[r]? with
  | none => exact Or.inr h
  | some t =>
    have hlt : r < w.threads.length := (List.getElem?_eq_some_iff.mp htask).1
    have houtside : t.reads = false → ¬ w.ReadingAt r := by
      rintro ht ⟨t', ht', hreads⟩
      rw [htask] at ht'
      cases ht'
      rw [ht] at hreads
      cases hreads
    cases t with
    | idle => exact Or.inr h
    | readSem k =>
      dsimp only
      split
      · exact Or.inr h
      next hfree =>
        -- nobody is inside, and `r` enters
        have honly : ∀ q, ({ w with oneread := true } : Firmware).ReadingAt q → q = r := by
          intro q hq
          exact absurd (h.held.mpr ⟨q, hq⟩) hfree
        exact Exclusive.outcome honly rfl hlt (startRead_outcome _ r k)
    | reading k ind reader got since =>
      dsimp only
      split
      · exact Or.inr h
      · have hr : w.ReadingAt r := ⟨_, htask, rfl⟩
        exact Exclusive.outcome (fun q hq => h.single q r hq hr) (h.held.mpr ⟨r, hr⟩) hlt
          (w.read_outcome r k ind reader got)
    | writeSem k msg =>
      dsimp only
      split
      · exact Or.inr h
      · have hframe : Exclusive { w with onewrite := true } := ⟨h.single, h.held⟩
        exact Or.inr (hframe.elsewhere (startWrite_elsewhere _ r room k msg) (houtside rfl))
    | sending k resp left =>
      dsimp only
      split
      · exact Or.inr (h.elsewhere ⟨.sending k resp (left - room), rfl, rfl, rfl, Or.inl rfl⟩
          (houtside rfl))
      · have hframe : Exclusive { w with onewrite := false } := ⟨h.single, h.held⟩
        exact Or.inr (hframe.elsewhere (writeDone_elsewhere _ r k resp) (houtside rfl))
    | closing frames => exact Or.inr (h.elsewhere (w.closePass_elsewhere r frames) (houtside rfl))

/-- A call begins outside the reading section. -/
theorem not_readingAt_of_free (h : w.free r = true) : ¬ w.ReadingAt r := by
  rintro ⟨t, ht, hreads⟩
  unfold free at h
  rw [ht] at h
  have hidle : t = .idle := by simpa using h
  rw [hidle] at hreads
  cases hreads

/-! ## §6 — steps -/

/-- What a call does without a wait leaves the reading section alone. -/
theorem Exclusive.net (h : Exclusive w) (net : Sockets) : Exclusive { w with net := net } :=
  ⟨h.single, h.held⟩

theorem Exclusive.accept (h : Exclusive w) (hr : ¬ w.ReadingAt r) (fd : Int) :
    Exclusive (w.accept r fd) := by
  unfold Firmware.accept
  split
  · exact h
  next ind _ =>
    dsimp only
    split_ifs
    · exact h
    · exact h
    · exact h
    · exact h
    · exact h.elsewhere ⟨.readSem (.accept fd ind), rfl, rfl, rfl, Or.inl rfl⟩ hr

theorem Exclusive.connect (h : Exclusive w) (hr : ¬ w.ReadingAt r) (fd : Int) (ip : Bytes)
    (port : UInt16) : Exclusive (w.connect r fd ip port) := by
  unfold Firmware.connect
  split
  · exact h
  next ind _ =>
    dsimp only
    split_ifs
    · exact h.net _
    · exact h
    · exact h.elsewhere
        ⟨.writeSem (.connect fd ind) (connectMsg ip port), rfl, rfl, rfl, Or.inl rfl⟩ hr

/-- A thread whose time-out ends its wait. -/
theorem Exclusive.timeout (h : Exclusive w) (hr : w.ReadingAt r) : Exclusive (w.readFail r) :=
  Exclusive.leaves (fun q hq => h.single q r hq hr) rfl (w.readFail_moved r)

/-- **One step** keeps the semaphore with its holder, as long as no access leaves the table. -/
theorem Exclusive.step (h : Exclusive w) (e : Step) :
    (w.step e).net.pc = .crashed ∨ Exclusive (w.step e) := by
  cases e with
  | rx room c => exact Or.inr (h.net _)
  | socket domain type protocol => exact Or.inr (h.net _)
  | bind fd address => exact Or.inr (h.net _)
  | listen fd backlog => exact Or.inr (h.net _)
  | recv r fd len waitall dontwait =>
    refine Or.inr ?_
    show Exclusive (if w.free r then w.setTask r (.readSem (.recv fd len waitall dontwait)) else w)
    split
    next hfree =>
      exact h.elsewhere ⟨.readSem (.recv fd len waitall dontwait), rfl, rfl, rfl, Or.inl rfl⟩
        (not_readingAt_of_free hfree)
    next => exact h
  | accept r fd =>
    refine Or.inr ?_
    show Exclusive (if w.free r then w.accept r fd else w)
    split
    next hfree => exact h.accept (not_readingAt_of_free hfree) fd
    next => exact h
  | connect r fd ip port =>
    refine Or.inr ?_
    show Exclusive (if w.free r then w.connect r fd ip port else w)
    split
    next hfree => exact h.connect (not_readingAt_of_free hfree) fd ip port
    next => exact h
  | close r fd =>
    refine Or.inr ?_
    show Exclusive (if w.free r then w.closeEnter r fd [] else w)
    split
    next hfree => exact h.elsewhere (w.closeEnter_elsewhere r fd []) (not_readingAt_of_free hfree)
    next => exact h
  | turn r room => exact h.turn room
  | timeout r =>
    refine Or.inr ?_
    unfold Firmware.step
    dsimp only
    split
    next htask => exact h.timeout ⟨_, htask, rfl⟩
    next => exact h
  | count p => exact Or.inr ⟨h.single, h.held⟩

/-! ## §7 — nothing is said behind a crash -/

theorem Moved.crashed {b : Bool} (hm : Moved r t b w w') (h : w.net.pc = .crashed) :
    w'.net.pc = .crashed := by
  rcases hm.pc with hsame | hcrash
  · rw [hsame]
    exact h
  · exact hcrash

theorem Elsewhere.crashed (hm : Elsewhere r w w') (h : w.net.pc = .crashed) :
    w'.net.pc = .crashed := by
  obtain ⟨_, _, hm⟩ := hm
  exact hm.crashed h

theorem Outcome.crashed (hout : Outcome r w w') (h : w.net.pc = .crashed) :
    w'.net.pc = .crashed := by
  cases hout with
  | lost hpc => exact hpc
  | waits t _ hm => exact hm.crashed h
  | behind t _ hm => exact hm.crashed h

theorem turn_crashed (h : w.net.pc = .crashed) (r room : Nat) : (w.turn r room).net.pc = .crashed := by
  unfold Firmware.turn
  split
  · split
    · exact h
    · exact (startRead_outcome { w with oneread := true } r _).crashed h
  · split
    · exact h
    · exact (w.read_outcome r _ _ _ _).crashed h
  · split
    · exact h
    · exact (startWrite_elsewhere { w with onewrite := true } r room _ _).crashed h
  · split
    · exact h
    · exact (writeDone_elsewhere { w with onewrite := false } r _ _).crashed h
  · exact (w.closePass_elsewhere r _).crashed h
  · exact h

theorem bind_pc (net : Sockets) (fd : Int) (address : Option UInt16) :
    (net.espmBind fd address).1.pc = net.pc := by
  unfold Sockets.espmBind
  split
  · split <;> rfl
  · rfl

theorem listen_pc (net : Sockets) (fd backlog : Int) : (net.espmListen fd backlog).1.pc = net.pc := by
  unfold Sockets.espmListen
  split
  · rfl
  · dsimp only
    split_ifs <;> rfl

theorem socket_pc (net : Sockets) (domain : Int) (type : SockType) (protocol : Int) :
    (net.espmSocket domain type protocol).1.pc = net.pc := by
  unfold Sockets.espmSocket
  split_ifs
  · rfl
  · rfl
  · rfl
  · split
    · rfl
    · split <;> rfl

theorem rx_crashed (net : Sockets) (h : net.pc = .crashed) (room : Nat) (c : UInt8) :
    (net.rx room c).pc = .crashed := by
  unfold Sockets.rx
  rw [h]
  exact h

theorem step_crashed (h : w.net.pc = .crashed) (e : Step) : (w.step e).net.pc = .crashed := by
  cases e with
  | rx room c => exact rx_crashed w.net h room c
  | socket domain type protocol => exact (socket_pc w.net domain type protocol).trans h
  | bind fd address => exact (bind_pc w.net fd address).trans h
  | listen fd backlog => exact (listen_pc w.net fd backlog).trans h
  | recv r fd len waitall dontwait =>
    show (if w.free r then w.setTask r _ else w).net.pc = .crashed
    split <;> exact h
  | accept r fd =>
    show (if w.free r then w.accept r fd else w).net.pc = .crashed
    split
    · unfold Firmware.accept
      split
      · exact h
      · dsimp only
        split_ifs <;> exact h
    · exact h
  | connect r fd ip port =>
    show (if w.free r then w.connect r fd ip port else w).net.pc = .crashed
    split
    · unfold Firmware.connect
      split
      · exact h
      · dsimp only
        split_ifs
        · exact (bind_pc w.net fd (some port)).trans h
        · exact h
        · exact h
    · exact h
  | close r fd =>
    show (if w.free r then w.closeEnter r fd [] else w).net.pc = .crashed
    split
    · exact (w.closeEnter_elsewhere r fd []).crashed h
    · exact h
  | turn r room => exact turn_crashed h r room
  | timeout r =>
    unfold Firmware.step
    dsimp only
    split <;> exact h
  | count p => exact h

/-! ## §8 — runs -/

/-- **Readers in turn.** The semaphore is taken exactly while one thread is inside the reading section,
and no other is. It comes free in the step in which that thread is woken with everything it still wants
in its buffer, or times out; a thread that finds it free with everything in its buffer does not wait. -/
structure Serialised (w : Firmware) : Prop where
  single : ∀ q q', w.ReadingAt q → w.ReadingAt q' → q = q'
  held : w.oneread = true ↔ ∃ q, w.ReadingAt q
  entering : ∀ r k room, w.threads[r]? = some (.readSem k) → w.oneread = false → w.holds k →
    Served r (w.step (.turn r room))
  finishing : ∀ r k ind reader got since room, w.threads[r]? = some (.reading k ind reader got since) →
    since ≠ w.net.notified → (∃ f ∈ w.net.fdlist[ind]?, reader.enough f.buffer) →
    Served r (w.step (.turn r room))
  expiring : ∀ r, w.ReadingAt r → Served r (w.step (.timeout r))

theorem Moved.served (hm : Moved r t false w w') (ht : t.behind = true)
    (hlt : r < w.threads.length) : Served r w' := ⟨hm.oneread, t, hm.task hlt, ht⟩

/-- What the steps of a thread do, whatever the others are at. -/
theorem Exclusive.serialised (h : Exclusive w) : Serialised w where
  single := h.single
  held := h.held
  entering r k room htask hfree hholds := by
    have hlt : r < w.threads.length := (List.getElem?_eq_some_iff.mp htask).1
    have hholds' : ({ w with oneread := true } : Firmware).holds k := by
      cases k <;> exact hholds
    obtain ⟨t, ht, hm⟩ := startRead_behind hholds' r
    have hturn : w.step (.turn r room) = ({ w with oneread := true } : Firmware).startRead r k := by
      show w.turn r room = _
      unfold Firmware.turn
      rw [htask]
      dsimp only
      rw [hfree]
      rfl
    rw [hturn]
    exact hm.served ht hlt
  finishing r k ind reader got since room htask hwoken hbuf := by
    obtain ⟨f, hf, henough⟩ := hbuf
    have hlt : r < w.threads.length := (List.getElem?_eq_some_iff.mp htask).1
    obtain ⟨t, ht, hm⟩ := read_behind hf henough r k got
    have hturn : w.step (.turn r room) = w.read r k ind reader got := by
      show w.turn r room = _
      unfold Firmware.turn
      rw [htask]
      exact if_neg hwoken
    rw [hturn]
    exact hm.served ht hlt
  expiring r hr := by
    obtain ⟨t, htask, hreads⟩ := hr
    have hlt : r < w.threads.length := (List.getElem?_eq_some_iff.mp htask).1
    have hstep : w.step (.timeout r) = w.readFail r := by
      unfold Firmware.step
      dsimp only
      rw [htask]
      cases t with
      | reading k ind reader got since => rfl
      | _ => cases hreads
    rw [hstep]
    exact (w.readFail_moved r).served rfl hlt

/-- **Readers take turns**, in every run of any number of threads that read, accept, connect, open and
close in any interleaving. -/
theorem readers_serialised (hidle : ∀ t ∈ w.threads, t = .idle) (hfree : w.oneread = false)
    (es : List Step) :
    Always (fun _ w => w.net.pc = .crashed ∨ Serialised w) step [] w es := by
  have hstart : Exclusive w := by
    have hnone : ∀ q, ¬ w.ReadingAt q := by
      rintro q ⟨t, ht, hreads⟩
      rw [hidle t (List.mem_of_getElem? ht)] at hreads
      cases hreads
    refine ⟨fun q _ hq _ => absurd hq (hnone q), ?_⟩
    rw [hfree]
    constructor
    · intro hfalse
      cases hfalse
    · rintro ⟨q, hq⟩
      exact absurd hq (hnone q)
  refine always_of_invariant (I := fun _ w => w.net.pc = .crashed ∨ Exclusive w) ?_ ?_ es [] w
    (Or.inr hstart)
  · rintro _ w' (hpc | hex)
    · exact Or.inl hpc
    · exact Or.inr hex.serialised
  · rintro _ w' e (hpc | hex)
    · exact Or.inl (step_crashed hpc e)
    · exact hex.step e

/-- Two datagram sockets. The first thread waits for a character of descriptor 2, a character for
descriptor 3 comes in and wakes it in vain, and then the second thread wants that character. -/
def idleFirst : List Step :=
  twoSockets ++ ([.recv 0 2 1 true false, .turn 0 100] : List Step) ++
    (0xff :: str "81:a").map (Step.rx 100) ++
    ([.turn 0 100, .recv 1 3 1 true false, .turn 1 100] : List Step)

theorem readers_serialised_idleFirst :
    Always (fun _ w => w.net.pc = .crashed ∨ Serialised w) step [] twoReaders idleFirst :=
  readers_serialised (by decide) rfl idleFirst

/-- The second thread is stalled behind the first, whose descriptor is idle. -/
theorem readers_stalled_idleFirst : ¬ Always Flowing step [] twoReaders idleFirst := by
  intro h
  have hlast := h.last
  revert hlast
  decide +kernel

end Firmware

end Espmod.Socket
