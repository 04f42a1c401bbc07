/-
# Espmod.Socket.Recv — `espm_recv`, `espm_recvfrom` and `espm_read`

One call of a receiving function on the table it finds. While it waits, `fillbuffers` appends characters
to its buffer; a `Wake` is what arrives during one wait and how the wait ends. The characters are popped
one by one as they come, so a time-out after the first of them gives up what was popped; and the test
for unsupported flags compares before it masks. Otherwise a call that fails leaves the buffer as it was
(`receive_failures`).
-/
import Espmod.Socket.Effects

namespace Espmod.Socket

open Espmod.Lib.Text

/-! ## §1 — the calls -/

/-- The `errno` values. -/
inductive Errno where
  | EBADF
  | ENOTCONN
  | EAGAIN
  | EWOULDBLOCK
  | EOPNOTSUPP
  | ETIMEDOUT
  | EINVAL
  deriving DecidableEq, Repr

/-- `MSG_WAITALL` and `MSG_DONTWAIT`, as the host defines them: different bits of an `int`, not its
sign. -/
structure MsgFlags where
  waitall : BitVec 32
  dontwait : BitVec 32
  waitall_ne : waitall ≠ 0
  dontwait_ne : dontwait ≠ 0
  apart : waitall &&& dontwait = 0
  waitall_sign : waitall.msb = false
  dontwait_sign : dontwait.msb = false

/-- One wait for `__fifowrite_ev`: the characters that arrive meanwhile, whether it ended by the event,
and the time at its end. -/
structure Wake where
  arrived : Bytes
  triggered : Bool
  millis : Nat
  deriving DecidableEq, Repr

/-- A call that has returned: with `errno`, what it wrote to `mem`, what the buffer of its descriptor
holds, and how often it waited. -/
structure RecvResult where
  ret : Int
  errno : Option Errno
  mem : Bytes
  buffer : Bytes
  waited : Nat
  deriving DecidableEq, Repr

/-- `return -1` before anything is read. -/
def RecvResult.fail (errno : Errno) (buffer : Bytes) : RecvResult := ⟨-1, some errno, [], buffer, 0⟩

/-- `pop_front`, up to `n` times while there is something. -/
def popFront : Nat → Bytes → Bytes × Bytes
  | 0, bs => ([], bs)
  | _ + 1, [] => ([], [])
  | n + 1, c :: cs => let (got, rest) := popFront n cs; (c :: got, rest)

/-- The time is over: the test behind a wait. -/
def Wake.timesOut (timeouttarg : Nat) (w : Wake) : Bool :=
  !w.triggered && timeouttarg != 0 && decide (timeouttarg ≤ w.millis)

/-- The loop of `__espm_receive`; `none` while it waits. -/
def recvLoop (waitall : Bool) (len timeouttarg : Nat) (ws : List Wake) (buffer mem : Bytes)
    (waited : Nat) : Option RecvResult :=
  let (got, rest) := popFront (len - mem.length) buffer
  let mem := mem ++ got
  if mem.length = len ∨ waitall = false then some ⟨Sockets.int mem.length, none, mem, rest, waited⟩
  else
    match ws with
    | [] => none
    | w :: ws =>
      if w.timesOut timeouttarg then some ⟨-1, some .ETIMEDOUT, mem, rest ++ w.arrived, waited + 1⟩
      else recvLoop waitall len timeouttarg ws (rest ++ w.arrived) mem (waited + 1)

/-- `timeouttarg`, an `unsigned long`. -/
def timeouttarg (tmout starttime : Nat) : Nat := if tmout = 0 then 0 else (starttime + tmout) % 2 ^ 64

/-- `__espm_receive`. `tmout` is the time-out of the descriptor, `starttime` the time of the call. -/
def espmReceive (M : MsgFlags) (fdlist : List Fd) (tmout starttime : Nat) (s : Int) (len : Nat)
    (flags : BitVec 32) (ws : List Wake) : Option RecvResult :=
  match getind fdlist s with
  | none => some (.fail .EBADF [])
  | some ind =>
    let f := fdlist.getD ind (Fd.new 0 0)
    if f.type = .STREAM ∧ !f.connected then some (.fail .ENOTCONN f.buffer)
    else if f.type ≠ .STREAM ∧ !f.bound then some (.fail .EAGAIN f.buffer)
    else if (flags &&& M.dontwait = M.dontwait ∨ f.flags &&& O_NONBLOCK ≠ 0) ∧
        (f.buffer = [] ∨ len = 0) then some (.fail .EWOULDBLOCK f.buffer)
    -- the comparison binds closer than the mask
    else if flags &&& (if BitVec.slt 0 (~~~ (M.waitall ||| M.dontwait)) then 1 else 0) ≠ 0 then
      some (.fail .EOPNOTSUPP f.buffer)
    else if f.closed ∧ f.buffer = [] then some ⟨0, none, [], f.buffer, 0⟩
    else
      recvLoop (flags &&& M.waitall = M.waitall) len (timeouttarg tmout starttime) ws f.buffer [] 0

/-- `espm_recv`. -/
def espmRecv (M : MsgFlags) (fdlist : List Fd) (tmout starttime : Nat) (s : Int) (len : Nat)
    (flags : BitVec 32) (ws : List Wake) : Option RecvResult :=
  espmReceive M fdlist tmout starttime s len flags ws

/-- `espm_getpeername` for an address and a length that are given: 0, or -1 with `errno`. -/
def espmGetpeername (fdlist : List Fd) (s : Int) : Int :=
  match getind fdlist s with
  | none => -1
  | some ind => if (fdlist.getD ind (Fd.new 0 0)).connected then 0 else -1

/-- `espm_recvfrom`; `src` and `addrlen` say which of the two pointers are not NULL. -/
def espmRecvfrom (M : MsgFlags) (fdlist : List Fd) (tmout starttime : Nat) (s : Int) (len : Nat)
    (flags : BitVec 32) (src addrlen : Bool) (ws : List Wake) : Option RecvResult :=
  let buffer := (getind fdlist s).elim [] fun ind => (fdlist.getD ind (Fd.new 0 0)).buffer
  if src ∧ !addrlen then some (.fail .EINVAL buffer)
  else if !src ∧ addrlen then some (.fail .EINVAL buffer)
  else
    (espmReceive M fdlist tmout starttime s len flags ws).map fun r =>
      if r.ret < 0 then { r with ret := -1 }
      else if src ∧ addrlen ∧ espmGetpeername fdlist s > 0 then { r with ret := -1 }
      else r

/-- `espm_read`. -/
def espmRead (M : MsgFlags) (fdlist : List Fd) (tmout starttime : Nat) (s : Int) (len : Nat)
    (ws : List Wake) : Option RecvResult :=
  espmRecv M fdlist tmout starttime s len M.waitall ws

/-- A call of one of the three. -/
inductive RecvCall where
  | recv (flags : BitVec 32)
  | recvfrom (flags : BitVec 32) (src addrlen : Bool)
  | read
  deriving DecidableEq

/-- The flags a call passes on. -/
def RecvCall.flags (M : MsgFlags) : RecvCall → BitVec 32
  | recv flags => flags
  | recvfrom flags _ _ => flags
  | read => M.waitall

def RecvCall.run (M : MsgFlags) (fdlist : List Fd) (tmout starttime : Nat) (s : Int) (len : Nat)
    (ws : List Wake) : RecvCall → Option RecvResult
  | recv flags => espmRecv M fdlist tmout starttime s len flags ws
  | recvfrom flags src addrlen => espmRecvfrom M fdlist tmout starttime s len flags src addrlen ws
  | read => espmRead M fdlist tmout starttime s len ws

/-! ## §2 — what is asked of a failure -/

/-- What the buffer of the descriptor holds. -/
def held (fdlist : List Fd) (s : Int) : Bytes :=
  (getind fdlist s).elim [] fun ind => (fdlist.getD ind (Fd.new 0 0)).buffer

/-- What has arrived during the first `k` waits. -/
def arrivals (ws : List Wake) (k : Nat) : Bytes := (ws.take k).flatMap Wake.arrived

/-- Flags other than the two. -/
def MsgFlags.Supported (M : MsgFlags) (flags : BitVec 32) : Prop :=
  flags &&& ~~~ (M.waitall ||| M.dontwait) = 0

instance (M : MsgFlags) (flags : BitVec 32) : Decidable (M.Supported flags) :=
  inferInstanceAs (Decidable (_ = _))

/-- A call that returns -1 leaves everything that was and came in the buffer, and other flags are
rejected. -/
def RecvCall.LosesNothing (M : MsgFlags) (fdlist : List Fd) (tmout starttime : Nat) (s : Int) (len : Nat)
    (ws : List Wake) (c : RecvCall) : Prop :=
  (∀ r, c.run M fdlist tmout starttime s len ws = some r → r.ret = -1 →
      r.buffer = held fdlist s ++ arrivals ws r.waited) ∧
    (¬ M.Supported (c.flags M) → ∃ r, c.run M fdlist tmout starttime s len ws = some r ∧
      r.ret = -1 ∧ r.errno = some .EOPNOTSUPP)

/-! ## §3 — how the loop ends -/

variable {M : MsgFlags} {fdlist : List Fd} {tmout starttime len target k waited : Nat} {s : Int}
  {ws : List Wake} {w : Wake} {buffer mem : Bytes} {flags : BitVec 32} {c : RecvCall}

theorem popFront_eq : ∀ (n : Nat) (bs : Bytes), popFront n bs = (bs.take n, bs.drop n)
  | 0, bs => by rw [popFront, List.take_zero, List.drop_zero]
  | n + 1, [] => by rw [popFront, List.take_nil, List.drop_nil]
  | n + 1, c :: cs => by rw [popFront, popFront_eq n cs, List.take_succ_cons, List.drop_succ_cons]

/-- None of the first `k` waits times out. -/
def Untimed (target : Nat) (ws : List Wake) (k : Nat) : Prop :=
  ∀ w ∈ ws.take k, w.timesOut target = false

instance (target : Nat) (ws : List Wake) (k : Nat) : Decidable (Untimed target ws k) :=
  inferInstanceAs (Decidable (∀ w ∈ ws.take k, _))

theorem untimed_zero (target : Nat) (ws : List Wake) : Untimed target ws 0 := by
  intro w hw
  exact nomatch hw

theorem untimed_cons : Untimed target (w :: ws) (k + 1) ↔ w.timesOut target = false ∧ Untimed target ws k := by
  unfold Untimed
  rw [List.take_succ_cons, List.forall_mem_cons]

@[simp] theorem arrivals_zero (ws : List Wake) : arrivals ws 0 = [] := rfl

theorem arrivals_cons (w : Wake) (ws : List Wake) (k : Nat) :
    arrivals (w :: ws) (k + 1) = w.arrived ++ arrivals ws k := rfl

/-- The ways a loop with `MSG_WAITALL` ends: all characters are there after `k` waits, the wait after `k`
others times out with characters missing, or it still waits. -/
inductive LoopEnd (len target : Nat) (ws : List Wake) (buffer mem : Bytes) (waited : Nat) :
    Option RecvResult → Prop
  | full (k : Nat) : k ≤ ws.length → Untimed target ws k →
      len ≤ mem.length + (buffer ++ arrivals ws k).length →
      LoopEnd len target ws buffer mem waited (some ⟨Sockets.int len, none,
        mem ++ (buffer ++ arrivals ws k).take (len - mem.length),
        (buffer ++ arrivals ws k).drop (len - mem.length), waited + k⟩)
  | timedOut (k : Nat) (w : Wake) : ws[k]? = some w → w.timesOut target = true → Untimed target ws k →
      mem.length + (buffer ++ arrivals ws k).length < len →
      LoopEnd len target ws buffer mem waited (some ⟨-1, some .ETIMEDOUT, mem ++ (buffer ++ arrivals ws k),
        w.arrived, waited + (k + 1)⟩)
  | blocked : Untimed target ws ws.length →
      mem.length + (buffer ++ arrivals ws ws.length).length < len →
      LoopEnd len target ws buffer mem waited none

/-- One wait more in front. -/
theorem LoopEnd.cons {r : Option RecvResult} (htime : w.timesOut target = false)
    (hbuf : mem.length + buffer.length < len)
    (h : LoopEnd len target ws w.arrived (mem ++ buffer) (waited + 1) r) :
    LoopEnd len target (w :: ws) buffer mem waited r := by
  have hlen : (mem ++ buffer).length = mem.length + buffer.length := List.length_append
  have hjoin (k : Nat) : buffer ++ arrivals (w :: ws) (k + 1) = buffer ++ (w.arrived ++ arrivals ws k) := by
    rw [arrivals_cons]
  have hlen' (bs : Bytes) : (buffer ++ bs).length = buffer.length + bs.length := List.length_append
  cases h with
  | full k hk huntimed hfull =>
    have hrest : len - mem.length = buffer.length + (len - (mem ++ buffer).length) := by omega
    have hend := @LoopEnd.full len target (w :: ws) buffer mem waited (k + 1) (Nat.succ_le_succ hk)
      (untimed_cons.mpr ⟨htime, huntimed⟩) (by rw [hjoin, hlen']; omega)
    rw [hjoin, hrest, List.take_length_add_append, List.drop_length_add_append, ← List.append_assoc,
      show waited + (k + 1) = waited + 1 + k by omega] at hend
    exact hend
  | timedOut k w' hw hout huntimed hmissing =>
    have hend := @LoopEnd.timedOut len target (w :: ws) buffer mem waited (k + 1) w' hw hout
      (untimed_cons.mpr ⟨htime, huntimed⟩) (by rw [hjoin, hlen']; omega)
    rw [hjoin, ← List.append_assoc, show waited + (k + 1 + 1) = waited + 1 + (k + 1) by omega] at hend
    exact hend
  | blocked huntimed hmissing =>
    refine .blocked (untimed_cons.mpr ⟨htime, huntimed⟩) ?_
    rw [List.length_cons, hjoin, hlen']
    omega

theorem recvLoop_end (hmem : mem.length ≤ len) :
    LoopEnd len target ws buffer mem waited (recvLoop true len target ws buffer mem waited) := by
  induction ws generalizing buffer mem waited with
  | nil =>
    rw [recvLoop, popFront_eq]
    have hlen : (mem ++ buffer.take (len - mem.length)).length = mem.length + min (len - mem.length) buffer.length := by
      rw [List.length_append, List.length_take]
    dsimp only
    by_cases hfull : (mem ++ buffer.take (len - mem.length)).length = len
    · rw [if_pos (Or.inl hfull), hfull]
      have hend := @LoopEnd.full len target [] buffer mem waited 0 (Nat.le_refl 0) (untimed_zero _ _)
        (by rw [arrivals_zero, List.append_nil]; omega)
      rw [arrivals_zero, List.append_nil] at hend
      exact hend
    · rw [if_neg (by simp only [hfull, false_or]; decide)]
      refine .blocked (untimed_zero _ _) ?_
      rw [List.length_nil, arrivals_zero, List.append_nil]
      omega
  | cons w ws ih =>
    rw [recvLoop, popFront_eq]
    have hlen : (mem ++ buffer.take (len - mem.length)).length = mem.length + min (len - mem.length) buffer.length := by
      rw [List.length_append, List.length_take]
    dsimp only
    by_cases hfull : (mem ++ buffer.take (len - mem.length)).length = len
    · rw [if_pos (Or.inl hfull), hfull]
      have hend := @LoopEnd.full len target (w :: ws) buffer mem waited 0 (Nat.zero_le _)
        (untimed_zero _ _)
        (by rw [arrivals_zero, List.append_nil]; omega)
      rw [arrivals_zero, List.append_nil] at hend
      exact hend
    · have hall : buffer.take (len - mem.length) = buffer := List.take_of_length_le (by omega)
      have hnone : buffer.drop (len - mem.length) = [] := List.drop_of_length_le (by omega)
      rw [if_neg (by simp only [hfull, false_or]; decide), hall, hnone, List.nil_append]
      by_cases htime : w.timesOut target = true
      · rw [if_pos htime]
        have hend := @LoopEnd.timedOut len target (w :: ws) buffer mem waited 0 w rfl htime
          (untimed_zero _ _)
          (by rw [arrivals_zero, List.append_nil]; omega)
        rw [arrivals_zero, List.append_nil] at hend
        exact hend
      · rw [if_neg htime]
        refine LoopEnd.cons (by simpa using htime) (by omega) (ih ?_)
        rw [List.length_append]
        omega

/-- Without `MSG_WAITALL` it takes what there is. -/
theorem recvLoop_once : recvLoop false len target ws buffer [] 0 =
    some ⟨Sockets.int (min len buffer.length : Nat), none, buffer.take len, buffer.drop len, 0⟩ := by
  have hlen : (buffer.take len).length = min len buffer.length := List.length_take
  unfold recvLoop
  rw [popFront_eq]
  dsimp only
  rw [if_pos (Or.inr rfl), List.nil_append, List.length_nil, Nat.sub_zero, hlen]

/-! ## §4 — which calls lose data -/

/-- The descriptor is read: no check returns before the loop. -/
def Fd.reads (M : MsgFlags) (len : Nat) (flags : BitVec 32) (f : Fd) : Prop :=
  (f.type = .STREAM → f.connected = true) ∧ (f.type ≠ .STREAM → f.bound = true) ∧
    ¬ ((flags &&& M.dontwait = M.dontwait ∨ f.flags &&& O_NONBLOCK ≠ 0) ∧ (f.buffer = [] ∨ len = 0)) ∧
    ¬ (f.closed = true ∧ f.buffer = [])

/-- The two pointers of `espm_recvfrom` are both given, or both not. -/
def RecvCall.pointersOk : RecvCall → Bool
  | recvfrom _ src addrlen => src == addrlen
  | _ => true

/-- What the call takes for a failure of `__espm_receive`. -/
def RecvCall.isFailure (v : Int) : RecvCall → Bool
  | recvfrom _ _ _ => decide (v < 0)
  | _ => decide (v = -1)

/-- Some characters were popped and the call returns -1: a wait times out after some and not all of them
were there, or the count that is returned is no positive `int`. -/
def RecvCall.Loses (M : MsgFlags) (fdlist : List Fd) (tmout starttime : Nat) (s : Int) (len : Nat)
    (ws : List Wake) (c : RecvCall) : Prop :=
  c.pointersOk = true ∧ ∃ ind f, getind fdlist s = some ind ∧ fdlist[ind]? = some f ∧
    f.reads M len (c.flags M) ∧
    if c.flags M &&& M.waitall = M.waitall then
      (∃ k w, ws[k]? = some w ∧ w.timesOut (timeouttarg tmout starttime) = true ∧
        Untimed (timeouttarg tmout starttime) ws k ∧ f.buffer ++ arrivals ws k ≠ [] ∧
        (f.buffer ++ arrivals ws k).length < len) ∨
      (∃ k ≤ ws.length, Untimed (timeouttarg tmout starttime) ws k ∧
        len ≤ (f.buffer ++ arrivals ws k).length ∧ c.isFailure (Sockets.int len) = true)
    else c.isFailure (Sockets.int (min len f.buffer.length : Nat)) = true

/-- The mask of the flag test is 0. -/
theorem flag_test_passes (M : MsgFlags) (flags : BitVec 32) :
    flags &&& (if BitVec.slt 0 (~~~ (M.waitall ||| M.dontwait)) then 1 else 0) = 0 := by
  have hneg : (~~~ (M.waitall ||| M.dontwait)).msb = true := by
    rw [BitVec.msb_not, BitVec.msb_or, M.waitall_sign, M.dontwait_sign]
    rfl
  have hslt : BitVec.slt 0 (~~~ (M.waitall ||| M.dontwait)) = false := by
    have hlt := BitVec.toInt_neg_of_msb_true hneg
    have hzero : (0 : BitVec 32).toInt = 0 := by decide
    rw [BitVec.slt, hzero]
    exact decide_eq_false (by omega)
  rw [hslt]
  exact BitVec.and_zero

theorem held_eq {ind : Nat} {f : Fd} (hind : getind fdlist s = some ind) (hf : fdlist[ind]? = some f) :
    held fdlist s = f.buffer := by
  rw [held, hind, Option.elim_some, getD_of_getElem? hf]

/-- **`__espm_receive`** runs its loop, or returns with everything in place. -/
theorem espmReceive_cases (M : MsgFlags) (fdlist : List Fd) (tmout starttime : Nat) (s : Int) (len : Nat)
    (flags : BitVec 32) (ws : List Wake) :
    (∃ ind f, getind fdlist s = some ind ∧ fdlist[ind]? = some f ∧ f.reads M len flags ∧
      espmReceive M fdlist tmout starttime s len flags ws =
        recvLoop (flags &&& M.waitall = M.waitall) len (timeouttarg tmout starttime) ws f.buffer [] 0) ∨
    ((∀ ind f, getind fdlist s = some ind → fdlist[ind]? = some f → ¬ f.reads M len flags) ∧
      ∃ r, espmReceive M fdlist tmout starttime s len flags ws = some r ∧ r.buffer = held fdlist s ∧
        r.waited = 0 ∧ r.errno ≠ some .EOPNOTSUPP) := by
  unfold espmReceive
  cases hind : getind fdlist s with
  | none =>
    refine Or.inr ⟨fun _ _ h => (nomatch h), _, rfl, ?_, rfl, by decide⟩
    rw [held, hind]
    rfl
  | some ind =>
    obtain ⟨f, hf, -⟩ := getind_some hind
    have hheld := held_eq hind hf
    have hone {f' : Fd} {ind' : Nat} (h : some ind = some ind') (hf' : fdlist[ind']? = some f') : f' = f := by
      obtain rfl := Option.some.inj h
      exact Option.some.inj (hf'.symm.trans hf)
    simp only [getD_of_getElem? hf, flag_test_passes, ne_eq, not_true_eq_false, if_false]
    by_cases hconn : f.type = .STREAM ∧ (!f.connected) = true
    · rw [if_pos hconn]
      refine Or.inr ⟨fun ind' f' h hf' hreads => ?_, _, rfl, hheld.symm, rfl, fun h => nomatch h⟩
      obtain rfl := hone h hf'
      simp [hreads.1 hconn.1] at hconn
    · rw [if_neg hconn]
      by_cases hbound : ¬ f.type = .STREAM ∧ (!f.bound) = true
      · rw [if_pos hbound]
        refine Or.inr ⟨fun ind' f' h hf' hreads => ?_, _, rfl, hheld.symm, rfl, fun h => nomatch h⟩
        obtain rfl := hone h hf'
        simp [hreads.2.1 hbound.1] at hbound
      · rw [if_neg hbound]
        by_cases hblock : (flags &&& M.dontwait = M.dontwait ∨ ¬ f.flags &&& O_NONBLOCK = 0) ∧
            (f.buffer = [] ∨ len = 0)
        · rw [if_pos hblock]
          refine Or.inr ⟨fun ind' f' h hf' hreads => ?_, _, rfl, hheld.symm, rfl, fun h => nomatch h⟩
          obtain rfl := hone h hf'
          exact hreads.2.2.1 hblock
        · rw [if_neg hblock]
          by_cases hclosed : f.closed = true ∧ f.buffer = []
          · rw [if_pos hclosed]
            refine Or.inr ⟨fun ind' f' h hf' hreads => ?_, _, rfl, hheld.symm, rfl, fun h => nomatch h⟩
            obtain rfl := hone h hf'
            exact hreads.2.2.2 hclosed
          · rw [if_neg hclosed]
            refine Or.inl ⟨ind, f, rfl, hf, ⟨fun h => ?_, fun h => ?_, hblock, hclosed⟩, rfl⟩
            · simpa [h] using hconn
            · simpa [h] using hbound

/-- What the call makes of the result of `__espm_receive`. -/
def RecvCall.returned (r : RecvResult) (c : RecvCall) : RecvResult :=
  if c.isFailure r.ret = true then { r with ret := -1 } else r

theorem RecvCall.returned_ret (r : RecvResult) : (c.returned r).ret = -1 ↔ c.isFailure r.ret = true := by
  unfold returned
  split
  · rename_i h
    exact ⟨fun _ => h, fun _ => rfl⟩
  · rename_i h
    refine ⟨fun hret => absurd ?_ h, fun h' => absurd h' h⟩
    rw [hret]
    cases c <;> rfl

theorem RecvCall.returned_rest (r : RecvResult) (c : RecvCall) : (c.returned r).buffer = r.buffer ∧
    (c.returned r).waited = r.waited ∧ (c.returned r).errno = r.errno := by
  unfold returned
  split <;> exact ⟨rfl, rfl, rfl⟩

theorem espmGetpeername_le (fdlist : List Fd) (s : Int) : ¬ espmGetpeername fdlist s > 0 := by
  unfold espmGetpeername
  split
  · decide
  · split <;> decide

/-- All three calls are `__espm_receive`, once the pointers are right. -/
theorem RecvCall.run_eq (hptr : c.pointersOk = true) :
    c.run M fdlist tmout starttime s len ws =
      (espmReceive M fdlist tmout starttime s len (c.flags M) ws).map fun r => c.returned r := by
  have hsame (c : RecvCall) (h : ∀ v, c.isFailure v = decide (v = -1)) (r : RecvResult) : c.returned r = r := by
    unfold returned
    rw [h]
    split
    · rename_i hret
      rw [← of_decide_eq_true hret]
    · rfl
  cases c with
  | recv flags =>
    simp only [run, RecvCall.flags, espmRecv, hsame (.recv flags) (fun _ => rfl), Option.map_id']
  | recvfrom flags src addrlen =>
    have hno : ¬ (src = true ∧ addrlen = true ∧ espmGetpeername fdlist s > 0) :=
      fun h => espmGetpeername_le fdlist s h.2.2
    obtain rfl : src = addrlen := by simpa [pointersOk] using hptr
    simp only [run, RecvCall.flags, espmRecvfrom, hno, if_false]
    cases src <;>
      simp only [Bool.not_true, Bool.not_false, Bool.false_eq_true, and_false, false_and, if_false] <;>
      congr 1 <;> funext r <;> simp only [returned, isFailure, decide_eq_true_eq]
  | read => simp only [run, RecvCall.flags, espmRead, espmRecv, hsame .read (fun _ => rfl), Option.map_id']

/-! ## §5 — failures -/

theorem arrivals_mono {j : Nat} (h : j ≤ k) : (arrivals ws j).length ≤ (arrivals ws k).length :=
  ((List.take_prefix_take_left h).flatMap _).length_le

theorem arrivals_succ (hw : ws[k]? = some w) : arrivals ws (k + 1) = arrivals ws k ++ w.arrived := by
  rw [arrivals, List.take_add_one, hw, List.flatMap_append]
  simp [arrivals]

theorem Untimed.of_lt {j : Nat} (h : Untimed target ws k) (hw : ws[j]? = some w) (hj : j < k) :
    w.timesOut target = false :=
  h w (List.mem_of_getElem? (i := j) (by rw [List.getElem?_take_of_lt hj, hw]))

/-- A count that is taken for a failure is not 0. -/
theorem RecvCall.isFailure_pos {n : Nat} (h : c.isFailure (Sockets.int n) = true) : 0 < n := by
  rcases Nat.eq_zero_or_pos n with rfl | hpos
  · have hzero : Sockets.int (0 : Nat) = 0 := by decide
    rw [hzero] at h
    cases c <;> simp [isFailure] at h
  · exact hpos

theorem RecvCall.isFailure_neg (c : RecvCall) : c.isFailure (-1) = true := by cases c <;> rfl

/-- What is left of a buffer is all of it only when nothing was taken. -/
theorem drop_ne {n : Nat} {bs : Bytes} (hn : 0 < n) (hbs : bs ≠ []) : bs.drop n ≠ bs := by
  intro h
  have hlen := congrArg List.length h
  have hpos := List.length_pos_iff.mpr hbs
  rw [List.length_drop] at hlen
  omega

/-- No other `errno` is the one for flags. -/
theorem errno_ne {r : RecvResult} (h : c.run M fdlist tmout starttime s len ws = some r) :
    r.errno ≠ some .EOPNOTSUPP := by
  by_cases hptr : c.pointersOk = true
  · rw [RecvCall.run_eq hptr, Option.map_eq_some_iff] at h
    obtain ⟨r', hr', rfl⟩ := h
    rw [(RecvCall.returned_rest r' c).2.2]
    rcases espmReceive_cases M fdlist tmout starttime s len (c.flags M) ws with
      ⟨ind, f, -, -, -, hloop⟩ | ⟨-, r'', hr'', -, -, hne⟩
    · rw [hloop] at hr'
      by_cases hwait : c.flags M &&& M.waitall = M.waitall
      · have hend : LoopEnd len (timeouttarg tmout starttime) ws f.buffer [] 0
            (recvLoop true len (timeouttarg tmout starttime) ws f.buffer [] 0) :=
          recvLoop_end (Nat.zero_le _)
        rw [decide_eq_true hwait] at hr'
        generalize recvLoop true len (timeouttarg tmout starttime) ws f.buffer [] 0 = out at hend hr'
        cases hend with
        | full =>
          obtain rfl := Option.some.inj hr'
          exact fun h => nomatch h
        | timedOut =>
          obtain rfl := Option.some.inj hr'
          exact fun h => nomatch h
        | blocked => exact nomatch hr'
      · rw [decide_eq_false hwait, recvLoop_once] at hr'
        obtain rfl := Option.some.inj hr'
        exact fun h => nomatch h
    · obtain rfl := Option.some.inj (hr'.symm.trans hr'')
      exact hne
  · cases c with
    | recv _ => exact absurd rfl hptr
    | read => exact absurd rfl hptr
    | recvfrom flags src addrlen =>
      cases src <;> cases addrlen
      · exact absurd rfl hptr
      · obtain rfl := Option.some.inj h
        exact fun h => nomatch h
      · obtain rfl := Option.some.inj h
        exact fun h => nomatch h
      · exact absurd rfl hptr

/-- The loop with `MSG_WAITALL`: the buffer keeps everything unless the call loses data. -/
theorem waitall_keeps (c : RecvCall) (len target : Nat) (ws : List Wake) (buffer : Bytes) :
    (∀ r, recvLoop true len target ws buffer [] 0 = some r → c.isFailure r.ret = true →
      r.buffer = buffer ++ arrivals ws r.waited) ↔
    ¬ ((∃ k w, ws[k]? = some w ∧ w.timesOut target = true ∧ Untimed target ws k ∧
        buffer ++ arrivals ws k ≠ [] ∧ (buffer ++ arrivals ws k).length < len) ∨
      (∃ k ≤ ws.length, Untimed target ws k ∧ len ≤ (buffer ++ arrivals ws k).length ∧
        c.isFailure (Sockets.int len) = true)) := by
  have hend : LoopEnd len target ws buffer [] 0 (recvLoop true len target ws buffer [] 0) :=
    recvLoop_end (Nat.zero_le _)
  generalize recvLoop true len target ws buffer [] 0 = out at hend
  have hmono {j k : Nat} (h : j ≤ k) : (buffer ++ arrivals ws j).length ≤ (buffer ++ arrivals ws k).length := by
    have hlen : (arrivals ws j).length ≤ (arrivals ws k).length := arrivals_mono h
    rw [List.length_append, List.length_append]
    omega
  cases hend with
  | full k hk huntimed hfull =>
    rw [List.length_nil, Nat.zero_add] at hfull
    simp only [Option.some.injEq, forall_eq', List.length_nil, Nat.sub_zero, Nat.zero_add]
    constructor
    · rintro hkeep (⟨j, w, hw, htime, huntimed', -, hmissing⟩ | ⟨j, -, -, -, hfail⟩)
      · rcases Nat.lt_or_ge j k with hj | hj
        · rw [huntimed.of_lt hw hj] at htime
          exact nomatch htime
        · have := hmono hj
          omega
      · have hpos := RecvCall.isFailure_pos hfail
        exact drop_ne hpos (List.length_pos_iff.mp (by omega)) (hkeep hfail)
    · intro hnot hfail
      exact absurd (Or.inr ⟨k, hk, huntimed, hfull, hfail⟩) hnot
  | timedOut k w hw htime huntimed hmissing =>
    rw [List.length_nil, Nat.zero_add] at hmissing
    simp only [Option.some.injEq, forall_eq', Nat.zero_add, arrivals_succ hw, c.isFailure_neg, true_implies,
      ← List.append_assoc, List.self_eq_append_left]
    constructor
    · rintro hkeep (⟨j, w', hw', htime', huntimed', hsome, -⟩ | ⟨j, -, huntimed', hfull, -⟩)
      · rcases Nat.lt_trichotomy j k with hj | rfl | hj
        · rw [huntimed.of_lt hw' hj] at htime'
          exact nomatch htime'
        · exact hsome hkeep
        · rw [huntimed'.of_lt hw hj] at htime
          exact nomatch htime
      · rcases Nat.lt_or_ge k j with hj | hj
        · rw [huntimed'.of_lt hw hj] at htime
          exact nomatch htime
        · have := hmono hj
          omega
    · intro hnot
      by_contra hsome
      exact hnot (Or.inl ⟨k, w, hw, htime, huntimed, hsome, hmissing⟩)
  | blocked huntimed hmissing =>
    rw [List.length_nil, Nat.zero_add] at hmissing
    refine ⟨fun _ => ?_, fun _ r hr => nomatch hr⟩
    rintro (⟨j, w, hw, htime, -⟩ | ⟨j, hj, -, hfull, -⟩)
    · rw [huntimed.of_lt hw (List.getElem?_eq_some_iff.mp hw).1] at htime
      exact nomatch htime
    · have := hmono hj
      omega

/-- The loop without it. -/
theorem once_keeps (c : RecvCall) (len target : Nat) (ws : List Wake) (buffer : Bytes) :
    (∀ r, recvLoop false len target ws buffer [] 0 = some r → c.isFailure r.ret = true →
      r.buffer = buffer ++ arrivals ws r.waited) ↔
    ¬ c.isFailure (Sockets.int (min len buffer.length : Nat)) = true := by
  rw [recvLoop_once]
  simp only [Option.some.injEq, forall_eq', arrivals_zero, List.append_nil]
  constructor
  · intro hkeep hfail
    have hpos := RecvCall.isFailure_pos hfail
    exact drop_ne (n := len) (by omega) (List.length_pos_iff.mp (by omega)) (hkeep hfail)
  · exact fun hnot hfail => absurd hfail hnot

/-- **A failing call loses nothing and other flags are rejected exactly when there are no other flags
and no failure comes after characters were popped.** -/
theorem receive_failures (M : MsgFlags) (fdlist : List Fd) (tmout starttime : Nat) (s : Int) (len : Nat)
    (ws : List Wake) (c : RecvCall) :
    c.LosesNothing M fdlist tmout starttime s len ws ↔
      M.Supported (c.flags M) ∧ ¬ c.Loses M fdlist tmout starttime s len ws := by
  have hflags : (¬ M.Supported (c.flags M) → ∃ r, c.run M fdlist tmout starttime s len ws = some r ∧
      r.ret = -1 ∧ r.errno = some .EOPNOTSUPP) ↔ M.Supported (c.flags M) := by
    constructor
    · intro h
      by_contra hnot
      obtain ⟨r, hr, -, herr⟩ := h hnot
      exact errno_ne hr herr
    · exact fun h hnot => absurd h hnot
  unfold RecvCall.LosesNothing
  rw [hflags, and_comm]
  refine and_congr_right fun _ => ?_
  unfold RecvCall.Loses
  by_cases hptr : c.pointersOk = true
  · have hrun : (∀ r, c.run M fdlist tmout starttime s len ws = some r → r.ret = -1 →
          r.buffer = held fdlist s ++ arrivals ws r.waited) ↔
        ∀ r, espmReceive M fdlist tmout starttime s len (c.flags M) ws = some r →
          c.isFailure r.ret = true → r.buffer = held fdlist s ++ arrivals ws r.waited := by
      rw [RecvCall.run_eq hptr]
      simp only [Option.map_eq_some_iff, forall_exists_index, and_imp, forall_apply_eq_imp_iff₂,
        RecvCall.returned_ret, (RecvCall.returned_rest _ c).1, (RecvCall.returned_rest _ c).2.1]
    rw [hrun]
    rcases espmReceive_cases M fdlist tmout starttime s len (c.flags M) ws with
      ⟨ind, f, hind, hf, hreads, hloop⟩ | ⟨hnone, r, hr, hbuf, hwaited, -⟩
    · have hloses {P : Fd → Prop} : (c.pointersOk = true ∧ ∃ ind f, getind fdlist s = some ind ∧
          fdlist[ind]? = some f ∧ f.reads M len (c.flags M) ∧ P f) ↔ P f := by
        constructor
        · rintro ⟨-, ind', f', hind', hf', -, hP⟩
          obtain rfl := Option.some.inj (hind.symm.trans hind')
          obtain rfl := Option.some.inj (hf.symm.trans hf')
          exact hP
        · exact fun hP => ⟨hptr, ind, f, hind, hf, hreads, hP⟩
      rw [hloses, hloop, held_eq hind hf]
      by_cases hwait : c.flags M &&& M.waitall = M.waitall
      · rw [if_pos hwait, decide_eq_true hwait]
        exact waitall_keeps c len _ ws f.buffer
      · rw [if_neg hwait, decide_eq_false hwait]
        exact once_keeps c len _ ws f.buffer
    · constructor
      · rintro - ⟨-, ind, f, hind, hf, hreads, -⟩
        exact hnone ind f hind hf hreads
      · intro _ r' hr' _
        obtain rfl := Option.some.inj (hr.symm.trans hr')
        rw [hbuf, hwaited, arrivals_zero, List.append_nil]
  · refine ⟨fun _ h => hptr h.1, fun _ r hr _ => ?_⟩
    cases c with
    | recv _ => exact absurd rfl hptr
    | read => exact absurd rfl hptr
    | recvfrom flags src addrlen =>
      cases src <;> cases addrlen
      · exact absurd rfl hptr
      · obtain rfl := Option.some.inj hr
        exact (List.append_nil _).symm
      · obtain rfl := Option.some.inj hr
        exact (List.append_nil _).symm
      · exact absurd rfl hptr

/-- The flags of a Linux host. -/
def linuxFlags : MsgFlags where
  waitall := 0x100
  dontwait := 0x40
  waitall_ne := by decide
  dontwait_ne := by decide
  apart := by decide
  waitall_sign := by decide
  dontwait_sign := by decide

/-- A connected stream socket with the character `a` in its buffer, behind the control socket. -/
def oneCharacter : List Fd :=
  [Fd.new 1 (-1), { Fd.new 2 (-1) with port := 80, connected := true, buffer := [chr 'a'] }]

/-- `espm_read` of two characters with a time-out of 100 ms: nothing comes, and the character is gone. A
receive with the Linux flag `MSG_PEEK` returns it, and takes it. -/
theorem character_lost :
    espmRead linuxFlags oneCharacter 100 7 2 2 [⟨[], false, 107⟩] =
        some ⟨-1, some .ETIMEDOUT, [chr 'a'], [], 1⟩ ∧
      ¬ RecvCall.read.LosesNothing linuxFlags oneCharacter 100 7 2 2 [⟨[], false, 107⟩] ∧
      espmRecv linuxFlags oneCharacter 0 7 2 1 2 [] = some ⟨1, none, [chr 'a'], [], 0⟩ ∧
      ¬ (RecvCall.recv 2).LosesNothing linuxFlags oneCharacter 0 7 2 1 [] := by
  have hread : espmRead linuxFlags oneCharacter 100 7 2 2 [⟨[], false, 107⟩] =
      some ⟨-1, some .ETIMEDOUT, [chr 'a'], [], 1⟩ := by decide
  have hpeek : espmRecv linuxFlags oneCharacter 0 7 2 1 2 [] = some ⟨1, none, [chr 'a'], [], 0⟩ := by decide
  refine ⟨hread, fun h => ?_, hpeek, fun h => ?_⟩
  · have hkeep := h.1 _ hread rfl
    exact absurd hkeep (by decide)
  · obtain ⟨r, hr, hret, -⟩ := h.2 (by decide)
    obtain rfl := Option.some.inj (hpeek.symm.trans hr)
    exact absurd hret (by decide)

end Espmod.Socket
