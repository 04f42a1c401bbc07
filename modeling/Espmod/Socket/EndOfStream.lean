/-
# Espmod.Socket.EndOfStream — a receive of no characters

The other end closes a connection with the frame `\xff<port>!`. The receiver thread finds the descriptor
and reads on to the end of the line; the close that its comment announces does not follow, and
`_fdlist[ind].closed` is false in every reachable state (`run_noneClosed`). So the test that returns 0
for a closed stream never succeeds. A receive without `MSG_WAITALL` returns 0 whenever nothing is there,
closed or not, and one with it waits behind the end of the stream as it waits before it
(`end_of_stream`).
-/
import Espmod.Socket.Isolation
import Espmod.Socket.Recv

namespace Espmod.Socket

open Espmod.Lib Espmod.Lib.Text
open Firmware (Step)

/-! ## §1 — closes that came in -/

namespace Firmware

/-- The connected descriptors a close frame is for, with the character behind its port. -/
def closedBy (w : Firmware) : Step → List Int
  | .rx _ c =>
    if w.net.pc = .digits ∧ c = chr '!' then
      (w.net.fdlist.filter fun f => f.connected && f.port == w.net.port).map Fd.fdn
    else []
  | _ => []

/-- Threads in no call, on the table `fillbuffers` starts with. -/
def booted (n : Nat) (adapter : Bytes) : Firmware where
  net := Sockets.boot
  adapter := adapter
  count := 0
  oneread := false
  onewrite := false
  threads := List.replicate n .idle
  accesses := []

end Firmware

/-- The firmware, and the open descriptors whose other end has closed. -/
structure Streams where
  firmware : Firmware
  ended : List Int

namespace Streams

def start (n : Nat) (adapter : Bytes) : Streams := ⟨Firmware.booted n adapter, []⟩

def step (s : Streams) (e : Step) : Streams where
  firmware := s.firmware.step e
  ended := (s.ended ++ s.firmware.closedBy e).filter fun fd =>
    (getind (s.firmware.step e).net.fdlist fd).isSome

def run (s : Streams) (es : List Step) : Streams := es.foldl step s

end Streams

/-- A call of `espm_recv` and what comes while it waits. -/
structure StreamRead where
  fd : Int
  len : Nat
  flags : BitVec 32
  tmout : Nat
  starttime : Nat
  ws : List Wake

namespace StreamRead

def run (M : MsgFlags) (fdlist : List Fd) (q : StreamRead) : Option RecvResult :=
  espmRecv M fdlist q.tmout q.starttime q.fd q.len q.flags q.ws

/-- The close has been received and the buffer is drained. -/
def AtEnd (s : Streams) (q : StreamRead) : Prop :=
  q.fd ∈ s.ended ∧ held s.firmware.net.fdlist q.fd = []

/-- **The end of the stream, and nothing else, is a return of 0**, without a wait. -/
def Honest (M : MsgFlags) (s : Streams) (q : StreamRead) : Prop :=
  (∀ r, q.run M s.firmware.net.fdlist = some r → r.ret = 0 → q.AtEnd s) ∧
    (q.AtEnd s → ∃ r, q.run M s.firmware.net.fdlist = some r ∧ r.ret = 0 ∧ r.waited = 0)

/-- A call on a connected stream that may block, for some characters. -/
structure Blocking (M : MsgFlags) (s : Streams) (q : StreamRead) : Prop where
  entry : ∃ ind f, s.firmware.net.Entry q.fd ind f ∧ f.type = .STREAM ∧ f.connected = true ∧
    f.flags &&& O_NONBLOCK = 0
  wait : q.flags &&& M.dontwait ≠ M.dontwait
  pos : 0 < q.len

/-- All characters of a call with `MSG_WAITALL` come before a time-out. -/
def Filled (fdlist : List Fd) (q : StreamRead) : Prop :=
  ∃ k ≤ q.ws.length, Untimed (timeouttarg q.tmout q.starttime) q.ws k ∧
    q.len ≤ (held fdlist q.fd ++ arrivals q.ws k).length

/-- With `MSG_WAITALL` the stream is not at its end. Without it, there is something to read, or the other
end has closed. And the characters that are read are not a multiple of 2³². -/
def Told (M : MsgFlags) (s : Streams) (q : StreamRead) : Prop :=
  if q.flags &&& M.waitall = M.waitall then
    ¬ q.AtEnd s ∧ (q.Filled s.firmware.net.fdlist → q.len % 2 ^ 32 ≠ 0)
  else
    (held s.firmware.net.fdlist q.fd = [] → q.fd ∈ s.ended) ∧
      (held s.firmware.net.fdlist q.fd ≠ [] →
        min q.len (held s.firmware.net.fdlist q.fd).length % 2 ^ 32 ≠ 0)

end StreamRead

/-! ## §2 — no step closes a descriptor -/

/-- No entry is marked closed. -/
def NoneClosed (fdlist : List Fd) : Prop := ∀ f ∈ fdlist, f.closed = false

section Table

variable {fdlist : List Fd} {i : Nat} {g : Fd → Fd}

theorem NoneClosed.update (h : NoneClosed fdlist) (i : Nat) (hg : ∀ f, (g f).closed = f.closed) :
    NoneClosed (update fdlist i g) := by
  intro f hf
  obtain ⟨j, f₀, hf₀, rfl⟩ := mem_update hf
  have hold := h f₀ (List.mem_of_getElem? hf₀)
  split
  · rw [hg, hold]
  · exact hold

theorem NoneClosed.append (h : NoneClosed fdlist) {f : Fd} (hf : f.closed = false) :
    NoneClosed (fdlist ++ [f]) := by
  intro f' hf'
  rcases List.mem_append.mp hf' with hold | hnew
  · exact h f' hold
  · rw [List.mem_singleton.mp hnew, hf]

theorem NoneClosed.alloc (h : NoneClosed fdlist) {owner fd : Int} {fdlist' : List Fd}
    (halloc : alloc fdlist owner = some (fd, fdlist')) : NoneClosed fdlist' := by
  obtain ⟨n, -, hnew⟩ := Option.map_eq_some_iff.mp halloc
  cases hnew
  exact h.append rfl

theorem NoneClosed.eraseIdx (h : NoneClosed fdlist) (i : Nat) : NoneClosed (fdlist.eraseIdx i) :=
  fun f hf => h f (List.mem_of_mem_eraseIdx hf)

end Table

section Steps

variable {w : Firmware} {r ind : Nat} {fd : Int}

theorem rx_noneClosed {s : Sockets} (h : NoneClosed s.fdlist) (room : Nat) (c : UInt8) :
    NoneClosed (s.rx room c).fdlist := by
  obtain ⟨i, bs, n, heq⟩ := (s.rx_filled room c).fdlist
  rw [heq]
  exact h.update i fun _ => rfl

theorem socket_noneClosed {s : Sockets} (h : NoneClosed s.fdlist) (domain : Int) (type : SockType)
    (protocol : Int) : NoneClosed (s.espmSocket domain type protocol).1.fdlist := by
  unfold Sockets.espmSocket
  split_ifs
  · exact h
  · exact h
  · exact h
  · cases halloc : alloc s.fdlist (-1) with
    | none => exact h
    | some new =>
      have hgrown := h.alloc halloc
      dsimp only
      split
      · exact hgrown
      · exact hgrown.update _ fun _ => rfl

theorem bind_noneClosed {s : Sockets} (h : NoneClosed s.fdlist) (address : Option UInt16) :
    NoneClosed (s.espmBind fd address).1.fdlist := by
  unfold Sockets.espmBind
  split
  · split
    · exact h
    · exact h.update _ fun _ => rfl
  · exact h

theorem listen_noneClosed {s : Sockets} (h : NoneClosed s.fdlist) (backlog : Int) :
    NoneClosed (s.espmListen fd backlog).1.fdlist := by
  unfold Sockets.espmListen
  split
  · exact h
  · dsimp only
    split_ifs
    · exact h
    · exact h
    · exact h.update _ fun _ => rfl

theorem acceptLine_noneClosed (h : NoneClosed w.net.fdlist) (msg : Bytes) :
    NoneClosed (w.acceptLine r fd ind msg).net.fdlist := by
  unfold Firmware.acceptLine
  split
  · exact h
  · cases halloc : alloc w.net.fdlist fd with
    | none => exact h
    | some new =>
      have hgrown := h.alloc halloc
      dsimp only
      split
      · exact hgrown
      · split
        · exact hgrown
        · exact hgrown.update _ fun _ => rfl

theorem connectLine_noneClosed (h : NoneClosed w.net.fdlist) (msg : Bytes) :
    NoneClosed (w.connectLine r fd ind msg).net.fdlist := by
  unfold Firmware.connectLine
  split
  · dsimp only
    split
    · exact h
    · exact h.update _ fun _ => rfl
  · exact h

theorem read_noneClosed (h : NoneClosed w.net.fdlist) (k : ReadFor) (reader : Reader) (got : Bytes) :
    NoneClosed (w.read r k ind reader got).net.fdlist := by
  unfold Firmware.read
  split
  · exact h
  · next f _ =>
    generalize reader.run f.buffer = out
    obtain ⟨reader', rest⟩ := out
    have htaken : NoneClosed (update w.net.fdlist ind (·.consume rest)) := h.update ind fun _ => rfl
    cases reader' with
    | some reader' => exact htaken
    | none =>
      cases k with
      | recv fd len waitall dontwait => exact htaken
      | accept fd ind => exact acceptLine_noneClosed (by exact htaken) _
      | connect fd ind => exact connectLine_noneClosed (by exact htaken) _

theorem startRead_noneClosed (h : NoneClosed w.net.fdlist) (k : ReadFor) :
    NoneClosed (w.startRead r k).net.fdlist := by
  cases k with
  | recv fd len waitall dontwait =>
    show NoneClosed (w.receive r fd len waitall dontwait).net.fdlist
    unfold Firmware.receive
    split
    · exact h
    · dsimp only
      split_ifs
      · exact h
      · exact h
      · exact h
      · exact h
      · exact h
      · exact read_noneClosed h _ _ _
      · exact h.update _ fun _ => rfl
  | accept fd ind =>
    unfold Firmware.startRead
    dsimp only
    split
    · exact h
    · exact read_noneClosed h _ _ _
  | connect fd ind =>
    unfold Firmware.startRead
    dsimp only
    split
    · exact h
    · split
      · exact h
      · exact read_noneClosed (by exact h) _ _ _

theorem erase_noneClosed (h : NoneClosed w.net.fdlist) (callers : List CloseFrame) :
    NoneClosed (w.erase r fd ind callers).net.fdlist := by
  unfold Firmware.erase
  dsimp only
  split
  · exact h.eraseIdx ind
  · exact h

theorem closeFinish_noneClosed (h : NoneClosed w.net.fdlist) (callers : List CloseFrame) :
    NoneClosed (w.closeFinish r fd ind callers).net.fdlist := by
  unfold Firmware.closeFinish
  dsimp only
  split
  · exact h
  · split
    · exact h
    · exact erase_noneClosed (by exact h) callers

theorem closeEnter_noneClosed (h : NoneClosed w.net.fdlist) (callers : List CloseFrame) :
    NoneClosed (w.closeEnter r fd callers).net.fdlist := by
  unfold Firmware.closeEnter
  split
  · exact h
  · split
    · exact h
    · dsimp only
      split
      · exact closeFinish_noneClosed h callers
      · split
        · exact h
        · exact closeFinish_noneClosed (by exact h.update _ fun _ => rfl) callers

theorem turn_noneClosed (h : NoneClosed w.net.fdlist) (room : Nat) :
    NoneClosed (w.turn r room).net.fdlist := by
  unfold Firmware.turn
  split
  · split
    · exact h
    · exact startRead_noneClosed (by exact h) _
  · split
    · exact h
    · exact read_noneClosed h _ _ _
  · next k _ _ =>
    split
    · exact h
    · cases k <;> exact h
  · next k resp _ _ =>
    split
    · exact h
    · cases k with
      | accept fd ind afd =>
        unfold Firmware.writeDone
        dsimp only
        split
        · exact closeEnter_noneClosed (by exact h) []
        · exact h
      | connect fd ind => exact h
      | close fd ind callers => exact erase_noneClosed (by exact h) callers
  · next frames _ =>
    cases frames with
    | nil => exact h
    | cons frame callers =>
      unfold Firmware.closePass
      dsimp only
      split
      · exact closeFinish_noneClosed h callers
      · exact closeEnter_noneClosed h _
  · exact h

theorem connect_noneClosed (h : NoneClosed w.net.fdlist) (ip : Bytes) (port : UInt16) :
    NoneClosed (w.connect r fd ip port).net.fdlist := by
  unfold Firmware.connect
  split
  · exact h
  · dsimp only
    split_ifs
    · exact bind_noneClosed h _
    · exact h
    · exact h.update _ fun _ => rfl

theorem accept_noneClosed (h : NoneClosed w.net.fdlist) : NoneClosed (w.accept r fd).net.fdlist := by
  unfold Firmware.accept
  split
  · exact h
  · dsimp only
    split_ifs <;> exact h

/-- **One step marks no descriptor closed.** -/
theorem step_noneClosed (h : NoneClosed w.net.fdlist) (e : Step) :
    NoneClosed (w.step e).net.fdlist := by
  cases e with
  | rx room c => exact rx_noneClosed h room c
  | socket domain type protocol => exact socket_noneClosed h domain type protocol
  | bind fd address => exact bind_noneClosed h address
  | listen fd backlog => exact listen_noneClosed h backlog
  | recv r fd len waitall dontwait =>
    unfold Firmware.step
    dsimp only
    split <;> exact h
  | accept r fd =>
    unfold Firmware.step
    dsimp only
    split
    · exact accept_noneClosed h
    · exact h
  | connect r fd ip port =>
    unfold Firmware.step
    dsimp only
    split
    · exact connect_noneClosed h ip port
    · exact h
  | close r fd =>
    unfold Firmware.step
    dsimp only
    split
    · exact closeEnter_noneClosed h []
    · exact h
  | turn r room => exact turn_noneClosed h room
  | timeout r =>
    unfold Firmware.step
    dsimp only
    split <;> exact h
  | count p => exact h

/-- **No run marks one closed.** -/
theorem run_noneClosed {s : Streams} (h : NoneClosed s.firmware.net.fdlist) (es : List Step) :
    NoneClosed (s.run es).firmware.net.fdlist := by
  induction es generalizing s with
  | nil => exact h
  | cons e es ih => exact ih (step_noneClosed h e)

end Steps

/-! ## §3 — returns of 0 -/

variable {M : MsgFlags} {s : Streams} {q : StreamRead}

theorem int_eq_zero_iff (n : Nat) : Sockets.int n = 0 ↔ n % 2 ^ 32 = 0 := by
  have hdvd : ((2 ^ 32 : Nat) : Int) ∣ (n : Int) ↔ Sockets.int n = 0 := Int.dvd_iff_bmod_eq_zero
  rw [← hdvd, Int.natCast_dvd_natCast, Nat.dvd_iff_mod_eq_zero]

/-- On an open stream the call is its loop. -/
theorem StreamRead.run_eq (hopen : NoneClosed s.firmware.net.fdlist) (hq : q.Blocking M s) :
    q.run M s.firmware.net.fdlist = recvLoop (q.flags &&& M.waitall = M.waitall) q.len
      (timeouttarg q.tmout q.starttime) q.ws (held s.firmware.net.fdlist q.fd) [] 0 := by
  obtain ⟨ind, f, hf, htype, hconn, hflags⟩ := hq.entry
  rw [held_eq hf.found hf.entry]
  have hreads : f.reads M q.len q.flags := by
    refine ⟨fun _ => hconn, fun h => absurd htype h, ?_, ?_⟩
    · rintro ⟨hdont | hnon, -⟩
      · exact hq.wait hdont
      · exact hnon hflags
    · rintro ⟨hclosed, -⟩
      rw [hopen f (List.mem_of_getElem? hf.entry)] at hclosed
      exact nomatch hclosed
  rcases espmReceive_cases M s.firmware.net.fdlist q.tmout q.starttime q.fd q.len q.flags q.ws with
    ⟨ind', f', hind', hf', -, hloop⟩ | ⟨hnone, -⟩
  · obtain rfl := Option.some.inj (hf.found.symm.trans hind')
    obtain rfl := Option.some.inj (hf.entry.symm.trans hf')
    exact hloop
  · exact absurd hreads (hnone ind f hf.found hf.entry)

/-- With `MSG_WAITALL`. -/
theorem waitall_honest (hopen : NoneClosed s.firmware.net.fdlist) (hq : q.Blocking M s)
    (hwait : q.flags &&& M.waitall = M.waitall) :
    q.Honest M s ↔
      ¬ q.AtEnd s ∧ (q.Filled s.firmware.net.fdlist → q.len % 2 ^ 32 ≠ 0) := by
  have hpos := hq.pos
  unfold StreamRead.Honest StreamRead.Filled StreamRead.AtEnd
  rw [StreamRead.run_eq hopen hq, decide_eq_true hwait]
  generalize held s.firmware.net.fdlist q.fd = buffer
  have hend : LoopEnd q.len (timeouttarg q.tmout q.starttime) q.ws buffer [] 0
      (recvLoop true q.len (timeouttarg q.tmout q.starttime) q.ws buffer [] 0) :=
    recvLoop_end (Nat.zero_le _)
  generalize recvLoop true q.len (timeouttarg q.tmout q.starttime) q.ws buffer [] 0 = out at hend
  have hmono {j k : Nat} (h : j ≤ k) :
      (buffer ++ arrivals q.ws j).length ≤ (buffer ++ arrivals q.ws k).length := by
    have hlen : (arrivals q.ws j).length ≤ (arrivals q.ws k).length := arrivals_mono h
    rw [List.length_append, List.length_append]
    omega
  cases hend with
  | full k hk huntimed hfull =>
    rw [List.length_nil, Nat.zero_add] at hfull
    have hfilled : ∃ k ≤ q.ws.length, Untimed (timeouttarg q.tmout q.starttime) q.ws k ∧
        q.len ≤ (buffer ++ arrivals q.ws k).length := ⟨k, hk, huntimed, hfull⟩
    simp only [Option.some.injEq, forall_eq', int_eq_zero_iff, exists_eq_left']
    constructor
    · rintro ⟨honly, hzero⟩
      have hnot : ¬ (q.fd ∈ s.ended ∧ buffer = []) := by
        intro hatend
        have hk0 : k = 0 := by
          have := (hzero hatend).2
          omega
        rw [hk0, hatend.2, arrivals_zero] at hfull
        simp at hfull
        omega
      exact ⟨hnot, fun _ hlen => hnot (honly hlen)⟩
    · rintro ⟨hnot, hlen⟩
      exact ⟨fun h => absurd h (hlen hfilled), fun h => absurd h hnot⟩
  | timedOut k w hw htime huntimed hmissing =>
    rw [List.length_nil, Nat.zero_add] at hmissing
    have hnotfilled : ¬ ∃ k ≤ q.ws.length, Untimed (timeouttarg q.tmout q.starttime) q.ws k ∧
        q.len ≤ (buffer ++ arrivals q.ws k).length := by
      rintro ⟨j, -, huntimed', hfull⟩
      rcases Nat.lt_or_ge k j with hj | hj
      · rw [huntimed'.of_lt hw hj] at htime
        exact nomatch htime
      · have := hmono hj
        omega
    simp only [Option.some.injEq, forall_eq', exists_eq_left']
    constructor
    · rintro ⟨-, hzero⟩
      exact ⟨fun hatend => absurd (hzero hatend).1 (by decide), fun h => absurd h hnotfilled⟩
    · rintro ⟨hnot, -⟩
      exact ⟨fun h => absurd h (by decide), fun h => absurd h hnot⟩
  | blocked huntimed hmissing =>
    rw [List.length_nil, Nat.zero_add] at hmissing
    have hnotfilled : ¬ ∃ k ≤ q.ws.length, Untimed (timeouttarg q.tmout q.starttime) q.ws k ∧
        q.len ≤ (buffer ++ arrivals q.ws k).length := by
      rintro ⟨j, hj, -, hfull⟩
      have := hmono hj
      omega
    constructor
    · rintro ⟨-, hzero⟩
      refine ⟨fun hatend => ?_, fun h => absurd h hnotfilled⟩
      obtain ⟨r, hr, -⟩ := hzero hatend
      exact nomatch hr
    · rintro ⟨hnot, -⟩
      exact ⟨fun r hr => (nomatch hr), fun h => absurd h hnot⟩

/-- Without it. -/
theorem once_honest (hopen : NoneClosed s.firmware.net.fdlist) (hq : q.Blocking M s)
    (hwait : ¬ q.flags &&& M.waitall = M.waitall) :
    q.Honest M s ↔
      (held s.firmware.net.fdlist q.fd = [] → q.fd ∈ s.ended) ∧
        (held s.firmware.net.fdlist q.fd ≠ [] →
          min q.len (held s.firmware.net.fdlist q.fd).length % 2 ^ 32 ≠ 0) := by
  unfold StreamRead.Honest StreamRead.AtEnd
  rw [StreamRead.run_eq hopen hq, decide_eq_false hwait, recvLoop_once]
  generalize held s.firmware.net.fdlist q.fd = buffer
  simp only [Option.some.injEq, forall_eq', int_eq_zero_iff, exists_eq_left', and_true]
  by_cases hnil : buffer = []
  · subst hnil
    simp
  · simp only [hnil, and_false, false_implies, and_true, true_and, not_false_eq_true, true_implies, ne_eq]

/-- **In every run a blocking receive returns 0 at the end of the stream, and only there, exactly when it
is told so**: with `MSG_WAITALL` before the end, without it once the close has come or with something to
read. -/
theorem end_of_stream (M : MsgFlags) (n : Nat) (adapter : Bytes) (es : List Step) (q : StreamRead)
    (hq : q.Blocking M ((Streams.start n adapter).run es)) :
    q.Honest M ((Streams.start n adapter).run es) ↔ q.Told M ((Streams.start n adapter).run es) := by
  have hopen : NoneClosed ((Streams.start n adapter).run es).firmware.net.fdlist := by
    apply run_noneClosed
    intro f hf
    rw [List.mem_singleton.mp hf]
    rfl
  unfold StreamRead.Told
  by_cases hwait : q.flags &&& M.waitall = M.waitall
  · rw [if_pos hwait]
    exact waitall_honest hopen hq hwait
  · rw [if_neg hwait]
    exact once_honest hopen hq hwait

/-- The first thread connects descriptor 2 to port 80 of another host. -/
def dialed : List Step :=
  ([.socket AF_INET .STREAM 0, .connect 0 2 (str "1.2.3.4") 80, .turn 0 100, .turn 0 100,
      .turn 0 100] : List Step) ++
    (0xff :: str "80y\r\n").map (Step.rx 100) ++ ([.turn 0 100] : List Step)

/-- The other host closes. -/
def hungUp : List Step := (0xff :: str "80!\r\n").map (.rx 100)

/-- Descriptor 2, connected. -/
def onPort80 : Fd := { Fd.new 2 (-1) with port := 80, connected := true }

/-- A receive of one character on it may block. -/
theorem blocking_onPort80 (hf : s.firmware.net.Entry 2 1 onPort80) (flags : BitVec 32)
    (hwait : flags &&& linuxFlags.dontwait ≠ linuxFlags.dontwait) (ws : List Wake) :
    StreamRead.Blocking linuxFlags s ⟨2, 1, flags, 0, 0, ws⟩ where
  entry := ⟨1, onPort80, hf, rfl, rfl, by decide⟩
  wait := hwait
  pos := Nat.one_pos

/-- A wait for one character in front of the close, and a receive behind it, which returns 0. -/
theorem end_of_stream_dialed :
    StreamRead.Honest linuxFlags ((Streams.start 1 []).run dialed) ⟨2, 1, 0x100, 0, 0, []⟩ ∧
      StreamRead.Honest linuxFlags ((Streams.start 1 []).run (dialed ++ hungUp)) ⟨2, 1, 0, 0, 0, []⟩ ∧
      StreamRead.run linuxFlags ((Streams.start 1 []).run (dialed ++ hungUp)).firmware.net.fdlist
        ⟨2, 1, 0, 0, 0, []⟩ = some ⟨0, none, [], [], 0⟩ := by
  refine ⟨?_, ?_, by decide +kernel⟩
  · have hf : ((Streams.start 1 []).run dialed).firmware.net.Entry 2 1 onPort80 :=
      ⟨by decide +kernel, by decide +kernel⟩
    refine (end_of_stream linuxFlags 1 [] dialed _ (blocking_onPort80 hf 0x100 (by decide) [])).mpr ?_
    unfold StreamRead.Told
    rw [if_pos (by decide)]
    exact ⟨fun h => absurd h.1 (by decide +kernel), fun _ => by decide⟩
  · have hf : ((Streams.start 1 []).run (dialed ++ hungUp)).firmware.net.Entry 2 1 onPort80 :=
      ⟨by decide +kernel, by decide +kernel⟩
    refine (end_of_stream linuxFlags 1 [] (dialed ++ hungUp) _
      (blocking_onPort80 hf 0 (by decide) [])).mpr ?_
    unfold StreamRead.Told
    rw [if_neg (by decide)]
    -- nothing is held, and the close has come
    have hheld : held ((Streams.start 1 []).run (dialed ++ hungUp)).firmware.net.fdlist 2 = [] := by
      decide +kernel
    exact ⟨fun _ => by decide +kernel, fun hne => absurd hheld hne⟩

/-- Notifications without a character do not end a wait. -/
theorem recvLoop_unheard (k len waited : Nat) (hlen : 0 < len) :
    recvLoop true len 0 (List.replicate k ⟨[], true, 0⟩) [] [] waited = none := by
  have hne : ¬ (0 = len ∨ true = false) := by
    rintro (h | h)
    · omega
    · exact nomatch h
  induction k generalizing waited with
  | zero =>
    rw [List.replicate_zero, recvLoop, popFront_eq, List.take_nil, List.drop_nil]
    exact if_neg hne
  | succ k ih =>
    rw [List.replicate_succ, recvLoop, popFront_eq, List.take_nil, List.drop_nil]
    dsimp only
    rw [List.append_nil, List.length_nil, if_neg hne]
    exact ih (waited + 1)

/-- On the open connection a receive without `MSG_WAITALL` returns 0, with nothing received. When the
close has come, one with it never returns. -/
theorem end_unnoticed :
    ¬ StreamRead.Honest linuxFlags ((Streams.start 1 []).run dialed) ⟨2, 1, 0, 0, 0, []⟩ ∧
      StreamRead.AtEnd ((Streams.start 1 []).run (dialed ++ hungUp)) ⟨2, 1, 0x100, 0, 0, []⟩ ∧
      ∀ k, StreamRead.run linuxFlags ((Streams.start 1 []).run (dialed ++ hungUp)).firmware.net.fdlist
        ⟨2, 1, 0x100, 0, 0, List.replicate k ⟨[], true, 0⟩⟩ = none := by
  refine ⟨fun h => ?_, ⟨by decide +kernel, by decide +kernel⟩, fun k => ?_⟩
  · have hzero : StreamRead.run linuxFlags ((Streams.start 1 []).run dialed).firmware.net.fdlist
        ⟨2, 1, 0, 0, 0, []⟩ = some ⟨0, none, [], [], 0⟩ := by decide +kernel
    exact absurd (h.1 _ hzero rfl).1 (by decide +kernel)
  · have hopen : NoneClosed ((Streams.start 1 []).run (dialed ++ hungUp)).firmware.net.fdlist :=
      run_noneClosed (fun f hf => by rw [List.mem_singleton.mp hf]; rfl) _
    have hf : ((Streams.start 1 []).run (dialed ++ hungUp)).firmware.net.Entry 2 1 onPort80 :=
      ⟨by decide +kernel, by decide +kernel⟩
    have hwait : (0x100 : BitVec 32) &&& linuxFlags.waitall = linuxFlags.waitall := by decide
    have hq := blocking_onPort80 hf 0x100 (by decide) (List.replicate k ⟨[], true, 0⟩)
    rw [StreamRead.run_eq hopen hq]
    have hheld : held ((Streams.start 1 []).run (dialed ++ hungUp)).firmware.net.fdlist 2 = [] := by
      decide +kernel
    dsimp only
    rw [hheld, decide_eq_true hwait]
    exact recvLoop_unheard k 1 0 Nat.one_pos

end Espmod.Socket
