/-
# Espmod.Socket.Wakeup — readers that wait for `__fifowrite_ev`

Readers of all descriptors wait for one event. A reader that found its buffer empty is blocked until
the next notification, so every path of the receiver that fills a buffer has to notify behind it.
The paths of the data, of the answer lines and of the control messages do; the path of a connect
request does not. `no_lost_wakeup` says that this is the only gap: along any run, no reader is left
blocked in front of characters exactly when none is blocked on a listening descriptor at the moment a
connect request is queued there.
-/
import Espmod.Socket.Effects
import Espmod.Lib.Run

namespace Espmod.Socket

open Espmod.Lib Espmod.Lib.Text

/-! ## §1 — readers -/

/-- What a reader still wants: the rest of a line, or `more + 1` characters (`MSG_WAITALL`). -/
inductive Reader where
  | readline (crseen : Bool)
  | receive (more : Nat)
  deriving DecidableEq, Repr

/-- The loop of `__espm_readline` and of `__espm_receive` up to its end or its next wait: what the
reader still wants when it waits, and the characters it leaves. -/
def Reader.run : Bytes → Reader → Option Reader × Bytes
  | [], reader => (some reader, [])
  | c :: cs, .readline crseen =>
    if c = chr '\n' ∧ crseen then (none, cs) else run cs (.readline (c = chr '\r'))
  | _ :: cs, .receive more => if more = 0 then (none, cs) else run cs (.receive (more - 1))

/-- A reader only waits in front of an empty buffer. -/
theorem Reader.run_waits {bs : Bytes} :
    ∀ {reader reader' : Reader} {rest : Bytes}, reader.run bs = (some reader', rest) → rest = [] := by
  induction bs with
  | nil =>
    intro reader reader' rest h
    exact (Prod.mk.inj h).2.symm
  | cons c cs ih =>
    intro reader reader' rest h
    cases reader with
    | readline crseen =>
      rw [run] at h
      split at h
      · simp at h
      · exact ih h
    | receive more =>
      rw [run] at h
      split at h
      · simp at h
      · exact ih h

/-- A waiting thread: the index it found, what it wants, and the notifications before its wait. -/
structure Waiting where
  ind : Nat
  reader : Reader
  since : Nat
  deriving DecidableEq, Repr

/-- The receiver and the reader threads, `none` for one that is not in a wait. -/
structure World where
  net : Sockets
  threads : List (Option Waiting)

/-- A step of the receiver, or of the thread `r`: it starts to read at an index, it goes on after a
notification, its wait times out. -/
inductive Act where
  | rx (room : Nat) (c : UInt8)
  | call (r ind : Nat) (reader : Reader)
  | resume (r : Nat)
  | timeout (r : Nat)

namespace World

/-- A run of the thread `r` up to its next wait. -/
def go (w : World) (r ind : Nat) (reader : Reader) : World :=
  match w.net.fdlist[ind]? with
  | none => w
  | some f =>
    let (reader', rest) := reader.run f.buffer
    { net := { w.net with fdlist := update w.net.fdlist ind (·.consume rest) }
      threads := w.threads.set r (reader'.map fun reader => ⟨ind, reader, w.net.notified⟩) }

def act (w : World) : Act → World
  | .rx room c => { w with net := w.net.rx room c }
  | .call r ind reader =>
    match w.threads[r]? with
    | some none => w.go r ind reader
    | _ => w
  | .resume r =>
    match w.threads[r]? with
    | some (some t) => if t.since = w.net.notified then w else w.go r t.ind t.reader
    | _ => w
  | .timeout r => { w with threads := w.threads.set r none }

/-- `n` threads, none of them reading, and a receiver at the top of its loop. -/
def start (net : Sockets) (n : Nat) : World where
  net := { net with pc := .top }
  threads := List.replicate n none

/-- A thread is blocked on the buffer at an index. -/
def blocked (w : World) (ind : Nat) : Prop :=
  ∃ t, some t ∈ w.threads ∧ t.ind = ind ∧ t.since = w.net.notified

end World

/-- **No wake-up is lost**: while the receiver waits at the top of its loop, a blocked reader has an
empty buffer in front of it. -/
def Awake (w : World) : Prop :=
  w.net.pc = .top → ∀ ind f, w.blocked ind → w.net.fdlist[ind]? = some f → f.buffer = []

/-! ## §2 — what a character does to the buffers -/

namespace Sockets

variable {s s' : Sockets} {c : UInt8}

/-- The entry that gets a connect request. -/
def place (s : Sockets) (msg : Bytes) : Option Nat :=
  match scanf fmtRequest (cstr msg) with
  | [_, _, _, _, port] =>
    match receiver s.fdlist true port with
    | none => none
    | some it =>
      let f := s.fdlist.getD it (Fd.new 0 0)
      if f.connections = f.maxconnect then none else some it
  | _ => none

/-- The entry that gets the connect request this character ends. -/
def queuesAt (s : Sockets) (c : UInt8) : Option Nat :=
  match s.pc with
  | .request true firstcolon msg =>
    if c ≠ chr ' ' ∧ (c = chr '\n' ∨ c = chr ':' ∧ firstcolon = true) then s.place (msg ++ [c])
    else none
  | _ => none

/-- The receiver is in the middle of a line for the buffer at `ind`, whose end will notify; or it
takes no more characters. -/
def collecting (s : Sockets) (ind : Nat) : Prop :=
  s.pc = .crashed ∨ s.pc = .yn ∧ s.ind = some ind ∨ s.pc = .control ∧ ind = 0

/-- Lines stay lines: the step ends no line. -/
def continues (s s' : Sockets) : Prop :=
  s'.pc = s.pc ∧ s'.ind = s.ind ∨ s.pc ≠ .crashed ∧ s.pc ≠ .yn ∧ s.pc ≠ .control

theorem continues.collecting (h : s.continues s') {ind : Nat} (hc : s.collecting ind) :
    s'.collecting ind := by
  rcases h with ⟨hpc, hind⟩ | ⟨hcr, hyn, hctl⟩
  · simpa only [Sockets.collecting, hpc, hind] using hc
  · rcases hc with h | h | h
    · exact absurd h hcr
    · exact absurd h.1 hyn
    · exact absurd h.1 hctl

/-- **What a character does**, as far as readers are concerned. -/
inductive Received (s : Sockets) (c : UInt8) : Sockets → Prop
  | notified {s' : Sockets} (hn : s.notified < s'.notified) : Received s c s'
  | crashed {s' : Sockets} (hn : s'.notified = s.notified) (hpc : s'.pc = .crashed) : Received s c s'
  | silent {s' : Sockets} (hn : s'.notified = s.notified) (hf : s'.fdlist = s.fdlist)
      (hpc : s.continues s') : Received s c s'
  | collected {s' : Sockets} {ind : Nat} {bs : Bytes} (hn : s'.notified = s.notified)
      (hf : s'.fdlist = update s.fdlist ind (·.push bs)) (hpc : s.continues s')
      (hind : s'.collecting ind) : Received s c s'
  | queued {it : Nat} {msg : Bytes} (hplace : s.queuesAt c = some it) (hlt : it < s.fdlist.length)
      (hpc : s.continues { s with pc := .top }) :
      Received s c { s with pc := .top, fdlist := update s.fdlist it (·.queue msg) }

theorem data_received : Received s c (s.data c) := by
  refine .notified ?_
  unfold data
  dsimp only
  split <;> simp [notify]

theorem pushAt_received {s₁ : Sockets} {ind : Nat} (hn : s₁.notified = s.notified)
    (hf : s₁.fdlist = s.fdlist) (hpc : s.continues s₁) (hind : s₁.collecting ind) (bs : Bytes) :
    Received s c (s₁.pushAt ind bs) := by
  unfold pushAt
  split
  · exact .collected hn (by rw [hf]) hpc hind
  · exact .crashed hn rfl

theorem takerequest_received {room : Nat} {connect firstcolon : Bool} {msg : Bytes}
    (hpc : s.pc = .request connect firstcolon msg)
    (hend : c ≠ chr ' ' ∧ (c = chr '\n' ∨ c = chr ':' ∧ firstcolon = true)) :
    Received s c (s.takerequest room connect (msg ++ [c])) := by
  have hcont : ∀ s', s.continues s' := fun s' => .inr (by simp [hpc])
  have hans := s.takerequest_answered room connect (msg ++ [c])
  generalize s.takerequest room connect (msg ++ [c]) = s' at hans
  cases hans with
  | null _ => exact .crashed rfl rfl
  | unread _ => exact .silent rfl rfl (hcont _)
  | nobody _ _ => exact .silent rfl rfl (hcont _)
  | datagram _ _ _ _ _ _ => exact .silent rfl rfl (hcont _)
  | rejected _ => exact .silent rfl rfl (hcont _)
  | queued hmsg hrec hf _ _ _ hplace =>
    refine .queued ?_ (List.getElem?_eq_some_iff.mp hf).1 (hcont _)
    obtain ⟨a₁, a₂, a₃, a₄, hscan⟩ := hmsg
    simp only [queuesAt, hpc, if_pos hend, place, hscan, hrec, getD_of_getElem? hf, if_neg hplace]

theorem rx_received (room : Nat) : Received s c (s.rx room c) := by
  unfold rx
  cases hpc : s.pc with
  | top =>
    dsimp only
    split
    · exact .silent rfl rfl (.inr (by simp [hpc]))
    · exact data_received
  | esc =>
    dsimp only
    split
    · exact data_received
    · have hcont : ∀ s', s.continues s' := fun s' => .inr (by simp [hpc])
      unfold escape
      split_ifs
      · exact .silent rfl rfl (hcont _)
      · exact .silent rfl rfl (hcont _)
      · exact .silent rfl rfl (hcont _)
      · exact pushAt_received (by rfl) (by rfl) (hcont _) (.inr (.inr ⟨by rfl, rfl⟩)) _
  | digits =>
    have hcont : ∀ s', s.continues s' := fun s' => .inr (by simp [hpc])
    dsimp only
    split
    · exact .silent rfl rfl (hcont _)
    · unfold terminator
      split
      · exact .silent rfl rfl (hcont _)
      · split_ifs
        · exact .silent rfl rfl (hcont _)
        · exact pushAt_received (by rfl) (by rfl) (hcont _) (.inr (.inl ⟨by rfl, by rfl⟩)) _
        · exact .silent rfl rfl (hcont _)
  | flush =>
    dsimp only
    split <;> exact .silent rfl rfl (.inr (by simp [hpc]))
  | yn =>
    dsimp only
    cases hind : s.ind with
    | none => exact .crashed rfl rfl
    | some ind =>
      dsimp only
      split
      · exact .notified (by simp [notify])
      · exact pushAt_received rfl rfl (.inl ⟨rfl, rfl⟩) (.inr (.inl ⟨hpc, hind⟩)) _
  | control =>
    dsimp only
    split
    · exact .notified (by simp [notify])
    · exact pushAt_received rfl rfl (.inl ⟨rfl, rfl⟩) (.inr (.inr ⟨hpc, rfl⟩)) _
  | request connect firstcolon msg =>
    dsimp only
    split_ifs with hblank hend
    · exact .silent rfl rfl (.inl ⟨rfl, rfl⟩)
    · exact takerequest_received hpc ⟨hblank, hend⟩
    · exact .silent rfl rfl (.inr (by simp [hpc]))
  | crashed => exact .silent rfl rfl (.inl ⟨rfl, rfl⟩)

/-- A character that queues a request does nothing else. -/
theorem rx_queuesAt {it : Nat} (room : Nat) (h : s.queuesAt c = some it) :
    ∃ msg f, s.fdlist[it]? = some f ∧
      s.rx room c = { s with pc := .top, fdlist := update s.fdlist it (·.queue msg) } := by
  unfold queuesAt at h
  split at h
  · rename_i firstcolon msg hpc
    split at h
    · rename_i hend
      unfold place at h
      split at h
      · rename_i a₁ a₂ a₃ a₄ port hscan
        split at h
        · simp at h
        · rename_i it' hrec
          obtain ⟨f, hf, hlis, hport, htype⟩ := receiver_some hrec
          dsimp only at h
          rw [getD_of_getElem? hf] at h
          split at h
          · simp at h
          · rename_i hplace
            obtain rfl : it' = it := by simpa using h
            refine ⟨msg ++ [c], f, hf, ?_⟩
            have htype' : f.type = .STREAM := htype
            simp only [rx, hpc, if_neg hend.1, if_pos hend.2, takerequest, hscan, hrec,
              getD_of_getElem? hf, htype', ne_eq, not_true_eq_false, if_false, if_neg hplace]
      · simp at h
    · simp at h
  · simp at h

end Sockets

/-! ## §3 — the invariant -/

/-- A blocked reader has an empty buffer, or one whose line is still being received. -/
structure Alert (w : World) : Prop where
  past : ∀ t, some t ∈ w.threads → t.since ≤ w.net.notified
  quiet : ∀ t, some t ∈ w.threads → t.since = w.net.notified →
    ∀ f, w.net.fdlist[t.ind]? = some f → f.buffer = [] ∨ w.net.collecting t.ind

section Invariant

variable {w : World}

theorem Alert.awake (h : Alert w) : Awake w := by
  rintro hpc ind f ⟨t, ht, rfl, hsince⟩ hf
  rcases h.quiet t ht hsince f hf with hempty | hcoll
  · exact hempty
  · simp [Sockets.collecting, hpc] at hcoll

theorem Alert.start (net : Sockets) (n : Nat) : Alert (World.start net n) where
  past t ht := by simp [World.start] at ht
  quiet t ht := by simp [World.start] at ht

/-- A reader takes characters away and waits in front of an empty buffer. -/
theorem Alert.go (h : Alert w) (r ind : Nat) (reader : Reader) : Alert (w.go r ind reader) := by
  unfold World.go
  split
  · exact h
  · rename_i f hf
    generalize hrun : reader.run f.buffer = p
    obtain ⟨reader', rest⟩ := p
    dsimp only
    -- an empty buffer stays empty
    have hrest : f.buffer = [] → rest = [] := by
      intro hempty
      rw [hempty] at hrun
      cases reader <;> exact (Prod.mk.inj hrun).2.symm
    have hbuffer : ∀ {i : Nat} {g : Fd},
        (update w.net.fdlist ind (·.consume rest))[i]? = some g →
          ∃ g₀, w.net.fdlist[i]? = some g₀ ∧ (g₀.buffer = [] → g.buffer = []) := by
      intro i g hg
      rw [update, List.getElem?_modify] at hg
      obtain ⟨g₀, hg₀, rfl⟩ := Option.map_eq_some_iff.mp hg
      refine ⟨g₀, hg₀, fun hempty => ?_⟩
      by_cases hi : ind = i
      · subst hi
        obtain rfl := Option.some.inj (hf.symm.trans hg₀)
        simpa [Fd.consume] using hrest hempty
      · simpa [hi] using hempty
    refine ⟨fun t ht => ?_, fun t ht hsince g hg => ?_⟩
    · rcases List.mem_or_eq_of_mem_set ht with ht | ht
      · exact h.past t ht
      · obtain ⟨_, _, rfl⟩ := Option.map_eq_some_iff.mp ht.symm
        exact le_refl _
    · rcases List.mem_or_eq_of_mem_set ht with ht | ht
      · obtain ⟨g₀, hg₀, hempty⟩ := hbuffer hg
        rcases h.quiet t ht hsince g₀ hg₀ with hq | hq
        · exact .inl (hempty hq)
        · exact .inr hq
      · obtain ⟨reader'', hsome, rfl⟩ := Option.map_eq_some_iff.mp ht.symm
        have hnil : rest = [] := Reader.run_waits (hsome ▸ hrun)
        rw [update_getElem? hf] at hg
        obtain rfl := Option.some.inj hg
        exact .inl (by simpa [Fd.consume] using hnil)

/-- A character leaves blocked readers in front of empty buffers, unless it queues a request for one
of them. -/
theorem Alert.rx (h : Alert w) {room : Nat} {c : UInt8}
    (hok : ∀ it ∈ w.net.queuesAt c, ¬ w.blocked it) :
    Alert { w with net := w.net.rx room c } := by
  have hrec := w.net.rx_received (c := c) room
  generalize w.net.rx room c = s' at hrec
  cases hrec with
  | notified hn =>
    refine ⟨fun t ht => (h.past t ht).trans hn.le, fun t ht hsince => ?_⟩
    have := h.past t ht
    exact absurd hsince (by simp only; omega)
  | crashed hn hpc =>
    exact ⟨fun t ht => (h.past t ht).trans hn.ge, fun t ht hsince f hf => .inr (.inl hpc)⟩
  | silent hn hf hpc =>
    refine ⟨fun t ht => (h.past t ht).trans hn.ge, fun t ht hsince f hget => ?_⟩
    rcases h.quiet t ht (hsince.trans hn) f (hf ▸ hget) with hq | hq
    · exact .inl hq
    · exact .inr (hpc.collecting hq)
  | @collected _ ind bs hn hf hpc hind =>
    refine ⟨fun t ht => (h.past t ht).trans hn.ge, fun t ht hsince f hget => ?_⟩
    by_cases hi : ind = t.ind
    · exact .inr (hi ▸ hind)
    · have hget' : w.net.fdlist[t.ind]? = some f := by
        simpa [hf, update, List.getElem?_modify, hi] using hget
      rcases h.quiet t ht (hsince.trans hn) f hget' with hq | hq
      · exact .inl hq
      · exact .inr (hpc.collecting hq)
  | @queued it msg hplace hlt hpc =>
    refine ⟨h.past, fun t ht hsince f hget => ?_⟩
    have hi : it ≠ t.ind := fun heq => hok it hplace ⟨t, ht, heq.symm, hsince⟩
    have hget' : w.net.fdlist[t.ind]? = some f := by
      simpa [update, List.getElem?_modify, hi] using hget
    rcases h.quiet t ht hsince f hget' with hq | hq
    · exact .inl hq
    · exact .inr (hpc.collecting hq)

/-- The step does not queue a connect request for a blocked reader. -/
def wakes (w : World) : Act → Prop
  | .rx _ c => ∀ it ∈ w.net.queuesAt c, ¬ w.blocked it
  | _ => True

/-- **One step keeps the invariant.** -/
theorem Alert.act (h : Alert w) {a : Act} (hok : wakes w a) : Alert (w.act a) := by
  cases a with
  | rx room c => exact h.rx hok
  | call r ind reader =>
    simp only [World.act]
    split
    · exact h.go r ind reader
    · exact h
  | resume r =>
    simp only [World.act]
    split
    · split
      · exact h
      · exact h.go r _ _
    · exact h
  | timeout r =>
    have hmem : ∀ t, some t ∈ w.threads.set r none → some t ∈ w.threads := by
      intro t ht
      rcases List.mem_or_eq_of_mem_set ht with ht | ht
      · exact ht
      · simp at ht
    exact ⟨fun t ht => h.past t (hmem t ht), fun t ht => h.quiet t (hmem t ht)⟩

/-- **The step that queues a request for a blocked reader loses a wake-up.** -/
theorem not_awake_act {a : Act} (hbad : ¬ wakes w a) : ¬ Awake (w.act a) := by
  cases a with
  | rx room c =>
    simp only [wakes, not_forall, not_not] at hbad
    obtain ⟨it, hit, t, ht, rfl, hsince⟩ := hbad
    obtain ⟨msg, f, hf, heq⟩ := w.net.rx_queuesAt room hit
    intro hawake
    have hget : (w.act (.rx room c)).net.fdlist[t.ind]? = some (f.queue msg) := by
      simp [World.act, heq, update, hf]
    have hempty := hawake (by simp [World.act, heq]) t.ind _
      ⟨t, ht, rfl, by simpa [World.act, heq] using hsince⟩ hget
    simp [Fd.queue, Fd.push] at hempty
  | _ => exact absurd trivial hbad

end Invariant

/-! ## §4 — runs -/

/-- **No lost wake-up.** With any table and any number of readers, no reader is ever left blocked in
front of characters exactly when none is blocked where a connect request is queued. -/
theorem no_lost_wakeup (net : Sockets) (n : Nat) (acts : List Act) :
    Always (fun _ w => Awake w) World.act [] (World.start net n) acts ↔
      Throughout wakes World.act (World.start net n) acts :=
  always_iff_of_invariant (I := fun _ w => Alert w) (fun _ _ h => h.awake)
    (fun _ _ _ h hok => h.act hok) (fun _ _ _ _ hbad => not_awake_act hbad)
    acts [] (World.start net n) (Alert.start net n)

/-- A socket that listens on port 80. -/
def serving : Sockets :=
  [.socket AF_INET .STREAM 0, .bind 2 (some 80), .listen 2 1].foldl Sockets.step Sockets.boot

/-- `espm_accept` waits for a line of the listening socket, and then a connect request comes in. -/
def acceptFirst : List Act :=
  .call 0 1 (.readline false) :: (0xff :: str "c 1.2.3.4:80\r\n").map (.rx 100)

/-- **The wake-up is lost on that run**: the request is in the buffer and the reader still waits. -/
theorem no_lost_wakeup_acceptFirst :
    ¬ Always (fun _ w => Awake w) World.act [] (World.start serving 1) acceptFirst := by
  intro h
  have hblocked : (acceptFirst.foldl World.act (World.start serving 1)).blocked 1 :=
    ⟨⟨1, .readline false, 0⟩, by decide +kernel, rfl, by decide +kernel⟩
  have hget : (acceptFirst.foldl World.act (World.start serving 1)).net.fdlist[1]? =
      serving.fdlist[1]?.map (Fd.queue · (str "1.2.3.4:80\r\n")) := by decide +kernel
  obtain ⟨f, hf⟩ : ∃ f, serving.fdlist[1]? = some f := ⟨_, rfl⟩
  rw [hf, Option.map_some] at hget
  have hempty := h.last (by decide +kernel) 1 _ hblocked hget
  simp [Fd.queue, Fd.push] at hempty

end Espmod.Socket
