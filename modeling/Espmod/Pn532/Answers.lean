/-
# Espmod.Pn532.Answers — what the answers of the PN532 model depend on

The answer to a command should depend on the command and the card. The parser keeps two things from what
was before. A command without parameters does not clear `cmdbad`, so a rejected command rejects the
`GetFirmwareVersion` after it. And the bytes that are still in the queue to the host are dropped into the
checksum of the next command. They are dropped at its command byte: if the queue was full with the response
thread waiting, it writes the rest of the old response then, and clears the command that has just come.
-/
import Espmod.Pn532.Parameters

namespace Espmod.Pn532

open Espmod.Lib.Text (Bytes)

/-! ## §1 — requests -/

/-- The command has the parameters it needs. -/
def complete (cmd : UInt8) (params : Bytes) : Bool :=
  if cmd = 0x02 then decide (params = [])
  else if cmd = 0x14 then decide (3 ≤ params.length)
  else if cmd = 0x32 then decide (params ≠ []) && !Frame.short cmd params
  else if cmd = 0x40 then decide (3 ≤ params.length)
  else if cmd = 0x4a then decide (2 ≤ params.length)
  else false

/-- A command of the host with its parameters, after some zeros. -/
structure Request where
  lead : Nat
  cmd : UInt8
  params : Bytes
  hlen : params.length ≤ 253
  complete : complete cmd params = true

namespace Request

/-- The right checksum. -/
def dcs (r : Request) : UInt8 := 0 - (0xD4 + r.cmd + r.params.sum)

def frame (r : Request) : Frame := .normal (r.lead + 1) 0xD4 r.cmd r.params r.dcs r.hlen

/-- The frame up to its command byte. -/
def opening (r : Request) : Bytes :=
  List.replicate (r.lead + 1) 0 ++ [0x00, 0xFF, UInt8.ofNat (r.params.length + 2),
    UInt8.ofNat (0x100 - (r.params.length + 2)), 0xD4]

/-- An `InListPassiveTarget` that is refused. -/
def badTarget (r : Request) : Bool :=
  match r.params with
  | maxtg :: brty :: _ => Pn532Base.badTarget maxtg brty
  | _ => false

/-- A request that is answered with a syntax error. -/
def Refused (r : Request) : Prop := r.cmd = 0x32 ∨ r.cmd = 0x4a ∧ r.badTarget = true

instance (r : Request) : Decidable r.Refused := by unfold Refused; infer_instance

/-- The command for the card and the block it names. -/
def incmd (r : Request) : UInt16 := ((r.params.tail).headD 0).toUInt16

def block (r : Request) : UInt16 := ((r.params.tail.tail).headD 0).toUInt16

end Request

/-! ## §2 — the answer -/

namespace Mif

/-- What `resp_th` writes in the end, with so many calls of `pushresp`. -/
def respond : Nat → Mif → Option Bytes
  | 0, _ => none
  | n + 1, m =>
    match m.pushresp with
    | some resp => some resp
    | none => respond n m.retry

/-- The response, if there is ever one. -/
def response (m : Mif) : Option Bytes := m.respond (m.retries + 1)

end Mif

def Warning.isDcs : Warning → Bool
  | .dcs _ _ => true
  | _ => false

namespace Pn532Base

/-- The bytes come one after the other, and nothing else happens. -/
def accept (s : Pn532Base) (ms : Bytes) : Pn532Base := ms.foldl receive s

/-- The response to a request, and whether its checksum was found right. -/
def answer (s : Pn532Base) (r : Request) : Option Bytes × Bool :=
  let t := s.accept r.frame.bytes
  (t.mif.response, !(t.warnings.drop s.warnings.length).any Warning.isDcs)

/-- The last response is written, or waits for the host to read it; nothing else is under way. -/
structure Answered (s : Pn532Base) : Prop where
  idle : s.Idle
  ack : s.ack = false
  done : s.writing = [] → s.opstate = .off ∨ s.opstate = .idle ∨ s.opstate = .readout

/-- The same card data, authentication flags and retry configuration. -/
structure SameCard (m m' : Mif) : Prop where
  tags : m.tags = m'.tags
  sensRes : m.sensRes = m'.sensRes
  selRes : m.selRes = m'.selRes
  uidLength : m.uidLength = m'.uidLength
  uidValue : m.uidValue = m'.uidValue
  mem : m.mem = m'.mem
  retries : m.mxrtypassiveactivation = m'.mxrtypassiveactivation

/-- What was before a request spoils its response: an old response that waits for room, or a rejected
command before a `GetFirmwareVersion`. -/
def Spoiled (s : Pn532Base) (r : Request) : Prop :=
  s.writing ≠ [] ∨ r.cmd = 0x02 ∧ s.mif.cmdbad = true

instance (s : Pn532Base) (r : Request) : Decidable (s.Spoiled r) := by unfold Spoiled; infer_instance

/-- Two states before a request that answer alike: both or neither have an unread rest that shows in the
checksum, and both or neither spoil the response, unless it is a syntax error anyway. -/
def Alike (s s' : Pn532Base) (r : Request) : Prop :=
  (s.toFifo.sum = 0 ↔ s'.toFifo.sum = 0) ∧ (r.Refused ∨ (s.Spoiled r ↔ s'.Spoiled r))

/-! ## §3 — runs -/

/-- The queue is full while a response waits, and what waits fits in an empty queue. -/
structure Queued (s : Pn532Base) : Prop where
  tags : s.mif.tags ≤ 1
  newcommand : s.newcommand = false
  room : s.toFifo.length ≤ toSize
  full : s.writing ≠ [] → s.toFifo.length = toSize ∧ s.writing.length ≤ toSize

variable {s t u : Pn532Base} {m : UInt8} {ms : Bytes} {e : List Bytes} {tk : Bytes} {r : Request}

/-- A byte leaves the response thread alone; it may empty the queue and notify a command. -/
structure Outer (s t : Pn532Base) : Prop where
  tags : t.mif.tags = s.mif.tags
  writing : t.writing = s.writing
  toFifo : t.toFifo = s.toFifo ∨ t.toFifo = []

theorem Inner.outer (h : Inner (s.added m) t) : Outer s t := ⟨h.tags, h.writing, Or.inl h.toFifo⟩

theorem outer_execute (s : Pn532Base) : Outer s s.execute := by
  unfold execute
  refine ⟨?_, rfl, Or.inl rfl⟩
  dsimp only
  repeat' split
  all_goals rfl

theorem outer_process (s : Pn532Base) (m : UInt8) : Outer s (s.process m) := by
  by_cases hwait : s.wait = .top
  · cases hstate : s.pn532state with
    | pdn => exact (inner_pdn ⟨hwait, hstate, rfl⟩ m).outer
    | pd0 =>
      rw [process_top hwait, top, hstate]
      exact ⟨rfl, rfl, Or.inr rfl⟩
    | lock =>
      rw [process_top hwait, top, hstate]
      dsimp only
      split
      · exact ⟨(outer_execute _).tags, rfl, Or.inl rfl⟩
      · exact ⟨(outer_execute _).tags, rfl, Or.inl rfl⟩
    | _ =>
      rw [process_top hwait, top, hstate]
      dsimp only
      repeat' split
      all_goals exact ⟨rfl, rfl, Or.inl rfl⟩
  · exact (inner_inside hwait m).outer

theorem length_pushframe (len : Nat) (cmd : UInt8) (packet : Bytes) :
    (pushframe len cmd packet).length = packet.length + 9 := by
  simp [pushframe]

/-- With at most one card no response is longer than what the queue and as much again hold. -/
theorem length_pushresp {m : Mif} (h : m.tags ≤ 1) {resp : Bytes} (hresp : m.pushresp = some resp) :
    resp.length ≤ toSize + toSize := by
  have htags : m.tags.toNat ≤ 1 := UInt8.le_iff_toNat_le.mp h
  have htargets : m.targets.length ≤ 10 := by
    rcases Nat.le_one_iff_eq_zero_or_eq_one.mp htags with hzero | hone
    · simp [Mif.targets, hzero]
    · simp [Mif.targets, hone]
  rw [Mif.pushresp_reply] at hresp
  unfold toSize
  cases hreply : m.reply with
  | targets =>
    rw [hreply] at hresp
    rw [← Option.some.inj hresp, length_pushframe]
    omega
  | again =>
    rw [hreply] at hresp
    cases hresp
  | _ =>
    rw [hreply] at hresp
    rw [← Option.some.inj hresp]
    simp [length_pushframe, Mif.exchanged, pushsyntaxerr]

theorem Queued.pour (htags : s.mif.tags ≤ 1) (hnew : s.newcommand = false)
    (hroom : s.toFifo.length ≤ toSize) (hwriting : s.toFifo.length + s.writing.length ≤ toSize + toSize) :
    Queued s.pour := by
  have hlength : (s.toFifo ++ s.writing.take (toSize - s.toFifo.length)).length ≤ toSize := by
    rw [List.length_append, List.length_take]
    omega
  unfold Pn532Base.pour
  dsimp only
  split
  · rename_i hdone
    exact ⟨htags, hnew, hlength, fun hne => absurd hdone hne⟩
  · rename_i hrest
    refine ⟨htags, hnew, hlength, fun _ => ?_⟩
    have hpos := List.length_pos_iff.mpr hrest
    rw [List.length_drop] at hpos
    dsimp only
    rw [List.length_append, List.length_take, List.length_drop]
    omega

theorem Queued.respth (h : Queued s) (hdone : s.writing = []) : Queued s.respth := by
  have hno : ∀ {q : Prop}, s.writing ≠ [] → q := fun hne => absurd hdone hne
  unfold Pn532Base.respth
  split
  · exact ⟨h.tags, h.newcommand, show pushack.length ≤ toSize by decide, hno⟩
  · split <;> exact ⟨h.tags, h.newcommand, h.room, hno⟩
  · exact ⟨h.tags, h.newcommand, h.room, hno⟩
  · split
    · exact ⟨h.tags, h.newcommand, Nat.zero_le _, hno⟩
    · rename_i resp hresp
      have hlen := length_pushresp h.tags hresp
      refine Queued.pour h.tags h.newcommand (Nat.zero_le _) ?_
      simpa using hlen
  · exact ⟨h.tags, h.newcommand, h.room, hno⟩
  · exact h

theorem Queued.drained (htags : s.mif.tags ≤ 1) (hnew : s.newcommand = false)
    (hroom : s.toFifo.length ≤ toSize) (hwriting : s.writing.length ≤ toSize) : Queued s.drained := by
  unfold Pn532Base.drained
  split
  · exact Queued.pour htags hnew hroom (Nat.add_le_add hroom hwriting)
  · rename_i hdone
    have hdone' := Classical.not_not.mp hdone
    split
    · exact Queued.respth ⟨htags, hnew, hroom, fun hne => absurd hdone' hne⟩ hdone'
    · exact ⟨htags, hnew, hroom, fun hne => absurd hdone' hne⟩

theorem Queued.length_writing (h : Queued s) : s.writing.length ≤ toSize := by
  by_cases hdone : s.writing = []
  · rw [hdone]
    exact Nat.zero_le _
  · exact (h.full hdone).2

theorem wake_frame (s : Pn532Base) :
    s.wake.mif = s.mif ∧ s.wake.writing = s.writing ∧ s.wake.toFifo = s.toFifo ∧
      s.wake.newcommand = false := by
  unfold wake
  split
  · split <;> exact ⟨rfl, rfl, rfl, rfl⟩
  · rename_i hnew
    exact ⟨rfl, rfl, rfl, Bool.eq_false_of_not_eq_true hnew⟩

theorem Queued.receive (h : Queued s) (m : UInt8) : Queued (s.receive m) := by
  obtain ⟨htags, hwriting, hfifo⟩ := outer_process s m
  obtain ⟨hmif, hwriting', hfifo', hnew⟩ := wake_frame (s.process m)
  rw [hwriting] at hwriting'
  rw [← hmif] at htags
  rw [← hfifo'] at hfifo
  have htags' : (s.process m).wake.mif.tags ≤ 1 := by rw [htags]; exact h.tags
  unfold Pn532Base.receive
  dsimp only
  split
  · rename_i hempty
    exact Queued.drained htags' hnew (by rw [hempty.2]; exact Nat.zero_le _)
      (by rw [hwriting']; exact h.length_writing)
  · rename_i hsame
    have hfifo'' : (s.process m).wake.toFifo = s.toFifo := by
      rcases hfifo with heq | hnil
      · exact heq
      · rw [hnil]
        by_contra hne
        exact hsame ⟨fun heq => hne heq.symm, hnil⟩
    refine ⟨htags', hnew, ?_, ?_⟩
    · rw [hfifo'']
      exact h.room
    · rw [hfifo'', hwriting']
      exact h.full

theorem Queued.step (h : Queued s) (ev : Event) : Queued (s.step ev) := by
  cases ev with
  | byte msg => exact h.receive msg
  | read =>
    unfold Pn532Base.step
    dsimp only
    split
    · exact h
    · refine Queued.drained h.tags h.newcommand ?_ h.length_writing
      exact le_trans (by simp) h.room
  | expire =>
    unfold Pn532Base.step
    dsimp only
    split
    · split
      · rename_i hdone
        exact Queued.respth ⟨h.tags, h.newcommand, h.room, h.full⟩ hdone
      · exact ⟨h.tags, h.newcommand, h.room, h.full⟩
    · exact h
  | present uid => exact ⟨show (1 : UInt8) ≤ 1 by decide, h.newcommand, h.room, h.full⟩
  | remove => exact ⟨UInt8.zero_le, h.newcommand, h.room, h.full⟩

theorem queued_run (m : Mif) (es : List Event) : Queued ((start m).run es) := by
  have hstart : Queued (start m) :=
    ⟨UInt8.zero_le, rfl, Nat.zero_le _, fun hne => absurd rfl hne⟩
  exact List.foldlRecOn es step hstart fun _ h ev _ => h.step ev

/-! ## §4 — a request -/

theorem accept_append (s : Pn532Base) (a b : Bytes) : s.accept (a ++ b) = (s.accept a).accept b :=
  List.foldl_append

theorem wake_eq (hnew : s.newcommand = false) : s.wake = s := by
  unfold wake
  rw [if_neg (by rw [hnew]; exact Bool.false_ne_true)]

/-- A byte that neither empties the queue nor ends a command. -/
theorem receive_eq (hnew : (s.process m).newcommand = false) (hfifo : (s.process m).toFifo = s.toFifo) :
    s.receive m = s.process m := by
  unfold receive
  dsimp only
  rw [wake_eq hnew, if_neg fun hne => hne.1 (hfifo ▸ hne.2)]

theorem receive_inner (h : Inner (s.added m) (s.process m)) (hnew : s.newcommand = false) :
    s.receive m = s.process m :=
  receive_eq (h.newcommand.trans hnew) h.toFifo

theorem accept_params (ms : Bytes) : ∀ {s tk}, Within True e tk ms.length s → s.newcommand = false →
    s.accept ms = s.feed ms := by
  induction ms with
  | nil => exact fun _ _ => rfl
  | cons m ms ih =>
    intro s tk h hnew
    have hwait : s.wait ≠ .top := fun htop => by
      have := (h.top htop).2
      rw [List.length_cons] at this
      omega
    have hinner := inner_inside hwait m
    have hnext := h.process hwait m
    rw [List.length_cons, Nat.cast_succ, add_sub_cancel_right] at hnext
    have hrest := ih hnext (hinner.newcommand.trans hnew)
    show (s.receive m).accept ms = (s.process m).feed ms
    rw [receive_inner hinner hnew, hrest]

/-- Zeros change nothing when two have been. -/
theorem accept_zeros (k : Nat) : ∀ {s : Pn532Base}, s.wait = .top → s.pn532state = .unlock2 →
    s.newcommand = false → s.accept (List.replicate k 0) = s := by
  induction k with
  | zero => exact fun _ _ _ => rfl
  | succ k ih =>
    intro s hwait hstate hnew
    have hstep : s.process 0 = s := by
      rw [process_top hwait, top, hstate]
      dsimp only
      rw [UInt8.add_zero, if_pos rfl, ← hstate]
    have hrec : s.receive 0 = s := by
      rw [receive_eq (by rw [hstep]; exact hnew) (by rw [hstep]), hstep]
    show (s.receive 0).accept (List.replicate k 0) = s
    rw [hrec]
    exact ih hwait hstate hnew

/-- At the top of the loop. -/
theorem receive_top {s' : Pn532Base} (hwait : s.wait = .top)
    (htop : { s with cksum := s.cksum + m }.top m = s') (hnew : s'.newcommand = false)
    (hfifo : s'.toFifo = s.toFifo) : s.receive m = s' := by
  have hstep : s.process m = s' := by rw [process_top hwait, htop]
  rw [receive_eq (by rw [hstep]; exact hnew) (by rw [hstep]; exact hfifo), hstep]

/-- The frame up to its TFI, from idle. -/
theorem accept_header (h : s.Idle) (hnew : s.newcommand = false) (k : Nat) {len lcs : UInt8}
    (hlcs : 0x100 - (len.toNat : Int) = lcs.toNat) :
    s.accept (List.replicate (k + 1) 0 ++ [0x00, 0xFF, len, lcs, 0xD4]) =
      { s with
        mif := { s.mif with len := len.toNat - 1 }, pn532state := .pd0, cksum := 0xD4 } := by
  obtain ⟨hwait, hstate⟩ := h
  have hzero : s.receive 0 = { s with pn532state := .unlock1 } :=
    receive_top hwait (by rw [top, hstate]; dsimp only; rw [UInt8.add_zero, if_pos rfl]) hnew rfl
  have hone : { s with pn532state := .unlock1 }.receive 0 = { s with pn532state := .unlock2 } :=
    receive_top hwait (by rw [top]; dsimp only; rw [UInt8.add_zero, if_pos rfl]) hnew rfl
  have hff : { s with pn532state := .unlock2 }.receive 0xFF =
      { s with pn532state := .unlock3, cksum := s.cksum + 0xFF } := receive_top hwait rfl hnew rfl
  have hlen : { s with pn532state := .unlock3, cksum := s.cksum + 0xFF }.receive len =
      { s with
        mif := { s.mif with len := len.toNat }, pn532state := .unlock4
        cksum := s.cksum + 0xFF + len } := receive_top hwait rfl hnew rfl
  have hright : { s with
        mif := { s.mif with len := len.toNat }, pn532state := .unlock4
        cksum := s.cksum + 0xFF + len }.receive lcs =
      { s with mif := { s.mif with len := len.toNat }, pn532state := .unlock5, cksum := 0 } := by
    refine receive_top hwait ?_ hnew rfl
    rw [top]
    dsimp only
    rw [if_neg (not_not.mpr hlcs)]
  have htfi : { s with
        mif := { s.mif with len := len.toNat }, pn532state := .unlock5, cksum := 0 }.receive 0xD4 =
      { s with mif := { s.mif with len := len.toNat - 1 }, pn532state := .pd0, cksum := 0xD4 } :=
    receive_top hwait rfl hnew rfl
  have hbytes : List.replicate (k + 1) 0 ++ [0x00, 0xFF, len, lcs, 0xD4] =
      0 :: 0 :: (List.replicate k 0 ++ [0xFF, len, lcs, 0xD4]) := by
    rw [List.replicate_succ, List.cons_append, ← List.singleton_append (l := [0xFF, len, lcs, 0xD4]),
      ← List.append_assoc, ← List.replicate_succ', List.replicate_succ, List.cons_append]
  rw [hbytes]
  show ((s.receive 0).receive 0).accept (List.replicate k 0 ++ [0xFF, len, lcs, 0xD4]) = _
  rw [hzero, hone, accept_append, accept_zeros k (s := { s with pn532state := .unlock2 }) hwait rfl hnew]
  show Pn532Base.receive (Pn532Base.receive (Pn532Base.receive (Pn532Base.receive _ 0xFF) len) lcs) 0xD4 = _
  rw [hff, hlen, hright, htfi]

/-- **The command byte**: an old response that waits for room is written to its end, and clears it. -/
theorem receive_command (hwait : s.wait = .top) (hstate : s.pn532state = .pd0) (h : Queued s)
    (hack : s.ack = false) (hdone : s.writing = [] → s.opstate = .off ∨ s.opstate = .idle ∨ s.opstate = .readout)
    (cmd : UInt8) : ∃ q o, s.receive cmd =
      { s with
        mif := { s.mif with cmd := if s.writing = [] then cmd else 0, len := s.mif.len - 1 }
        pn532state := if s.mif.len - 1 = 0 then .dcs else .pdn
        cksum := s.cksum + cmd + s.toFifo.sum, taken := [cmd], toFifo := q, writing := [], opstate := o } := by
  have hstep : s.process cmd =
      { s with
        mif := { s.mif with cmd := cmd, len := s.mif.len - 1 }
        pn532state := if s.mif.len - 1 = 0 then .dcs else .pdn
        cksum := s.cksum + cmd + s.toFifo.sum, taken := [cmd], toFifo := [] } := by
    rw [process_top hwait]
    unfold top
    dsimp only
    rw [hstate]
  have hwake : (s.process cmd).wake = s.process cmd := wake_eq (by rw [hstep]; exact h.newcommand)
  unfold receive
  dsimp only
  rw [hwake, hstep]
  by_cases hwriting : s.writing = []
  · rw [if_pos hwriting]
    by_cases hfifo : s.toFifo = []
    · rw [if_neg fun hne => hne.1 hfifo]
      exact ⟨[], s.opstate, by rw [hwriting]⟩
    · rw [if_pos ⟨hfifo, rfl⟩]
      unfold drained
      rw [if_neg (not_not.mpr hwriting)]
      rcases hdone hwriting with hoff | hidle | hread
      · refine ⟨[], s.opstate, ?_⟩
        rw [if_neg (by dsimp only; rw [hoff]; decide), hwriting]
      · refine ⟨[], s.opstate, ?_⟩
        rw [if_neg (by dsimp only; rw [hidle]; decide), hwriting]
      · refine ⟨[], .idle, ?_⟩
        rw [if_pos ⟨rfl, Or.inr hread⟩]
        unfold respth
        dsimp only
        rw [hread, hwriting, hack]
  · obtain ⟨hfull, hfits⟩ := h.full hwriting
    have hfifo : s.toFifo ≠ [] := fun hnil => by
      rw [hnil] at hfull
      exact absurd hfull (by decide)
    rw [if_neg hwriting, if_pos ⟨hfifo, rfl⟩]
    unfold drained
    rw [if_pos hwriting]
    unfold pour
    dsimp only
    rw [List.length_nil, Nat.sub_zero, List.nil_append, List.take_of_length_le hfits,
      List.drop_of_length_le hfits, if_pos rfl]
    exact ⟨s.writing, .readout, rfl⟩

/-- What the execution of a command leaves of `mif`. -/
structure Executed (m m' : Mif) : Prop where
  cmd : m'.cmd = m.cmd
  cmdbad : m'.cmdbad = m.cmdbad
  lastincmd : m'.lastincmd = m.lastincmd
  bn : m'.bn = m.bn
  mem : m'.mem = m.mem
  tags : m'.tags = m.tags
  sensRes : m'.sensRes = m.sensRes
  selRes : m'.selRes = m.selRes
  uidLength : m'.uidLength = m.uidLength
  uidValue : m'.uidValue = m.uidValue
  retries : m.cmd = 0x4a → m'.retries = m.mxrtypassiveactivation

theorem executed_execute (s : Pn532Base) : Executed s.mif s.execute.mif := by
  unfold execute
  dsimp only
  split
  · exact ⟨rfl, rfl, rfl, rfl, rfl, rfl, rfl, rfl, rfl, rfl, fun _ => rfl⟩
  · rename_i hne
    split
    · exact ⟨rfl, rfl, rfl, rfl, rfl, rfl, rfl, rfl, rfl, rfl, fun heq => absurd heq hne⟩
    · split <;> exact ⟨rfl, rfl, rfl, rfl, rfl, rfl, rfl, rfl, rfl, rfl, fun heq => absurd heq hne⟩

/-- The warning of a checksum that is not right. -/
def dcsWarnings (cksum dcs : UInt8) : List Warning :=
  if cksum ≠ 0 then [.dcs dcs (0x100 - (cksum - dcs).toNat)] else []

/-- **The end of the frame**: the command is executed, and the response thread takes it. -/
theorem accept_trailer (h : At .dcs e s) (hnew : s.newcommand = false) (hwriting : s.writing = [])
    (d : UInt8) :
    let t := s.accept [d, 0]
    Executed s.mif t.mif ∧ t.warnings = s.warnings ++ dcsWarnings (s.cksum + d) d ∧
      t.opstate = .ack ∧ t.ack = true ∧ t.writing = [] := by
  have hdcs : s.receive d =
      { s with
        cksum := s.cksum + d, warnings := s.warnings ++ dcsWarnings (s.cksum + d) d
        pn532state := .lock } := by
    refine receive_top h.wait ?_ hnew rfl
    rw [top, h.state]
    unfold dcsWarnings warn
    dsimp only
    split
    · rfl
    · rw [List.append_nil]
  have hlock : (s.receive d).process 0 = { s with
        cksum := s.cksum + d, warnings := s.warnings ++ dcsWarnings (s.cksum + d) d
        pn532state := .idle }.execute := by
    rw [process_top (by rw [hdcs]; exact h.wait), top, hdcs]
    dsimp only
    rw [if_neg (not_not.mpr rfl), UInt8.add_zero]
  have hwake : ((s.receive d).process 0).wake =
      { (s.receive d).process 0 with newcommand := false, ack := true, opstate := .ack } := by
    unfold wake
    rw [hlock, if_pos (by rfl), if_pos (by exact hwriting)]
  have hlast : (s.receive d).receive 0 =
      { (s.receive d).process 0 with newcommand := false, ack := true, opstate := .ack } := by
    have hfifo : ((s.receive d).process 0).wake.toFifo = (s.receive d).toFifo := by
      rw [hwake, hlock, hdcs]
      rfl
    show (if _ then _ else ((s.receive d).process 0).wake) = _
    rw [if_neg fun hne => hne.1 (hfifo ▸ hne.2), hwake]
  have haccept : s.accept [d, 0] =
      { (s.receive d).process 0 with newcommand := false, ack := true, opstate := .ack } := hlast
  have hexec := executed_execute { s with
    cksum := s.cksum + d, warnings := s.warnings ++ dcsWarnings (s.cksum + d) d, pn532state := .idle }
  dsimp only
  rw [haccept, hlock]
  exact ⟨hexec, rfl, rfl, rfl, hwriting⟩

/-- What the module is left with after a request: the command or, if an old response was in the way, none;
the card as it was; the warning, if the checksum was wrong; and the response thread about to answer. -/
structure Taken (s : Pn532Base) (r : Request) (t : Pn532Base) : Prop where
  cmd : t.mif.cmd = if s.writing = [] then r.cmd else 0
  tags : t.mif.tags = s.mif.tags
  sensRes : t.mif.sensRes = s.mif.sensRes
  selRes : t.mif.selRes = s.mif.selRes
  uidLength : t.mif.uidLength = s.mif.uidLength
  uidValue : t.mif.uidValue = s.mif.uidValue
  warnings : ∃ d, t.warnings = s.warnings ++ dcsWarnings s.toFifo.sum d
  version : s.writing = [] → r.cmd = 0x02 → t.mif.cmdbad = s.mif.cmdbad
  sam : s.writing = [] → r.cmd = 0x14 → t.mif.cmdbad = false
  target : s.writing = [] → r.cmd = 0x4a →
    t.mif.cmdbad = r.badTarget ∧ t.mif.retries = s.mif.mxrtypassiveactivation
  exchange : s.writing = [] → r.cmd = 0x40 →
    t.mif.cmdbad = false ∧ t.mif.lastincmd = r.incmd ∧ t.mif.bn = r.block ∧
      (r.incmd = 0x30 → t.mif.mem = s.mif.mem)
  answering : t.opstate = .ack ∧ t.ack = true ∧ t.writing = []

/-- The parameters have been read: what is left of them in `mif`, if the command is still there. -/
structure Read (r : Request) (m m' : Mif) : Prop where
  cmd : m'.cmd = m.cmd
  version : r.cmd = 0x02 → m'.cmdbad = m.cmdbad
  sam : m.cmd = r.cmd → r.cmd = 0x14 → m'.cmdbad = false
  target : m.cmd = r.cmd → r.cmd = 0x4a →
    m'.cmdbad = r.badTarget ∧ m'.mxrtypassiveactivation = m.mxrtypassiveactivation
  exchange : m.cmd = r.cmd → r.cmd = 0x40 →
    m'.cmdbad = false ∧ m'.lastincmd = r.incmd ∧ m'.bn = r.block ∧ (r.incmd = 0x30 → m'.mem = m.mem)

theorem complete_exchange {params : Bytes} (h : complete 0x40 params = true) :
    ∃ a b c ms, params = a :: b :: c :: ms := by
  match params, h with
  | a :: b :: c :: ms, _ => exact ⟨a, b, c, ms, rfl⟩

theorem complete_sam {params : Bytes} (h : complete 0x14 params = true) :
    ∃ a b c ms, params = a :: b :: c :: ms := by
  match params, h with
  | a :: b :: c :: ms, _ => exact ⟨a, b, c, ms, rfl⟩

theorem complete_target {params : Bytes} (h : complete 0x4a params = true) :
    ∃ a b ms, params = a :: b :: ms := by
  match params, h with
  | a :: b :: ms, _ => exact ⟨a, b, ms, rfl⟩

theorem complete_version {params : Bytes} (h : complete 0x02 params = true) : params = [] :=
  of_decide_eq_true h

theorem complete_short {params : Bytes} (h : complete 0x32 params = true) :
    Frame.short 0x32 params = false := by
  have h' := (Bool.and_eq_true_iff.mp h).2
  simpa using h'

/-- **The parameters of a request.** -/
theorem feed_request (r : Request) (hu : At (if (r.params.length : Int) = 0 then .dcs else .pdn) e u)
    (hl : Loaded e tk r.params.length u) (hnew : u.newcommand = false)
    (hcmd : u.mif.cmd = r.cmd ∨ u.mif.cmd = 0) :
    let v := u.accept r.params
    At .dcs e v ∧ Inner (u.addedAll r.params) v ∧ Read r u.mif v.mif := by
  obtain ⟨lead, cmd, params, hlen, hcomplete⟩ := r
  dsimp only at hu hl hcmd ⊢
  cases params with
  | nil =>
    refine ⟨hu, inner_nil u, rfl, fun _ => rfl, fun _ hc => ?_, fun _ hc => ?_, fun _ hc => ?_⟩
    all_goals
      dsimp only at hc
      subst hc
      exact absurd hcomplete (by decide)
  | cons p ps =>
    have hpdn : At .pdn e u := by
      rwa [if_neg (by rw [List.length_cons]; omega)] at hu
    have hfits : True → u.mif.cmd = 0x32 → (cfgBytes p : Int) ≤ ((p :: ps).length : Nat) - 1 := by
      intro _ hcfg
      have hcmd' : cmd = 0x32 := by
        rcases hcmd with heq | heq
        · exact heq.symm.trans hcfg
        · exact absurd (heq.symm.trans hcfg) (by decide)
      subst hcmd'
      have hroom : ¬ ps.length < cfgBytes p :=
        fun hlt => of_decide_eq_false (complete_short hcomplete) ⟨rfl, hlt⟩
      rw [List.length_cons]
      omega
    have hin := hpdn.pdn hl p hfits
    rw [List.length_cons, Nat.cast_succ, add_sub_cancel_right] at hin
    have hinner := inner_pdn hpdn p
    have haccept : u.accept (p :: ps) = u.feed (p :: ps) := by
      show (u.receive p).accept ps = (u.process p).feed ps
      rw [receive_inner hinner hnew, accept_params ps hin (hinner.newcommand.trans hnew)]
    obtain ⟨hend, hrest⟩ := feed_params ps hin
    have hall : Inner (u.addedAll (p :: ps)) (u.feed (p :: ps)) := by
      have hfirst := hinner.addedAll ps
      rw [added_addedAll] at hfirst
      exact hfirst.trans hrest
    rw [haccept]
    refine ⟨hend.atDcs, hall, hall.cmd, fun hc => ?_, fun hkept hc => ?_, fun hkept hc => ?_, fun hkept hc => ?_⟩
    · subst hc
      exact absurd (complete_version hcomplete) (List.cons_ne_nil p ps)
    · subst hc
      obtain ⟨a, b, c, ms, hms⟩ := complete_sam hcomplete
      rw [hms] at hl ⊢
      exact feed_sam hpdn hkept hl
    · subst hc
      obtain ⟨a, b, ms, hms⟩ := complete_target hcomplete
      simp only [hms] at hl ⊢
      exact feed_target hpdn hkept hl
    · subst hc
      obtain ⟨a, b, c, ms, hms⟩ := complete_exchange hcomplete
      simp only [hms] at hl ⊢
      exact feed_exchange hpdn hkept hl

theorem bytes_frame (r : Request) :
    r.frame.bytes = r.opening ++ r.cmd :: (r.params ++ [r.dcs, 0]) := by
  rw [Request.frame, Frame.bytes_normal]
  simp [Request.opening]

/-- The command byte has come. -/
structure Begun (s : Pn532Base) (r : Request) (u : Pn532Base) : Prop where
  place : At (if (r.params.length : Int) = 0 then .dcs else .pdn) s.executed u
  loaded : Loaded s.executed [r.cmd] r.params.length u
  mif : u.mif = { s.mif with
    cmd := if s.writing = [] then r.cmd else 0, len := r.params.length }
  newcommand : u.newcommand = false
  writing : u.writing = []
  cksum : u.cksum = 0xD4 + r.cmd + s.toFifo.sum
  warnings : u.warnings = s.warnings

theorem begun_accept (h : Queued s) (ha : Answered s) (r : Request) :
    Begun s r ((s.accept r.opening).receive r.cmd) := by
  have hlcs : 0x100 - ((UInt8.ofNat (r.params.length + 2)).toNat : Int) =
      (UInt8.ofNat (0x100 - (r.params.length + 2))).toNat := by
    have := r.hlen
    rw [length_toNat r.hlen, UInt8.toNat_ofNat']
    omega
  have hopen := accept_header ha.idle h.newcommand r.lead hlcs
  rw [length_toNat r.hlen] at hopen
  obtain ⟨s₁, hs₁⟩ : ∃ s₁, s.accept r.opening = s₁ := ⟨_, rfl⟩
  have heq : s₁ = { s with
      mif := { s.mif with len := ((r.params.length + 2 : Nat) : Int) - 1 }
      pn532state := .pd0, cksum := 0xD4 } := hs₁.symm.trans hopen
  have hq : Queued s₁ := by
    rw [heq]
    exact ⟨h.tags, h.newcommand, h.room, h.full⟩
  obtain ⟨q, o, hu⟩ := receive_command (s := s₁) (by rw [heq]; exact ha.idle.1) (by rw [heq]) hq
    (by rw [heq]; exact ha.ack) (by rw [heq]; exact ha.done) r.cmd
  have hleft : ((r.params.length + 2 : Nat) : Int) - 1 - 1 = r.params.length := by omega
  rw [hs₁, hu]
  subst heq
  dsimp only
  rw [hleft]
  exact ⟨⟨ha.idle.1, rfl, rfl⟩, ⟨rfl, rfl, rfl⟩, rfl, h.newcommand, rfl, rfl, rfl⟩

/-- **What a request leaves**, whatever was before it. -/
theorem taken_accept (h : Queued s) (ha : Answered s) (r : Request) :
    Taken s r (s.accept r.frame.bytes) := by
  obtain ⟨u, hu⟩ : ∃ u, (s.accept r.opening).receive r.cmd = u := ⟨_, rfl⟩
  have hb : Begun s r u := hu ▸ begun_accept h ha r
  have hcmd : u.mif.cmd = if s.writing = [] then r.cmd else 0 := by rw [hb.mif]
  have hcase : u.mif.cmd = r.cmd ∨ u.mif.cmd = 0 := by
    rw [hcmd]
    split
    · exact Or.inl rfl
    · exact Or.inr rfl
  have hkept : s.writing = [] → u.mif.cmd = r.cmd := fun hw => by rw [hcmd, if_pos hw]
  obtain ⟨hdcs, hinner, hread⟩ := feed_request r hb.place hb.loaded hb.newcommand hcase
  obtain ⟨hexec, hwarn, hanswering⟩ := accept_trailer hdcs (hinner.newcommand.trans hb.newcommand)
    (hinner.writing.trans hb.writing) r.dcs
  have hrun : s.accept r.frame.bytes = (u.accept r.params).accept [r.dcs, 0] := by
    rw [bytes_frame, accept_append]
    show ((s.accept r.opening).receive r.cmd).accept (r.params ++ _) = _
    rw [hu, accept_append]
  rw [← hrun] at hexec hwarn hanswering
  have hsum : (u.accept r.params).cksum + r.dcs = s.toFifo.sum := by
    rw [hinner.cksum]
    show u.cksum + r.params.sum + r.dcs = _
    rw [hb.cksum, Request.dcs]
    grind
  rw [hsum, hinner.warnings] at hwarn
  refine ⟨?_, ?_, ?_, ?_, ?_, ?_, ⟨r.dcs, ?_⟩, fun hw hc => ?_, fun hw hc => ?_, fun hw hc => ?_,
    fun hw hc => ?_, hanswering⟩
  · rw [hexec.cmd, hread.cmd, hcmd]
  · rw [hexec.tags, hinner.tags, addedAll, hb.mif]
  · rw [hexec.sensRes, hinner.sensRes, addedAll, hb.mif]
  · rw [hexec.selRes, hinner.selRes, addedAll, hb.mif]
  · rw [hexec.uidLength, hinner.uidLength, addedAll, hb.mif]
  · rw [hexec.uidValue, hinner.uidValue, addedAll, hb.mif]
  · rw [hwarn, addedAll, hb.warnings]
  · rw [hexec.cmdbad, hread.version hc, hb.mif]
  · rw [hexec.cmdbad, hread.sam (hkept hw) hc]
  · obtain ⟨hbad, hretries⟩ := hread.target (hkept hw) hc
    refine ⟨hexec.cmdbad.trans hbad, ?_⟩
    rw [hexec.retries (hread.cmd.trans ((hkept hw).trans hc)), hretries, hb.mif]
  · obtain ⟨hbad, hlast, hbn, hmem⟩ := hread.exchange (hkept hw) hc
    refine ⟨hexec.cmdbad.trans hbad, hexec.lastincmd.trans hlast, hexec.bn.trans hbn, fun hi => ?_⟩
    rw [hexec.mem, hmem hi, hb.mif]

end Pn532Base

/-! ## §5 — the response -/

variable {m m' : Mif}

/-- What `pushresp` reads of two `mif`s is the same. -/
structure Reads (m m' : Mif) : Prop where
  cmd : m.cmd = m'.cmd
  cmdbad : m.cmdbad = m'.cmdbad
  tags : m.tags = m'.tags
  sensRes : m.sensRes = m'.sensRes
  selRes : m.selRes = m'.selRes
  uidLength : m.uidLength = m'.uidLength
  uidValue : m.uidValue = m'.uidValue
  retries : m.cmd = 0x4a → m.retries = m'.retries
  exchange : m.cmd = 0x40 → m.lastincmd = m'.lastincmd ∧
    (m.lastincmd = 0x30 → m.mem m.bn.toNat = m'.mem m'.bn.toNat)

theorem Reads.pushresp (h : Reads m m') : m.pushresp = m'.pushresp := by
  have htargets : m.targets = m'.targets := by
    unfold Mif.targets
    rw [h.tags, h.sensRes, h.selRes, h.uidLength, h.uidValue]
  unfold Mif.pushresp
  by_cases h4a : m.cmd = 0x4a
  · rw [htargets, h.retries h4a, ← h.cmd, h.cmdbad, h.tags, h.uidLength, h4a]
    rfl
  · by_cases h40 : m.cmd = 0x40
    · obtain ⟨hlast, hmem⟩ := h.exchange h40
      rw [← h.cmd, h40, ← h.cmdbad, ← hlast]
      unfold Mif.exchanged
      rw [← hlast]
      by_cases hread : m.lastincmd = 0x30
      · rw [hmem hread]
        rfl
      · rw [if_neg hread, if_neg hread]
        rfl
    · simp only [← h.cmd, ← h.cmdbad, h4a, h40, false_and, if_false]

theorem Reads.retry (h : Reads m m') : Reads m.retry m'.retry := by
  refine ⟨h.cmd, h.cmdbad, h.tags, h.sensRes, h.selRes, h.uidLength, h.uidValue, fun hc => ?_, h.exchange⟩
  unfold Mif.retry
  dsimp only
  rw [h.retries hc]

theorem Reads.respond (n : Nat) : ∀ {m m' : Mif}, Reads m m' → m.respond n = m'.respond n := by
  induction n with
  | zero => exact fun _ => rfl
  | succ n ih =>
    intro m m' h
    unfold Mif.respond
    rw [h.pushresp, ih h.retry]

/-- Only `InListPassiveTarget` is ever tried again. -/
theorem response_of_ne (h : m.cmd ≠ 0x4a) : m.response = m.pushresp := by
  have hsome : m.pushresp.isSome := by
    have hway := m.replies
    rw [Mif.pushresp_reply]
    generalize m.reply = reply at hway
    cases hway with
    | again hcmd => exact absurd hcmd h
    | _ => rfl
  obtain ⟨resp, hresp⟩ := Option.isSome_iff_exists.mp hsome
  unfold Mif.response Mif.respond
  rw [hresp]

theorem Reads.response (h : Reads m m') : m.response = m'.response := by
  by_cases hc : m.cmd = 0x4a
  · unfold Mif.response
    rw [h.retries hc]
    exact h.respond _
  · rw [response_of_ne hc, response_of_ne (h.cmd ▸ hc), h.pushresp]

/-- The commands that `cmdbad` rejects. -/
def Rejects (cmd : UInt8) : Prop := cmd = 0x4a ∨ cmd = 0x14 ∨ cmd = 0x02

instance (cmd : UInt8) : Decidable (Rejects cmd) := by unfold Rejects; infer_instance

theorem response_syntaxerr (hcmd : m.cmd ≠ 0x40) (hbad : Rejects m.cmd → m.cmdbad = true) :
    m.response = some pushsyntaxerr := by
  have hpush : m.pushresp = some pushsyntaxerr := by
    unfold Mif.pushresp
    rw [if_neg fun hc => Bool.false_ne_true (hc.2.symm.trans (hbad (Or.inl hc.1))),
      if_neg fun hc => Bool.false_ne_true (hc.2.symm.trans (hbad (Or.inr (Or.inl hc.1)))),
      if_neg fun hc => Bool.false_ne_true (hc.2.symm.trans (hbad (Or.inr (Or.inr hc.1)))), if_neg hcmd]
  unfold Mif.response Mif.respond
  rw [hpush]

theorem pushframe_ne (len : Nat) (cmd : UInt8) (packet : Bytes) :
    pushframe len cmd packet ≠ pushsyntaxerr := by
  intro heq
  have hsixth := congrArg (fun bs : Bytes => bs[5]?) heq
  simp [pushframe, pushsyntaxerr] at hsixth

theorem pushresp_ne (h : m.cmd = 0x40 ∨ Rejects m.cmd ∧ m.cmdbad = false) :
    m.pushresp ≠ some pushsyntaxerr := by
  have hway := m.replies
  rw [Mif.pushresp_reply]
  generalize m.reply = reply at hway
  cases hway with
  | again _ => exact (Option.some_ne_none _).symm
  | syntaxerr hcmd hbad =>
    rcases h with hex | ⟨hrejects, hok⟩
    · exact absurd hex hcmd
    · exact absurd (hok.symm.trans (hbad hrejects)) Bool.false_ne_true
  | _ => exact fun heq => pushframe_ne _ _ _ (Option.some.inj heq)

theorem respond_ne (n : Nat) : ∀ {m : Mif}, m.cmd = 0x40 ∨ Rejects m.cmd ∧ m.cmdbad = false →
    m.respond n ≠ some pushsyntaxerr := by
  induction n with
  | zero => exact fun _ => (Option.some_ne_none _).symm
  | succ n ih =>
    intro m h
    unfold Mif.respond
    cases hpush : m.pushresp with
    | some resp =>
      show some resp ≠ _
      rw [← hpush]
      exact pushresp_ne h
    | none => exact ih h

/-! ## §6 — the result -/

namespace Request

/-- What the response to a request is made of, with this card. -/
def loaded (r : Request) (m : Mif) : Mif :=
  { m with
    cmd := r.cmd, cmdbad := decide (r.cmd = 0x4a) && r.badTarget, lastincmd := r.incmd, bn := r.block
    retries := m.mxrtypassiveactivation }

variable {r : Request}

theorem cmd_cases (r : Request) :
    r.cmd = 0x02 ∨ r.cmd = 0x14 ∨ r.cmd = 0x32 ∨ r.cmd = 0x40 ∨ r.cmd = 0x4a := by
  have hcomplete := r.complete
  unfold Pn532.complete at hcomplete
  by_contra hne
  simp only [not_or] at hne
  rw [if_neg hne.1, if_neg hne.2.1, if_neg hne.2.2.1, if_neg hne.2.2.2.1, if_neg hne.2.2.2.2] at hcomplete
  exact Bool.false_ne_true hcomplete

theorem response_loaded_ne (h : ¬ r.Refused) (m : Mif) : (r.loaded m).response ≠ some pushsyntaxerr := by
  refine respond_ne _ ?_
  show r.cmd = 0x40 ∨ Rejects r.cmd ∧ (decide (r.cmd = 0x4a) && r.badTarget) = false
  rcases r.cmd_cases with hc | hc | hc | hc | hc
  · exact Or.inr ⟨Or.inr (Or.inr hc), by rw [hc]; rfl⟩
  · exact Or.inr ⟨Or.inr (Or.inl hc), by rw [hc]; rfl⟩
  · exact absurd (Or.inl hc) h
  · exact Or.inl hc
  · refine Or.inr ⟨Or.inl hc, ?_⟩
    have hbad : r.badTarget = false := Bool.eq_false_of_not_eq_true fun hbad => h (Or.inr ⟨hc, hbad⟩)
    rw [hbad, Bool.and_false]

end Request

namespace Pn532Base

variable {s s' t : Pn532Base} {r : Request}

theorem SameCard.response (h : SameCard m m') (r : Request) :
    (r.loaded m).response = (r.loaded m').response := by
  refine Reads.response ⟨rfl, rfl, h.tags, h.sensRes, h.selRes, h.uidLength, h.uidValue,
    fun _ => h.retries, fun _ => ⟨rfl, fun _ => ?_⟩⟩
  exact congrFun h.mem _

/-- A request with nothing in the way is answered from the card. -/
theorem Taken.response (h : Taken s r t) (hok : ¬ s.Spoiled r) (hrefused : ¬ r.Refused) :
    t.mif.response = (r.loaded s.mif).response := by
  have hw : s.writing = [] := not_not.mp fun hne => hok (Or.inl hne)
  have hcmd : t.mif.cmd = r.cmd := by rw [h.cmd, if_pos hw]
  have hbad : t.mif.cmdbad = (decide (r.cmd = 0x4a) && r.badTarget) := by
    rcases r.cmd_cases with hc | hc | hc | hc | hc
    · rw [h.version hw hc, hc]
      exact Bool.eq_false_of_not_eq_true fun hbad => hok (Or.inr ⟨hc, hbad⟩)
    · rw [h.sam hw hc, hc]
      rfl
    · exact absurd (Or.inl hc) hrefused
    · rw [(h.exchange hw hc).1, hc]
      rfl
    · rw [(h.target hw hc).1, hc]
      rfl
  refine Reads.response ⟨hcmd, hbad, h.tags, h.sensRes, h.selRes, h.uidLength, h.uidValue,
    fun hc => (h.target hw (hcmd.symm.trans hc)).2, fun hc => ?_⟩
  obtain ⟨-, hlast, hbn, hmem⟩ := h.exchange hw (hcmd.symm.trans hc)
  refine ⟨hlast, fun hread => ?_⟩
  rw [hbn, hmem (hlast.symm.trans hread)]
  rfl

/-- A request that is refused, or spoiled by what was before it, is answered with a syntax error. -/
theorem Taken.syntaxerr (h : Taken s r t) (hbad : r.Refused ∨ s.Spoiled r) :
    t.mif.response = some pushsyntaxerr := by
  by_cases hw : s.writing = []
  · have hcmd : t.mif.cmd = r.cmd := by rw [h.cmd, if_pos hw]
    rcases hbad with (hc | ⟨hc, hbad⟩) | hne | ⟨hc, hbad⟩
    · exact response_syntaxerr (by rw [hcmd, hc]; decide)
        fun hr => absurd hr (by rw [hcmd, hc]; decide)
    · exact response_syntaxerr (by rw [hcmd, hc]; decide) fun _ => (h.target hw hc).1.trans hbad
    · exact absurd hw hne
    · exact response_syntaxerr (by rw [hcmd, hc]; decide) fun _ => (h.version hw hc).trans hbad
  · have hcmd : t.mif.cmd = 0 := by rw [h.cmd, if_neg hw]
    exact response_syntaxerr (by rw [hcmd]; decide) fun hr => absurd hr (by rw [hcmd]; decide)

theorem run_append (s : Pn532Base) (a b : List Event) : s.run (a ++ b) = (s.run a).run b :=
  List.foldl_append

/-- The host reads the acknowledge. -/
theorem run_acknowledge (hop : t.opstate = .ack) (hack : t.ack = true) (hw : t.writing = []) :
    t.run (.expire :: List.replicate 6 .read) =
      { t with toFifo := [], ack := true, opstate := if t.mif.predelay ≠ 0 then .predelay else .busy } := by
  have hfirst : t.step .expire = { t with ack := false, toFifo := pushack, opstate := .ackRdout } := by
    unfold step
    dsimp only
    rw [if_pos hack, if_pos hw]
    unfold respth
    dsimp only
    rw [hop]
  have hread : ∀ b c bs, { t with ack := false, toFifo := b :: c :: bs, opstate := .ackRdout }.step .read =
      { t with ack := false, toFifo := c :: bs, opstate := .ackRdout } := by
    intro b c bs
    unfold step drained
    dsimp only
    rw [if_neg (List.cons_ne_nil _ _), hw, if_neg (not_not.mpr rfl),
      if_neg fun hnil => List.cons_ne_nil c bs hnil.1]
    rfl
  have hlast : ∀ b, { t with ack := false, toFifo := [b], opstate := .ackRdout }.step .read =
      { t with
        toFifo := [], ack := true, opstate := if t.mif.predelay ≠ 0 then .predelay else .busy } := by
    intro b
    unfold step drained respth
    dsimp only
    rw [if_neg (List.cons_ne_nil _ _), hw, if_neg (not_not.mpr rfl), if_pos ⟨rfl, Or.inl rfl⟩]
    split <;> rfl
  show (((((((t.step .expire).step .read).step .read).step .read).step .read).step .read).step .read) = _
  rw [hfirst, pushack, hread, hread, hread, hread, hread, hlast]

/-- One expiry while a card is waited for. -/
theorem step_busy (hop : t.opstate = .busy) (hack : t.ack = true) (hw : t.writing = []) :
    t.step .expire = match t.mif.pushresp with
      | none => { t with toFifo := [], mif := t.mif.retry }
      | some resp => { t with ack := false, toFifo := [], writing := resp }.pour := by
  unfold step
  dsimp only
  rw [if_pos hack, if_pos hw]
  unfold respth
  dsimp only
  rw [hop]
  dsimp only
  cases t.mif.pushresp with
  | none => rw [hack]
  | some resp => rfl

theorem content_pour (s : Pn532Base) (h : s.toFifo = []) : s.pour.toFifo ++ s.pour.writing = s.writing := by
  unfold pour
  dsimp only
  split <;> simp [h]

/-- **`resp_th` writes the response**: with the time passing it is in the queue, or waits for room. -/
theorem response_written (n : Nat) : ∀ {t : Pn532Base} {resp : Bytes}, t.opstate = .busy → t.ack = true →
    t.writing = [] → t.mif.respond n = some resp →
      ∃ k, (t.run (List.replicate k .expire)).toFifo ++ (t.run (List.replicate k .expire)).writing = resp := by
  induction n with
  | zero => exact fun _ _ _ h => absurd h.symm (Option.some_ne_none _)
  | succ n ih =>
    intro t resp hop hack hw h
    have hstep := step_busy hop hack hw
    unfold Mif.respond at h
    cases hpush : t.mif.pushresp with
    | none =>
      rw [hpush] at hstep h
      dsimp only at hstep h
      obtain ⟨k, hk⟩ := ih (t := t.step .expire) (by rw [hstep]; exact hop) (by rw [hstep]; exact hack)
        (by rw [hstep]; exact hw) (by rw [hstep]; exact h)
      exact ⟨k + 1, hk⟩
    | some resp' =>
      rw [hpush] at hstep h
      refine ⟨1, ?_⟩
      show (t.step .expire).toFifo ++ (t.step .expire).writing = resp
      rw [hstep, ← Option.some.inj h]
      exact content_pour _ rfl

/-- The response in an answer is what the host finds after the acknowledge, when the time has passed. -/
theorem Taken.written (h : Taken s r t) {resp : Bytes} (hresp : t.mif.response = some resp) :
    ∃ es : List Event, (t.run es).toFifo ++ (t.run es).writing = resp := by
  obtain ⟨hop, hack, hw⟩ := h.answering
  have hacked := run_acknowledge hop hack hw
  obtain ⟨es, hbusy⟩ : ∃ es : List Event,
      t.run es = { t with toFifo := [], ack := true, opstate := .busy } := by
    by_cases hpre : t.mif.predelay ≠ 0
    · refine ⟨(Event.expire :: List.replicate 6 .read) ++ [Event.expire], ?_⟩
      rw [run_append, hacked, if_pos hpre]
      unfold run step
      dsimp only [List.foldl]
      rw [if_pos rfl, if_pos hw]
      rfl
    · exact ⟨.expire :: List.replicate 6 .read, by rw [hacked, if_neg hpre]⟩
  obtain ⟨k, hk⟩ := response_written (t.mif.retries + 1)
    (t := { t with toFifo := [], ack := true, opstate := .busy }) rfl rfl hw hresp
  exact ⟨es ++ List.replicate k .expire, by rw [run_append, hbusy]; exact hk⟩

theorem Taken.verdict (h : Taken s r t) :
    (!(t.warnings.drop s.warnings.length).any Warning.isDcs) = decide (s.toFifo.sum = 0) := by
  obtain ⟨d, hd⟩ := h.warnings
  rw [hd, List.drop_left]
  unfold dcsWarnings
  by_cases hsum : s.toFifo.sum = 0 <;> simp [hsum, Warning.isDcs]

open Classical in
/-- **The answer to a request.** -/
theorem answer_eq (h : Queued s) (ha : Answered s) (r : Request) :
    s.answer r = (if r.Refused ∨ s.Spoiled r then some pushsyntaxerr else (r.loaded s.mif).response,
      decide (s.toFifo.sum = 0)) := by
  have ht := taken_accept h ha r
  unfold answer
  refine Prod.ext ?_ ht.verdict
  dsimp only
  split
  · rename_i hbad
    exact ht.syntaxerr hbad
  · rename_i hok
    exact ht.response (fun hs => hok (Or.inr hs)) fun hr => hok (Or.inl hr)

/-- **Two histories answer a request alike exactly when they leave the same of the two things that the
parser keeps**: whatever was sent, read and presented before, as long as the card is the same now and the
last response has been written or waits for the host. -/
theorem answers_alike (m m' : Mif) (es es' : List Event) (r : Request)
    (ha : Answered ((start m).run es)) (ha' : Answered ((start m').run es'))
    (hcard : SameCard ((start m).run es).mif ((start m').run es').mif) :
    ((start m).run es).answer r = ((start m').run es').answer r ↔
      Alike ((start m).run es) ((start m').run es') r := by
  rw [answer_eq (queued_run m es) ha r, answer_eq (queued_run m' es') ha' r, Prod.mk.injEq,
    decide_eq_decide, and_comm]
  refine and_congr_right fun _ => ?_
  rw [hcard.response r]
  by_cases hr : r.Refused
  · simp [hr]
  · have hne := Request.response_loaded_ne hr ((start m').run es').mif
    by_cases hs : ((start m).run es).Spoiled r <;> by_cases hs' : ((start m').run es').Spoiled r <;>
      simp [hr, hs, hs', hne, hne.symm]

def getFirmwareVersion : Request := ⟨0, 0x02, [], by decide, by decide⟩

def samConfiguration : Request := ⟨0, 0x14, [0x01, 0x14, 0x01], by decide, by decide⟩

/-- An `InListPassiveTarget` for three targets, its acknowledge and its syntax error read. -/
def rejected : List Event :=
  [0x00, 0x00, 0xFF, 0x04, 0xFC, 0xD4, 0x4A, 0x03, 0x00, 0xDF, 0x00].map Event.byte ++
    Event.expire :: List.replicate 6 Event.read ++ ([.expire, .expire] : List Event) ++
    List.replicate 8 Event.read

/-- A card is presented and listed, and the response is not read. -/
def unread : List Event :=
  Event.present 0x11223344 ::
    [0x00, 0x00, 0xFF, 0x04, 0xFC, 0xD4, 0x4A, 0x01, 0x00, 0xE1, 0x00].map Event.byte ++
      Event.expire :: List.replicate 6 Event.read ++ ([.expire, .expire] : List Event)

theorem answers_alike_unread :
    Answered ((start .zero).run unread) ∧ Answered ((start .zero).run [.present 0x11223344]) ∧
      SameCard ((start .zero).run unread).mif ((start .zero).run [.present 0x11223344]).mif ∧
        (((start .zero).run unread).answer getFirmwareVersion =
            ((start .zero).run [.present 0x11223344]).answer getFirmwareVersion ↔
          Alike ((start .zero).run unread) ((start .zero).run [.present 0x11223344])
            getFirmwareVersion) := by
  have ha : Answered ((start .zero).run unread) := ⟨⟨rfl, rfl⟩, rfl, by decide⟩
  have ha' : Answered ((start .zero).run [.present 0x11223344]) := ⟨⟨rfl, rfl⟩, rfl, by decide⟩
  have hcard : SameCard ((start .zero).run unread).mif ((start .zero).run [.present 0x11223344]).mif :=
    ⟨rfl, rfl, rfl, rfl, rfl, rfl, rfl⟩
  exact ⟨ha, ha', hcard,
    answers_alike .zero .zero unread [.present 0x11223344] getFirmwareVersion ha ha' hcard⟩

/-- After a rejected command a `GetFirmwareVersion` is rejected as well; with a response left unread a
`SAMConfiguration` is answered with a syntax error, and its checksum is found wrong. -/
theorem answers_differ :
    (Answered ((start .zero).run rejected) ∧ Answered (start .zero) ∧
      SameCard ((start .zero).run rejected).mif (start .zero).mif ∧
        ((start .zero).run rejected).answer getFirmwareVersion ≠
          (start .zero).answer getFirmwareVersion) ∧
      Answered ((start .zero).run unread) ∧ Answered ((start .zero).run [.present 0x11223344]) ∧
        SameCard ((start .zero).run unread).mif ((start .zero).run [.present 0x11223344]).mif ∧
          ((start .zero).run unread).answer samConfiguration =
              (some pushsyntaxerr, false) ∧
            ((start .zero).run [.present 0x11223344]).answer samConfiguration =
              (some (pushframe 0x2 0x15 []), true) :=
  ⟨⟨⟨⟨rfl, rfl⟩, rfl, by decide⟩, ⟨⟨rfl, rfl⟩, rfl, by decide⟩, ⟨rfl, rfl, rfl, rfl, rfl, rfl, rfl⟩,
      by decide⟩,
    ⟨⟨rfl, rfl⟩, rfl, by decide⟩, ⟨⟨rfl, rfl⟩, rfl, by decide⟩, ⟨rfl, rfl, rfl, rfl, rfl, rfl, rfl⟩,
    by decide, by decide⟩

end Pn532Base

end Espmod.Pn532
