/-
# Espmod.Web.Downlink — from the senders of the test bench to the sockets of the firmware

`fillbuffers` of the socket layer reads two `0xff` as one data character and a single one as the
beginning of a control sequence. It is up to `webclient::send` to double them, and that does so only
for callers that ask for it: a page answered arrives whatever its bytes are, an MQTT packet, an NTP
answer or a request only as long as none of its bytes is `0xff`.
-/
import Espmod.Lib.Ledger
import Espmod.Lib.Run
import Espmod.Web.Senders

namespace Espmod.Socket

open Espmod.Lib Espmod.Lib.Text

/-! ## §1 — how much a character can add -/

/-- What an entry weighs: a data descriptor its buffer, a listening one and the control descriptor
nothing. -/
def Fd.weight (f : Fd) : Nat := if 0 ≤ f.port ∧ f.islistening = false then f.buffer.length else 0

/-- What data does not change about an entry. -/
def Fd.view (f : Fd) : Int × Bool := (f.port, f.islistening)

namespace Sockets

variable {s r : Sockets} {room : Nat}

/-- How many characters more the receiver has consumed than it can still put into a data buffer, once
it has lost one. -/
def lag : Pc → Nat
  | .digits => 2
  | _ => 1

theorem lag_le (pc : Pc) : 1 ≤ lag pc ∧ lag pc ≤ 2 := by
  cases pc <;> simp [lag]

/-- The first entry is the one of port -1. -/
def Controlled (s : Sockets) : Prop := ((s.fdlist.map Fd.view)[0]?).map Prod.fst = some (-1)

/-- **What a character costs**: an entry gains no more than the receiver falls behind. -/
def Affordable (s s' : Sockets) : Prop := Costs Sockets.fdlist Fd.weight (fun s => lag s.pc) Fd.view s s'

theorem push_weight (bs : Bytes) (f : Fd) : (f.push bs).weight ≤ f.weight + bs.length := by
  unfold Fd.weight
  show (if 0 ≤ f.port ∧ f.islistening = false then (f.buffer ++ bs).length else 0) ≤ _
  split
  · rw [List.length_append]
  · exact Nat.zero_le _

/-- The control entry weighs nothing, whatever is put into it. -/
theorem push_weight_control (h : Controlled s) (bs : Bytes) {f : Fd} (hf : s.fdlist[0]? = some f) :
    (f.push bs).weight = f.weight := by
  have hport : f.port = -1 := by
    unfold Controlled at h
    rw [List.getElem?_map, hf] at h
    exact Option.some.inj h
  have hneg : ¬ (0 ≤ f.port ∧ f.islistening = false) := by
    rintro ⟨hpos, _⟩
    omega
  have hneg' : ¬ (0 ≤ (f.push bs).port ∧ (f.push bs).islistening = false) := hneg
  unfold Fd.weight
  rw [if_neg hneg, if_neg hneg']

/-- Nothing is put anywhere. -/
theorem affordable_quiet {s' : Sockets} (hf : s'.fdlist = s.fdlist) : Affordable s s' := by
  have h₁ := lag_le s.pc
  have h₂ := lag_le s'.pc
  exact Costs.quiet hf (by omega)

/-- Characters are put into the buffer at `ind`. -/
theorem affordable_pushAt {s₁ : Sockets} {bs : Bytes} (hf : s₁.fdlist = s.fdlist)
    (hlag : bs.length + lag s₁.pc ≤ lag s.pc + 1) (ind : Nat) : Affordable s (s₁.pushAt ind bs) := by
  unfold pushAt
  split
  · exact Costs.change (g := (·.push bs)) (by rw [← hf]; rfl) (fun _ => rfl)
      (fun f _ => push_weight bs f) hlag
  · exact affordable_quiet hf

/-- Characters are put into the control buffer. -/
theorem affordable_control (h : Controlled s) {s₁ : Sockets} (hf : s₁.fdlist = s.fdlist) (bs : Bytes) :
    Affordable s (s₁.pushAt 0 bs) := by
  unfold pushAt
  split
  · have h₁ := lag_le s.pc
    have h₂ := lag_le s₁.pc
    have hlag : 0 + lag s₁.pc ≤ lag s.pc + 1 := by omega
    exact Costs.change (g := (·.push bs)) (by rw [← hf]; rfl) (fun _ => rfl)
      (fun f hf' => Nat.le_of_eq (push_weight_control h bs hf')) hlag
  · exact affordable_quiet hf

theorem affordable_data (b : UInt8) (hlag : lag s.pc = 1) : Affordable s (s.data b) := by
  rw [data_eq]
  split
  · exact affordable_quiet rfl
  next ind _ =>
    have hcost : [b].length + lag ({ s with
        pc := .top, ind := some ind, portclosed := false }.notify : Sockets).pc ≤ lag s.pc + 1 := by
      rw [hlag]
      exact Nat.le_refl 2
    exact affordable_pushAt (by rfl) hcost ind

theorem affordable_terminator (c : UInt8) (hlag : lag s.pc = 2) : Affordable s (s.terminator c) := by
  unfold terminator
  split
  · exact affordable_quiet rfl
  next ind _ =>
    split_ifs
    · exact affordable_quiet rfl
    · have hcost : [0xff, c].length + lag ({ s with pc := .yn, ind := some ind } : Sockets).pc ≤
          lag s.pc + 1 := by
        rw [hlag]
        exact Nat.le_refl 3
      exact affordable_pushAt (by rfl) hcost ind
    · exact affordable_quiet rfl

theorem affordable_escape (h : Controlled s) (c : UInt8) : Affordable s (s.escape c) := by
  unfold escape
  split_ifs
  · exact affordable_quiet rfl
  · exact affordable_quiet rfl
  · exact affordable_quiet rfl
  · exact affordable_control h (by rfl) _

/-- A request goes to a listening descriptor, if anywhere. -/
theorem affordable_takerequest (connect : Bool) (msg : Bytes) :
    Affordable s (s.takerequest room connect msg) := by
  have hans := s.takerequest_answered room connect msg
  generalize s.takerequest room connect msg = s' at hans
  cases hans with
  | null _ => exact affordable_quiet rfl
  | unread _ => exact affordable_quiet rfl
  | nobody _ _ => exact affordable_quiet rfl
  | datagram _ _ _ _ _ _ => exact affordable_quiet rfl
  | rejected _ => exact affordable_quiet rfl
  | @queued _ it f _ _ hf hlis _ _ _ =>
    refine ⟨it, (·.queue msg), rfl, fun _ => rfl, ?_⟩
    intro f' hf'
    obtain rfl : f = f' := Option.some.inj (hf.symm.trans hf')
    have hlis' : (f.queue msg).islistening = true := hlis
    have hnone : (f.queue msg).weight = 0 := by
      unfold Fd.weight
      rw [hlis']
      simp
    have h₁ := lag_le s.pc
    show (f.queue msg).weight + 1 ≤ f.weight + lag s.pc + 1
    omega

/-- **One character**, whatever the receiver is at. -/
theorem affordable_rx (h : Controlled s) (room : Nat) (c : UInt8) : Affordable s (s.rx room c) := by
  unfold rx
  cases hpc : s.pc with
  | top =>
    dsimp only
    split
    · exact affordable_quiet rfl
    · exact affordable_data c (by rw [hpc]; rfl)
  | esc =>
    dsimp only
    split
    · exact affordable_data c (by rw [hpc]; rfl)
    · exact affordable_escape h c
  | digits =>
    dsimp only
    split
    · exact affordable_quiet rfl
    · exact affordable_terminator c (by rw [hpc]; rfl)
  | flush =>
    dsimp only
    split
    · exact affordable_quiet rfl
    · exact affordable_quiet rfl
  | yn =>
    have hend : [c].length + lag ({ s with pc := .top }.notify : Sockets).pc ≤ lag s.pc + 1 := by
      rw [hpc]
      exact Nat.le_refl 2
    have hnext : [c].length + lag s.pc ≤ lag s.pc + 1 := Nat.le_of_eq (Nat.add_comm 1 _)
    dsimp only
    split
    · exact affordable_quiet rfl
    · split
      · exact affordable_pushAt (by rfl) hend _
      · exact affordable_pushAt rfl hnext _
  | control =>
    dsimp only
    split
    · exact affordable_control h (by rfl) _
    · exact affordable_control h rfl _
  | request connect firstcolon msg =>
    dsimp only
    split_ifs
    · exact affordable_quiet rfl
    · exact affordable_takerequest connect _
    · exact affordable_quiet rfl
  | crashed => exact affordable_quiet rfl

/-- **A stretch behind a lost `0xff`** leaves the descriptors at least one character short. -/
theorem feed_short (h : Controlled s) (room : Nat) (cs : Bytes) :
    total Fd.weight (s.feed room cs).fdlist + 1 ≤
      total Fd.weight s.fdlist + lag s.pc + cs.length := by
  have hstep : ∀ (s : Sockets) (c : UInt8), Controlled s →
      Costs Sockets.fdlist Fd.weight (fun s => lag s.pc) Fd.view s (s.rx room c) ∧
        lag (s.rx room c).pc ≤ lag s.pc + 1 := by
    intro s c hs
    have h₁ := lag_le s.pc
    have h₂ := lag_le (s.rx room c).pc
    exact ⟨affordable_rx hs room c, by omega⟩
  have hrun := foldl_costs (fun views => (views[0]?).map Prod.fst = some (-1)) hstep cs s h
  have hlag := lag_le (s.feed room cs).pc
  have hrun' : total Fd.weight (s.feed room cs).fdlist + lag (s.feed room cs).pc ≤
      total Fd.weight s.fdlist + lag s.pc + cs.length := hrun
  omega

end Sockets

end Espmod.Socket

namespace Espmod.Web

open Espmod.Lib Espmod.Lib.Text Espmod.Socket

/-! ## §2 — the line -/

/-- A piece handed to `send` for a port; `room` is the free space of the firmware's transmit FIFO
meanwhile. -/
structure Sent where
  port : UInt16
  room : Nat
  piece : Piece

/-- A call of a payload sender. -/
structure Call where
  port : UInt16
  room : Nat
  payload : Payload

/-- The pieces a call hands to `send`, one after the other. -/
def Call.sent (encode : Bytes → Nat → Option Bytes) (c : Call) : List Sent :=
  (c.payload.pieces encode).map fun p => ⟨c.port, c.room, p⟩

/-- The static `lastport` of `webclient::send` and the firmware's sockets, with an empty channel between
them. -/
structure Downlink where
  lastport : Int
  net : Sockets

namespace Downlink

/-- A piece is sent, and the receiver reads what has been written. -/
def step (w : Downlink) (e : Sent) : Downlink where
  lastport := nextLastport e.port.toNat
  net := w.net.feed e.room (send w.lastport e.port.toNat e.piece.msg e.piece.escape)

/-- The descriptor of a port, the first that does not listen. -/
def dest (w : Downlink) (e : Sent) : Option Nat := getnotlisten w.net.fdlist e.port.toNat

/-- A connected descriptor of the port is open, and does not listen. -/
def Open (w : Downlink) (port : UInt16) : Prop :=
  ∃ ind ∈ getnotlisten w.net.fdlist port.toNat, ∃ f ∈ w.net.fdlist[ind]?, f.connected = true

instance (w : Downlink) (port : UInt16) : Decidable (Open w port) :=
  inferInstanceAs (Decidable (∃ ind ∈ getnotlisten w.net.fdlist port.toNat, _))

/-- **Everything sent has arrived**: the buffer of every descriptor has got exactly what was sent to its
port, in order, and nothing else has changed in the table. -/
def Delivered (start : Downlink) (es : List Sent) (w : Downlink) : Prop :=
  w.net.fdlist =
    ledger start.dest (fun e => e.piece.msg) (fun bs f => f.push bs) start.net.fdlist es

instance (start : Downlink) (es : List Sent) (w : Downlink) : Decidable (Delivered start es w) :=
  inferInstanceAs (Decidable (_ = _))

/-- The two ends agree: the receiver is between two messages, and the descriptor it has selected is that
of the port the sender will not announce again. -/
structure Aligned (w : Downlink) : Prop where
  pc : w.net.pc = .top
  control : w.net.Controlled
  selected : 0 ≤ w.lastport → w.net.selected = getnotlisten w.net.fdlist w.lastport

variable {start w : Downlink} {e : Sent} {ind : Nat}

/-- What `snprintf` prints of a port fits into its buffer. -/
theorem portmsg_eq (port : UInt16) : portmsg port.toNat = portPrefix port.toNat := by
  have hlt : port.toNat < 10 ^ (4 + 1) := by
    have := port.toNat_lt
    omega
  have hdigits := length_showNat_le 4 hlt
  have hshort : (portPrefix port.toNat).length ≤ 9 := by
    rw [Sockets.portPrefix_eq (Int.natCast_nonneg _), List.length_cons, List.length_append,
      List.length_singleton, Int.toNat_natCast]
    omega
  unfold portmsg
  exact List.take_of_length_le hshort

theorem getnotlisten_push (fdlist : List Fd) (ind : Nat) (bs : Bytes) (port : Int) :
    getnotlisten (update fdlist ind (·.push bs)) port = getnotlisten fdlist port := by
  unfold getnotlisten
  split
  · rfl
  · apply findIdx?_modify
    intro f
    rfl

/-- What the receiver has read when it comes to the bytes of a piece: it has selected the descriptor of
the piece's port. -/
structure Poised (w : Downlink) (ind : Nat) (s : Sockets) : Prop where
  fdlist : s.fdlist = w.net.fdlist
  pc : s.pc = .top
  selected : s.selected = some ind

theorem Poised.controlled {s : Sockets} (hp : Poised w ind s) (h : w.net.Controlled) :
    s.Controlled := by
  unfold Sockets.Controlled
  rw [hp.fdlist]
  exact h

/-- **The prefix, or none**, selects the descriptor. -/
theorem poised (h : Aligned w) (port : UInt16) (room : Nat)
    (hind : getnotlisten w.net.fdlist port.toNat = some ind) :
    Poised w ind (w.net.feed room (sendport w.lastport port.toNat)) := by
  have h₀ : (0 : Int) ≤ port.toNat := Int.natCast_nonneg _
  have h₁ : (port.toNat : Int) < 2 ^ 31 := by
    have := port.toNat_lt
    omega
  unfold sendport
  split
  next hnew =>
    rw [portmsg_eq, Sockets.feed_prefix h.pc h₀ h₁ hind]
    refine ⟨rfl, rfl, ?_⟩
    unfold Sockets.selected
    dsimp only
    split
    · exact hind
    · rfl
  next hsame =>
    have hlast : w.lastport = port.toNat := by
      by_contra hne
      exact hsame ⟨h₀, hne⟩
    refine ⟨rfl, h.pc, ?_⟩
    show w.net.selected = some ind
    rw [h.selected (hlast ▸ h₀), hlast]
    exact hind

/-! ## §3 — one piece -/

/-- The piece is sent so that its bytes are data. -/
def Transparent (e : Sent) : Prop := e.piece.escape = true ∨ 0xff ∉ e.piece.msg

theorem sendbytes_transparent (h : Transparent e) :
    sendbytes e.piece.msg e.piece.escape = escaped e.piece.msg := by
  rcases h with hesc | hff
  · rw [hesc, sendbytes_escaped]
  · exact sendbytes_plain hff _

/-- Data that travels escaped, from a receiver that has selected an index. -/
theorem feed_data {s : Sockets} (hpc : s.pc = .top) (hsel : s.selected = some ind)
    (hlt : ind < s.fdlist.length) (room : Nat) (payload : Bytes) :
    (s.feed room (escaped payload)).fdlist = update s.fdlist ind (·.push payload) ∧
      (s.feed room (escaped payload)).pc = .top ∧
        (s.feed room (escaped payload)).selected = some ind := by
  by_cases hne : payload = []
  · subst hne
    have hid : (fun f : Fd => f.push []) = id := by
      funext f
      simp [Fd.push]
    refine ⟨?_, hpc, hsel⟩
    rw [hid, update, List.modify_id]
    rfl
  · have hbound : ∀ i ∈ s.selected, i < s.fdlist.length := by
      intro i hi
      rw [hsel] at hi
      cases hi
      exact hlt
    have htook : Sockets.Took s (s.feed room (escaped payload)) s.selected payload :=
      Sockets.feed_payload hpc hne hbound
    rw [hsel] at htook
    refine ⟨htook.fdlist, htook.pc, ?_⟩
    unfold Sockets.selected
    rw [htook.portclosed]
    exact htook.ind

theorem controlled_push {s s' : Sockets} (h : s.Controlled) {bs : Bytes}
    (hf : s'.fdlist = update s.fdlist ind (·.push bs)) : s'.Controlled := by
  unfold Sockets.Controlled
  rw [hf, update_map (g := (·.push bs)) Fd.view fun _ => rfl]
  exact h

/-- A piece, seen from the receiver: the prefix, then the bytes as they are written. -/
theorem step_net (w : Downlink) (e : Sent) :
    (w.step e).net = (w.net.feed e.room (sendport w.lastport e.port.toNat)).feed e.room
      (sendbytes e.piece.msg e.piece.escape) :=
  Sockets.feed_append _ _

/-- **Such a piece** arrives, and leaves the two ends in agreement. -/
theorem step_transparent (h : Aligned w) (ht : Transparent e) (hdest : w.dest e = some ind) :
    (w.step e).net.fdlist = update w.net.fdlist ind (·.push e.piece.msg) ∧ Aligned (w.step e) := by
  have hpoised := poised h e.port e.room hdest
  have hlt : ind < (w.net.feed e.room (sendport w.lastport e.port.toNat)).fdlist.length := by
    rw [hpoised.fdlist]
    exact getnotlisten_lt hdest
  have hdata := feed_data hpoised.pc hpoised.selected hlt e.room e.piece.msg
  rw [← sendbytes_transparent ht, ← step_net, hpoised.fdlist] at hdata
  obtain ⟨hlist, hpc, hsel⟩ := hdata
  refine ⟨hlist, hpc, controlled_push h.control hlist, ?_⟩
  intro _
  rw [hsel, hlist, getnotlisten_push]
  have hlast : (w.step e).lastport = e.port.toNat := by
    show nextLastport e.port.toNat = _
    unfold nextLastport
    rw [if_pos (Int.natCast_nonneg _)]
  rw [hlast]
  exact hdest.symm

/-- **Any other piece** leaves the descriptors short of a character. -/
theorem step_short (h : Aligned w) (ht : ¬ Transparent e) (hdest : w.dest e = some ind) :
    total Fd.weight (w.step e).net.fdlist < total Fd.weight w.net.fdlist + e.piece.msg.length := by
  have hesc : e.piece.escape = false := Bool.eq_false_iff.mpr fun hesc => ht (Or.inl hesc)
  have hff : 0xff ∈ e.piece.msg := by
    by_contra hff
    exact ht (Or.inr hff)
  have hpoised := poised h e.port e.room hdest
  have hlt : ind < (w.net.feed e.room (sendport w.lastport e.port.toNat)).fdlist.length := by
    rw [hpoised.fdlist]
    exact getnotlisten_lt hdest
  rw [step_net, hesc, sendbytes_raw]
  generalize w.net.feed e.room (sendport w.lastport e.port.toNat) = s at hpoised hlt ⊢
  -- up to its first `0xff` the piece arrives
  obtain ⟨us, vs, hsplit, hus⟩ := List.eq_append_cons_of_mem hff
  obtain ⟨hlist, hpc, _⟩ := feed_data hpoised.pc hpoised.selected hlt e.room us
  rw [escaped_of_notMem hus] at hlist hpc
  generalize hread : s.feed e.room us = r at hlist hpc
  have hweight : total Fd.weight r.fdlist ≤ total Fd.weight w.net.fdlist + us.length := by
    rw [hlist, hpoised.fdlist]
    exact total_modify_le fun f _ => Sockets.push_weight us f
  have hcontrol : r.Controlled := controlled_push (hpoised.controlled h.control) hlist
  -- and from there on the receiver is behind
  have hrx : r.rx e.room 0xff = { r with pc := .esc } := by
    unfold Sockets.rx
    rw [hpc]
    rfl
  have hbehind : total Fd.weight (({ r with pc := .esc } : Sockets).feed e.room vs).fdlist + 1 ≤
      total Fd.weight r.fdlist + 1 + vs.length :=
    Sockets.feed_short (s := { r with pc := .esc }) hcontrol e.room vs
  have hlength : e.piece.msg.length = us.length + 1 + vs.length := by
    rw [hsplit, List.length_append, List.length_cons]
    omega
  rw [hsplit, Sockets.feed_append, hread, Sockets.feed_cons, hrx, ← hsplit, hlength]
  omega

/-! ## §4 — runs -/

/-- The ends agree, and everything sent has arrived. -/
structure Kept (start : Downlink) (es : List Sent) (w : Downlink) : Prop where
  aligned : Aligned w
  delivered : Delivered start es w

/-- A piece has the destination it would have had at the start. -/
theorem Kept.dest {es : List Sent} (h : Kept start es w) (e : Sent) : w.dest e = start.dest e := by
  unfold Downlink.dest getnotlisten
  rw [h.delivered]
  split
  · rfl
  · apply findIdx?_of_map_eq
    apply map_ledger
    intro bs f
    rfl

theorem ledger_step {es : List Sent} (hdest : start.dest e = some ind) :
    ledger start.dest (fun e => e.piece.msg) (fun bs f => f.push bs) start.net.fdlist (es ++ [e]) =
      (ledger start.dest (fun e => e.piece.msg) (fun bs f => f.push bs) start.net.fdlist es).modify ind
        (·.push e.piece.msg) := by
  apply ledger_snoc _ _ hdest
  · intro f
    simp [Fd.push]
  · intro f bs cs
    simp [Fd.push]

theorem Kept.step {es : List Sent} (h : Kept start es w) (hdest : start.dest e = some ind)
    (ht : Transparent e) : Kept start (es ++ [e]) (w.step e) := by
  obtain ⟨hlist, haligned⟩ := step_transparent h.aligned ht ((h.dest e).trans hdest)
  refine ⟨haligned, ?_⟩
  unfold Delivered
  rw [hlist, ledger_step hdest, h.delivered]
  rfl

theorem Kept.broken {es : List Sent} (h : Kept start es w) (hdest : start.dest e = some ind)
    (ht : ¬ Transparent e) : ¬ Delivered start (es ++ [e]) (w.step e) := by
  intro hdelivered
  have hdest' : w.dest e = some ind := (h.dest e).trans hdest
  have hshort := step_short h.aligned ht hdest'
  unfold Delivered at hdelivered
  rw [hdelivered, ledger_step hdest, ← h.delivered] at hshort
  -- the ledger is not short
  obtain ⟨f, hf, hlis, hport, hpos⟩ := getnotlisten_some hdest'
  have hbooks : total Fd.weight (w.net.fdlist.modify ind (·.push e.piece.msg)) + f.weight =
      total Fd.weight w.net.fdlist + (f.push e.piece.msg).weight := total_modify hf
  have hfull : (f.push e.piece.msg).weight = f.weight + e.piece.msg.length := by
    have hdata : 0 ≤ f.port ∧ f.islistening = false := ⟨hport ▸ hpos, hlis⟩
    have hdata' : 0 ≤ (f.push e.piece.msg).port ∧ (f.push e.piece.msg).islistening = false := hdata
    unfold Fd.weight
    rw [if_pos hdata, if_pos hdata']
    exact List.length_append
  omega

/-- **Payload arrives exactly when no unescaped byte is `0xff`.** Any calls of the payload senders, in
any order over ports with an open connected descriptor: after every piece each descriptor has got
exactly what was sent to its port and nothing else was touched, if and only if no piece is handed over
unescaped that contains a `0xff`. -/
theorem payloads_delivered (encode : Bytes → Nat → Option Bytes) (h : Aligned start)
    (calls : List Call) (hopen : ∀ c ∈ calls, Open start c.port) :
    Always (Delivered start) step [] start (calls.flatMap (Call.sent encode)) ↔
      ∀ c ∈ calls, ∀ p ∈ c.payload.pieces encode, p.escape = true ∨ 0xff ∉ p.msg := by
  have hstart : Kept start [] start := by
    refine ⟨h, ?_⟩
    unfold Delivered
    rw [ledger_nil]
    intro f
    simp [Fd.push]
  have hdest : Throughout (fun _ e => ∃ ind, start.dest e = some ind) step start
      (calls.flatMap (Call.sent encode)) := by
    rw [throughout_forall]
    intro e he
    obtain ⟨c, hc, hsent⟩ := List.mem_flatMap.mp he
    obtain ⟨p, _, rfl⟩ := List.mem_map.mp hsent
    obtain ⟨ind, hind, _⟩ := hopen c hc
    exact ⟨ind, hind⟩
  have hrun : Always (Delivered start) step [] start (calls.flatMap (Call.sent encode)) ↔
      Throughout (fun _ e => Transparent e) step start (calls.flatMap (Call.sent encode)) := by
    refine always_iff_throughout (I := Kept start) ?_ ?_ ?_ _ [] start hstart hdest
    · intro _ _ hk
      exact hk.delivered
    · rintro _ _ e hk ⟨ind, hind⟩ ht
      exact hk.step hind ht
    · rintro _ _ e hk ⟨ind, hind⟩ ht
      exact hk.broken hind ht
  rw [hrun, throughout_forall]
  constructor
  · intro hall c hc p hp
    exact hall _ (List.mem_flatMap.mpr ⟨c, hc, List.mem_map.mpr ⟨p, hp, rfl⟩⟩)
  · intro hall e he
    obtain ⟨c, hc, hsent⟩ := List.mem_flatMap.mp he
    obtain ⟨p, hp, rfl⟩ := List.mem_map.mp hsent
    exact hall c hc p hp

/-- Two connected sockets, with the ports 80 and 1883. -/
def twoSockets : Downlink where
  lastport := -1
  net := { Sockets.boot with
    fdlist := [Fd.new 1 (-1), { Fd.new 2 (-1) with port := 80, connected := true },
      { Fd.new 3 (-1) with port := 1883, connected := true }] }

theorem twoSockets_aligned : Aligned twoSockets where
  pc := rfl
  control := rfl
  selected h := absurd h (by decide)

/-- A request, a packet whose payload looks like a prefix, and an answer with a `0xff` in its path. -/
theorem payloads_delivered_lookalikes :
    Always (Delivered twoSockets) step [] twoSockets
      (List.flatMap (Call.sent fun _ _ => none) [⟨80, 100, .requestpage (str "/index") none⟩,
        ⟨1883, 100, .publishmqtt (str "a") 7 (str "80:y!")⟩,
        ⟨80, 100, .answerpage [chr '/', 0xff] [(str "n", str "v")] none⟩]) :=
  (payloads_delivered _ twoSockets_aligned _ (by decide +kernel)).mpr (by decide +kernel)

/-- The acknowledgement of the packet 255 does not arrive. -/
theorem payloads_delivered_puback :
    ¬ Always (Delivered twoSockets) step [] twoSockets
      (List.flatMap (Call.sent fun _ _ => none)
        [⟨1883, 100, .sendmqtt .PUBACK 255 0 fun _ => 0⟩]) := by
  intro h
  have hlast := h.last
  revert hlast
  decide +kernel

end Downlink

end Espmod.Web
