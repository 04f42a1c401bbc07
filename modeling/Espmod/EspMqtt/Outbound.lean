/-
# Espmod.EspMqtt.Outbound — how a message goes out

Every message that the client makes is a packet that a server accepts, or it is empty, and then to write it is
an error. A message that is longer than the buffer goes out in pieces, and `sendRounds_packet` says that the
pieces make up the packet, or that the connection is aborted on the way.

The place of the payload in a message is kept in 32 bits, and every message moves it down by the bytes that
its header leaves free. The loop takes a place other than zero for the sign of a message in pieces, and looks
at it only while some of the payload is left. After `k` messages it is at most `3 * k` below zero.
-/
import Espmod.EspMqtt.Client
import Espmod.EspMqtt.Receive
import Espmod.Lib.Run

namespace Espmod.EspMqtt

open Espmod.Lib Espmod.Lib.Text Espmod.Lib.Words Espmod.Lib.Window

/-! ## §1 — packets for a server -/

/-- A packet as the protocol has it, with an identifier where there is one. -/
structure Proper (p : Mqtt.Packet) : Prop where
  wellFormed : p.WellFormed
  permitted : Inflow.Permitted p
  identified : match p with
    | .publish _ qos _ _ id _ => qos ≠ 0 → id ≠ 0
    | .pubrel id => id ≠ 0
    | .subscribe id _ => id ≠ 0
    | .other .. => True

/-- What a server reads. -/
def Dialogue (bytes : Bytes) : Prop :=
  ∃ (body : Bytes) (ps : List Mqtt.Packet), Proper (.other .connect body) ∧
    (∀ p ∈ ps, Proper p ∧ p.type ≠ 1) ∧
    bytes = (Mqtt.Packet.other .connect body).encode ++ ps.flatMap Mqtt.Packet.encode

/-- The beginning of it. -/
def Interrupted (bytes : Bytes) : Prop := ∃ rest, Dialogue (bytes ++ rest)

theorem Dialogue.append {bytes : Bytes} {p : Mqtt.Packet} (h : Dialogue bytes) (hp : Proper p)
    (htype : p.type ≠ 1) : Dialogue (bytes ++ p.encode) := by
  obtain ⟨body, ps, hconnect, hps, rfl⟩ := h
  refine ⟨body, ps ++ [p], hconnect, ?_, ?_⟩
  · intro q hq
    rcases List.mem_append.mp hq with hq | hq
    · exact hps q hq
    · rw [List.mem_singleton.mp hq]
      exact ⟨hp, htype⟩
  · rw [List.flatMap_append, List.flatMap_cons, List.flatMap_nil, List.append_nil, List.append_assoc]

theorem Dialogue.interrupted {bytes : Bytes} (h : Dialogue bytes) : Interrupted bytes :=
  ⟨[], by rwa [List.append_nil]⟩

/-- A connection on which nothing was sent. -/
theorem interrupted_nil : Interrupted [] := by
  refine ⟨(Mqtt.Packet.other .connect (List.replicate 12 0)).encode, List.replicate 12 0, [], ?_, nofun, ?_⟩
  · exact ⟨⟨by decide, by show 12 ≤ 12; decide⟩, trivial, trivial⟩
  · rw [List.flatMap_nil, List.append_nil, List.nil_append]

/-! ## §2 — what a message makes of the buffer -/

namespace Connection

variable {n k : Nat} {c c' : Connection} {p : Mqtt.Packet} {draw id : UInt16} {topic : Bytes}

/-- `c'` has the packet, or nothing where there is no room for it. -/
structure Makes (c c' : Connection) (p : Mqtt.Packet) : Prop where
  message : c'.message = [] ∨ c'.message = p.encode ∧ Proper p
  bufferLength : c'.bufferLength = c.bufferLength
  total : c'.fragmentedMsgTotalLength = 0
  offset : ∃ offs ≤ 3, c'.fragmentedMsgDataOffset = c.fragmentedMsgDataOffset - BitVec.ofNat 32 offs

/-- The buffer of a connection on which `k` steps have been made. -/
structure Ready (n k : Nat) (c : Connection) : Prop where
  bufferLength : c.bufferLength = n
  total : c.fragmentedMsgTotalLength = 0
  offset : ∃ d ≤ 3 * k, c.fragmentedMsgDataOffset = 0 - BitVec.ofNat 32 d

theorem Ready.mono (h : Ready n k c) {k' : Nat} (hle : k ≤ k') : Ready n k' c := by
  obtain ⟨d, hd, hoffset⟩ := h.offset
  exact ⟨h.bufferLength, h.total, d, by omega, hoffset⟩

theorem Makes.ready (h : Makes c c' p) (hready : Ready n k c) : Ready n (k + 1) c' := by
  obtain ⟨d, hd, hoffset⟩ := hready.offset
  obtain ⟨offs, hoffs, hoffset'⟩ := h.offset
  refine ⟨h.bufferLength.trans hready.bufferLength, h.total, d + offs, by omega, ?_⟩
  rw [hoffset', hoffset, BitVec.ofNat_add]
  generalize BitVec.ofNat 32 d = d, BitVec.ofNat 32 offs = offs
  bv_omega

theorem Emptied.makes (h : Emptied c c') (htotal : c.fragmentedMsgTotalLength = 0) (p : Mqtt.Packet) :
    Makes c c' p := by
  refine ⟨.inl h.message, congrArg Prod.fst h.frame, ?_, 0, by decide, ?_⟩
  · exact (congrArg (fun f => f.2.1) h.frame).trans htotal
  · rw [BitVec.sub_zero]
    exact congrArg (fun f => f.2.2) h.frame

theorem Sends.makes {first : UInt8} (h : c.Sends c' first p.body)
    (hfirst : first = UInt8.ofNat (p.type * 16 + p.flags))
    (hp : 5 + p.body.length ≤ c.bufferLength → Proper p) : Makes c c' p := by
  obtain ⟨hmessage, hbuffer, htotal, hoffset⟩ := h
  refine ⟨?_, hbuffer, htotal, hoffset⟩
  split at hmessage
  · next hfits =>
    refine .inr ⟨?_, hp hfits⟩
    rw [hmessage, hfirst]
    rfl
  · exact .inl hmessage

section Builders

variable (hroom : 5 ≤ c.bufferLength) (hn : c.bufferLength < 2 ^ 16) (htotal : c.fragmentedMsgTotalLength = 0)
include hroom hn htotal

theorem acknowledge_makes (kind : Mqtt.Kind) (hkind : kind.takes 2) (hflags : kind.flags = 0) (id : UInt16) :
    Makes c (c.acknowledge draw id kind.type 0) (.other kind (Mqtt.word (Build.used draw id).toNat)) := by
  refine (acknowledge_sends hroom hn htotal id kind.type 0).makes (p := .other kind _) ?_ fun _ => ?_
  · show firstByte kind.type 0 ((0 : Nat) : Int) ((0 : Nat) : Int) = _
    rw [firstByte_eq _ kind.type_flags_lt.1 0 (by decide) 0 (by decide)]
    show UInt8.ofNat (kind.type * 16 + 0) = UInt8.ofNat (kind.type * 16 + kind.flags)
    rw [hflags]
  · exact ⟨⟨by show 2 < _; decide, hkind⟩, trivial, trivial⟩

theorem pubrel_makes (hdraw : draw ≠ 0) (id : UInt16) :
    Makes c (c.mqttMsgPubrel draw id) (.pubrel (Build.used draw id)) := by
  refine (acknowledge_sends hroom hn htotal id 6 1).makes (p := .pubrel _) rfl fun _ => ?_
  refine ⟨⟨by show 2 < _; decide, trivial⟩, trivial, ?_⟩
  show (if id = 0 then draw else id) ≠ 0
  split
  · exact hdraw
  · next hid => exact hid

theorem pingreq_makes : Makes c c.mqttMsgPingreq (.other .pingreq []) :=
  (empty_sends hroom hn htotal 12).makes (p := .other .pingreq []) rfl fun _ =>
    ⟨⟨by decide, rfl⟩, trivial, trivial⟩

theorem disconnect_makes : Makes c c.mqttMsgDisconnect (.other .disconnect []) :=
  (empty_sends hroom hn htotal 14).makes (p := .other .disconnect []) rfl fun _ =>
    ⟨⟨by decide, rfl⟩, trivial, trivial⟩

theorem connect_makes (info : ConnectInfo) : Makes c (c.mqttMsgConnect info) (.other .connect info.body) := by
  by_cases hid : info.clientId = []
  · exact (connect_refused hroom hid).makes htotal _
  · refine (connect_sends hroom hn htotal hid).makes (p := .other .connect info.body) rfl fun hfits => ?_
    have hfits : 5 + info.body.length ≤ c.bufferLength := hfits
    refine ⟨⟨by show info.body.length < _; omega, ?_⟩, trivial, trivial⟩
    have hheader : (connectHeader info (UInt8.ofNat info.flags)).length = 10 := rfl
    show 12 ≤ info.body.length
    simp only [ConnectInfo.body, List.length_append, hheader, Mqtt.length_text]
    omega

theorem subscribe_makes (hdraw : draw ≠ 0) (id : UInt16) (qos : Fin 3) :
    Makes c (c.mqttMsgSubscribe draw id topic (qos.val : Nat)).1 (.subscribe draw [(topic, qos)]) := by
  by_cases htopic : topic = []
  · unfold mqttMsgSubscribe
    rw [if_pos htopic]
    exact Emptied.makes (c := c) ⟨message_failMessage c.initMessage, rfl⟩ htotal _
  · have hbody : (Mqtt.Packet.subscribe draw [(topic, qos)]).body =
        Mqtt.word draw.toNat ++ (Mqtt.text topic ++ [UInt8.ofInt (qos.val : Nat)]) := by
      show Mqtt.word draw.toNat ++ List.flatMap _ [(topic, qos)] = _
      rw [List.flatMap_cons, List.flatMap_nil, List.append_nil]
      have hqos : ∀ qos : Fin 3, UInt8.ofNat qos.val = UInt8.ofInt (qos.val : Nat) := by decide
      rw [hqos]
    have hsends : c.Sends (c.mqttMsgSubscribe draw id topic (qos.val : Nat)).1 _ _ :=
      subscribe_sends hroom hn htotal htopic id (qos.val : Nat)
    rw [← hbody] at hsends
    refine hsends.makes rfl fun hfits => ?_
    have hlength : topic.length ≤ (Mqtt.Packet.subscribe draw [(topic, qos)]).body.length := by
      rw [hbody, List.length_append, List.length_append, Mqtt.length_text]
      omega
    refine ⟨⟨by omega, nofun, ?_⟩, trivial, hdraw⟩
    intro f hf
    rw [List.mem_singleton.mp hf]
    show topic.length < _
    omega

theorem unsubscribe_makes (id : UInt16) : Makes c (c.mqttMsgUnsubscribe draw id topic).1
    (.other .unsubscribe (Mqtt.word draw.toNat ++ Mqtt.text topic)) := by
  by_cases htopic : topic = []
  · unfold mqttMsgUnsubscribe
    rw [if_pos htopic]
    exact Emptied.makes (c := c) ⟨message_failMessage c.initMessage, rfl⟩ htotal _
  · refine (unsubscribe_sends hroom hn htotal htopic id).makes (p := .other .unsubscribe _) rfl fun hfits => ?_
    have hpos : 0 < topic.length := List.length_pos_iff.mpr htopic
    have hlength : (Mqtt.word draw.toNat ++ Mqtt.text topic).length = 4 + topic.length := by
      rw [List.length_append, Mqtt.length_word, Mqtt.length_text]
      omega
    have hfits : 5 + (Mqtt.word draw.toNat ++ Mqtt.text topic).length ≤ c.bufferLength := hfits
    refine ⟨⟨by show List.length _ < _; omega, ?_⟩, trivial, trivial⟩
    show 5 ≤ (Mqtt.word draw.toNat ++ Mqtt.text topic).length
    omega

end Builders

end Connection

/-! ## §3 — writing -/

namespace Client

variable {n k : Nat} {c c' : Client} {bytes w : Bytes}

/-- **A write** takes all of the bytes, or changes nothing. -/
theorem mqttWriteData_cases (c : Client) (reply : WriteReply) (bytes : Bytes) :
    (∃ w, c.sent = some w ∧ bytes ≠ [] ∧
        c.mqttWriteData reply bytes = (true, { c with sent := some (w ++ bytes) })) ∨
      c.mqttWriteData reply bytes = (false, c) := by
  unfold mqttWriteData
  split
  · next w hsent =>
    by_cases hnil : bytes = []
    · exact .inr (by rw [if_pos hnil])
    · exact .inl ⟨w, hsent, hnil, by rw [if_neg hnil]⟩
  · exact .inr rfl

/-- `c'` is `c` after `bytes` were written, or after some of them were and the connection was aborted. -/
def Wrote (n k : Nat) (c c' : Client) (ok : Bool) (bytes : Bytes) : Prop :=
  ∃ connection part, connection.bufferLength = n ∧ part <+: bytes ∧
    if ok then part = bytes ∧ connection.Ready n k ∧
      c' = { c with connection := connection, sent := c.sent.map (· ++ bytes) }
    else c' = espMqttAbortConnection { c with connection := connection, sent := c.sent.map (· ++ part) }

theorem map_append_nil (sent : Option Bytes) : sent.map (· ++ []) = sent := by
  cases sent with
  | none => rfl
  | some w => exact congrArg some (List.append_nil w)

/-- What goes before. -/
theorem Wrote.prepend {ok : Bool} {a b : Bytes} {connection : Connection}
    (h : Wrote n k { c with connection := connection, sent := c.sent.map (· ++ a) } c' ok b) :
    Wrote n k c c' ok (a ++ b) := by
  obtain ⟨connection', part, hbuffer, ⟨rest, hrest⟩, hc'⟩ := h
  have hmap : ∀ b, (c.sent.map (· ++ a)).map (· ++ b) = c.sent.map (· ++ (a ++ b)) := by
    intro b
    cases c.sent with
    | none => rfl
    | some w => exact congrArg some (List.append_assoc w a b)
  refine ⟨connection', a ++ part, hbuffer, ⟨rest, by rw [List.append_assoc, hrest]⟩, ?_⟩
  cases ok with
  | true =>
    rw [if_pos rfl] at hc' ⊢
    obtain ⟨rfl, hready, rfl⟩ := hc'
    exact ⟨rfl, hready, by rw [hmap]⟩
  | false =>
    rw [if_neg (by decide)] at hc' ⊢
    rw [hc', hmap]

/-- A piece at the front of the buffer. -/
theorem nextPiece_message {connection : Connection} {piece : Bytes}
    (h : piece.length ≤ connection.bufferLength) :
    (nextPiece connection piece).message = piece ∧
      (nextPiece connection piece).bufferLength = connection.bufferLength := by
  have hroom : 0 + piece.length ≤ connection.buffer.length := by
    rw [Nat.zero_add]
    exact h
  exact ⟨window_overlay hroom, overlay_length hroom⟩

theorem nextPiece_dataSent {connection : Connection} {piece : Bytes}
    (hzero : connection.fragmentedMsgDataOffset = 0) (h : piece.length < 2 ^ 31) :
    (nextPiece connection piece).dataSent = piece.length := by
  show (BitVec.ofNat 32 piece.length - connection.fragmentedMsgDataOffset).toInt = _
  rw [hzero]
  exact (congrArg BitVec.toInt (BitVec.sub_zero _)).trans (Connection.toInt_ofNat_small h)

/-- The bytes that go out next. -/
def pieceAt (n : Nat) (data : Bytes) (position : Nat) : Bytes :=
  (data.drop position).take (min (data.length - position) n)

theorem length_pieceAt (n : Nat) (data : Bytes) (position : Nat) :
    (pieceAt n data position).length = min (data.length - position) n := by
  rw [pieceAt, List.length_take, List.length_drop]
  omega

theorem pieceAt_append (n : Nat) (data : Bytes) (position : Nat) :
    pieceAt n data position ++ data.drop (position + (pieceAt n data position).length) =
      data.drop position := by
  rw [length_pieceAt, ← List.drop_drop]
  exact List.take_append_drop _ _

/-- A connection whose place of the payload has been reset. -/
structure Reset (n : Nat) (c : Connection) : Prop where
  bufferLength : c.bufferLength = n
  total : c.fragmentedMsgTotalLength = 0
  offset : c.fragmentedMsgDataOffset = 0

theorem Reset.nextPiece {connection : Connection} {piece : Bytes} (h : Reset n connection)
    (hle : piece.length ≤ n) : Reset n (nextPiece connection piece) :=
  ⟨(nextPiece_message (hle.trans h.bufferLength.ge)).2.trans h.bufferLength, h.total, h.offset⟩

theorem Reset.ready {connection : Connection} (h : Reset n connection) : connection.Ready n k :=
  ⟨h.bufferLength, h.total, 0, Nat.zero_le _, h.offset⟩

/-- **The rounds behind the first** send the rest of the payload. The induction is on the rounds, each of
which sends at least one byte. -/
theorem sendRounds_rest (hpos : 0 < n) (hn : n < 2 ^ 16) (qos : Int) (data : Bytes) (tick : Int) (rounds : Nat) :
    ∀ {c : Client} {connection : Connection} {replies : List WriteReply} {position : Nat},
      Reset n connection → position < data.length → data.length - position < rounds → c.sent ≠ none →
      c.connection = nextPiece connection (pieceAt n data position) →
      ∃ ok c', sendRounds qos data tick rounds c replies position ((data.length : Int) - position) =
        some (ok, c') ∧ Wrote n k c c' ok (data.drop position) := by
  induction rounds with
  | zero =>
    intro c connection replies position _ _ hlt
    omega
  | succ rounds ih =>
    intro c connection replies position hreset hmore hlt hsent hc
    have hlength := length_pieceAt n data position
    have hsplit := pieceAt_append n data position
    generalize hpiece : pieceAt n data position = piece at *
    have hle : piece.length ≤ n := by omega
    have hne : piece ≠ [] := by
      rintro rfl
      rw [List.length_nil] at hlength
      omega
    have hreset' := hreset.nextPiece hle
    have hmessage : c.connection.message = piece := by
      rw [hc]
      exact (nextPiece_message (hle.trans hreset.bufferLength.ge)).1
    have hdataSent : c.connection.dataSent = piece.length := by
      rw [hc]
      exact nextPiece_dataSent hreset.offset (by omega)
    rw [← hc] at hreset'
    rw [sendRounds, hmessage]
    rcases mqttWriteData_cases c (replies.headD .taken) piece with ⟨w, hw, -, hwrite⟩ | hwrite
    · rw [hwrite]
      have hmap : c.sent.map (· ++ piece) = some (w ++ piece) := by
        rw [hw]
        rfl
      dsimp only
      rw [hdataSent]
      by_cases hleft : position + piece.length < data.length
      · rw [if_pos (by omega), if_neg (by rw [hreset'.offset]; exact fun h => h rfl)]
        have hremaining : (data.length : Int) - position - piece.length =
            (data.length : Int) - ((position + piece.length : Nat) : Int) := by omega
        have hposition : (position : Int) + piece.length = ((position + piece.length : Nat) : Int) := by omega
        have htoNat : ((data.length : Int) - ((position + piece.length : Nat) : Int)).toNat =
            data.length - (position + piece.length) := by omega
        rw [hremaining, hposition, Int.toNat_natCast, htoNat, hreset'.bufferLength]
        obtain ⟨ok, c', hrounds, hwrote⟩ := ih
          (c := { c with
            sent := some (w ++ piece)
            connection := nextPiece c.connection (pieceAt n data (position + piece.length)) })
          hreset' hleft (by omega) nofun rfl
        refine ⟨ok, c', hrounds, ?_⟩
        rw [← hsplit]
        rw [← hmap] at hwrote
        exact hwrote.prepend
      · -- this was the last piece
        have hall : data.drop position = piece := by
          rw [← hsplit, List.drop_of_length_le (by omega), List.append_nil]
        rw [if_neg (by omega), hall]
        refine ⟨true, _, rfl, c.connection, piece, hreset'.bufferLength, List.prefix_refl _, ?_⟩
        rw [if_pos rfl, hmap]
        exact ⟨rfl, hreset'.ready, rfl⟩
    · rw [hwrite]
      refine ⟨false, _, rfl, c.connection, [], hreset'.bufferLength, List.nil_prefix, ?_⟩
      rw [if_neg (by decide), map_append_nil]

/-! ## §4 — a publication -/

/-- What is put into the outbox for a message that goes out in pieces. -/
def oversized (c : Client) (data : Bytes) (tick : Int) : Item where
  buffer := data
  msgId := c.pendingMsgId
  msgType := c.pendingMsgType
  msgQos := c.pendingPublishQos
  tick := tick
  pending := .queued

/-- **The loop** sends the packet, and puts it into the outbox where it has not been put before. -/
theorem sendRounds_packet (hpos : 5 ≤ n) (hn : n < 2 ^ 16) (hk : 3 * k < 2 ^ 30) {connection : Connection}
    {p : Mqtt.Packet} {head data : Bytes} (hready : connection.Ready n k)
    (hfirst : connection.FirstPiece c.connection p head data) (hhead : 5 + head.length ≤ n)
    (qos tick : Int) (replies : List WriteReply) :
    ∃ ok c' outbox, sendRounds qos data tick (data.length + 2) c replies 0 data.length = some (ok, c') ∧
      Wrote n (k + 1) { c with outbox := outbox } c' ok p.encode ∧
      (outbox = c.outbox ∨ n < 5 + (head ++ data).length ∧ qos > 0 ∧
        outbox = c.outbox ++ [c.oversized p.encode tick]) ∧
      (ok = true → n < 5 + (head ++ data).length → qos > 0 →
        outbox = c.outbox ++ [c.oversized p.encode tick]) := by
  obtain ⟨hmessage, hbuffer, htotal, hdataSent, hoffset, hplace⟩ := hfirst
  rw [hready.bufferLength] at hmessage hbuffer htotal hdataSent hoffset hplace
  have hsum : (head ++ data).length = head.length + data.length := List.length_append
  rw [sendRounds]
  rcases mqttWriteData_cases c (replies.headD .taken) c.connection.message with ⟨w, hw, -, hwrite⟩ | hwrite
  · rw [hwrite]
    dsimp only
    by_cases hlong : n < 5 + (head ++ data).length
    · -- the payload does not fit: the rest goes out in pieces
      rw [if_pos hlong] at hdataSent
      rw [hdataSent]
      generalize ha : n - (5 + head.length) = a at hmessage hdataSent ⊢
      have hlt : a < data.length := by omega
      have hremaining : (data.length : Int) - (a : Int) > 0 := by omega
      have htoNat : ((0 : Int) + (a : Int)).toNat = a := by omega
      have htoNat' : ((data.length : Int) - (a : Int)).toNat = data.length - a := by omega
      have hrest : (data.drop a).take (data.length - a) = data.drop a := by
        apply List.take_of_length_le
        rw [List.length_drop]
      rw [if_pos hremaining, if_pos (hplace hlong), htoNat, htoNat', hrest, Int.zero_add]
      have hreset : Reset n { c.connection with fragmentedMsgDataOffset := 0, fragmentedMsgTotalLength := 0 } :=
        ⟨hbuffer, rfl, rfl⟩
      have hbufferLength : (if qos > 0 then
          mqttEnqueueOversized { c with
            sent := some (w ++ c.connection.message)
            connection := { c.connection with
              fragmentedMsgDataOffset := 0
              fragmentedMsgTotalLength := 0 } } (data.drop a) tick
          else { c with
            sent := some (w ++ c.connection.message)
            connection := { c.connection with
              fragmentedMsgDataOffset := 0
              fragmentedMsgTotalLength := 0 } }).connection =
          { c.connection with fragmentedMsgDataOffset := 0, fragmentedMsgTotalLength := 0 } := by
        split <;> rfl
      rw [hbufferLength, hreset.bufferLength]
      obtain ⟨ok, c', hrounds, hwrote⟩ := sendRounds_rest (k := k + 1) (by omega) hn qos data tick
        (data.length + 1)
        (c := { c with
          sent := some (w ++ c.connection.message)
          outbox := if qos > 0 then c.outbox ++ [c.oversized p.encode tick] else c.outbox
          connection := nextPiece { c.connection with
            fragmentedMsgDataOffset := 0
            fragmentedMsgTotalLength := 0 } (pieceAt n data a) })
        hreset hlt (by omega) nofun rfl
      have hmap : c.sent.map (· ++ c.connection.message) = some (w ++ c.connection.message) := by
        rw [hw]
        rfl
      refine ⟨ok, c', if qos > 0 then c.outbox ++ [c.oversized p.encode tick] else c.outbox, ?_, ?_, ?_, ?_⟩
      · rw [← hrounds]
        congr 1
        split
        · rw [← hmessage]
          rfl
        · rfl
      · rw [← hmap] at hwrote
        have h := Wrote.prepend (c := { c with
          outbox := if qos > 0 then c.outbox ++ [c.oversized p.encode tick] else c.outbox }) hwrote
        rwa [hmessage] at h
      · split
        · next hqos => exact .inr ⟨hlong, hqos, rfl⟩
        · exact .inl rfl
      · intro _ _ hqos
        rw [if_pos hqos]
    · -- all of it fits, and the length counts more than the payload
      obtain ⟨d, hd, hzero⟩ := hready.offset
      obtain ⟨offs, hoffs, hoffset⟩ := hoffset hlong
      have hwhole : c.connection.message = p.encode := by
        rw [← hmessage, List.drop_of_length_le (by omega), List.append_nil]
      have hbits : BitVec.ofNat 32 (5 + (head ++ data).length) - connection.fragmentedMsgDataOffset =
          BitVec.ofNat 32 (5 + (head ++ data).length + d) := by
        rw [hzero, BitVec.ofNat_add (5 + (head ++ data).length) d]
        generalize BitVec.ofNat 32 (5 + (head ++ data).length) = a, BitVec.ofNat 32 d = d
        bv_omega
      rw [if_neg hlong, hbits, Connection.toInt_ofNat_small (by omega)] at hdataSent
      rw [hdataSent, if_neg (by omega)]
      refine ⟨true, _, c.outbox, rfl, ⟨c.connection, p.encode, hbuffer, List.prefix_refl _, ?_⟩, .inl rfl,
        fun _ h => absurd h hlong⟩
      have hmap : c.sent.map (· ++ p.encode) = some (w ++ c.connection.message) := by
        rw [hw, hwhole]
        rfl
      rw [if_pos rfl, hmap]
      refine ⟨rfl, ⟨hbuffer, ?_, d + offs, by omega, ?_⟩, rfl⟩
      · rw [htotal, if_neg hlong]
      · rw [hoffset, hzero, BitVec.ofNat_add]
        generalize BitVec.ofNat 32 d = d, BitVec.ofNat 32 offs = offs
        bv_omega
  · rw [hwrite]
    refine ⟨false, _, c.outbox, rfl, ⟨c.connection, [], hbuffer, List.nil_prefix, ?_⟩, .inl rfl, nofun⟩
    rw [if_neg (by decide), map_append_nil]

end Client

end Espmod.EspMqtt
