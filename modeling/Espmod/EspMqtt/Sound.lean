/-
# Espmod.EspMqtt.Sound — the invariant of the client

The invariant is about three things together: the bytes on the connection, the items of the outbox, which are
packets already, and the buffer, whose place of the payload `Ready` bounds by the number of steps. Each
operation of the client keeps it. For a publication the lemmas also say what becomes of the outbox, which
holds the packet before any of it is written.
-/
import Espmod.EspMqtt.Outbound

namespace Espmod.EspMqtt

open Espmod.Lib Espmod.Lib.Text Espmod.Lib.Words Espmod.Lib.Window

/-! ## §1 — what is in the outbox -/

/-- A packet that can follow a `CONNECT`, or nothing, for a message that had no room. -/
def Holds (item : Item) : Prop :=
  item.buffer = [] ∨ ∃ p : Mqtt.Packet, Proper p ∧ p.type ≠ 1 ∧ item.buffer = p.encode ∧
    item.msgType = p.type ∧
    match p with
    | .publish _ qos .. => item.msgQos = (qos.val : Nat)
    | _ => True

theorem setDup_encode (dup retain : Bool) (topic payload : Bytes) (id : UInt16) :
    mqttSetDup (Mqtt.Packet.publish dup 2 retain topic id payload).encode =
      (Mqtt.Packet.publish true 2 retain topic id payload).encode := by
  have hfirst : ∀ dup retain : Bool,
      UInt8.ofNat (3 * 16 + ((if dup then 8 else 0) + 2 * (2 : Fin 3).val + if retain then 1 else 0)) ||| 0x08 =
        UInt8.ofNat (3 * 16 + ((if true then 8 else 0) + 2 * (2 : Fin 3).val + if retain then 1 else 0)) := by
    decide
  show (_ ||| 0x08) :: _ = _
  exact congrArg (· :: _) (hfirst dup retain)

theorem kind_type_ne_publish (kind : Mqtt.Kind) : kind.type ≠ 3 := by
  cases kind <;> decide

/-- **Only a publication is repeated**, and as one. -/
theorem Holds.setDup {item : Item} (h : Holds item) (htype : item.msgType = 3) (hqos : item.msgQos = 2) :
    Holds { item with buffer := mqttSetDup item.buffer } := by
  rcases h with hnil | ⟨p, hp, -, hbuffer, hptype, hpqos⟩
  · exact .inl (by rw [hnil]; rfl)
  · have hp3 : p.type = 3 := hptype.symm.trans htype
    cases p with
    | publish dup qos retain topic id payload =>
      have hqos2 : qos = 2 := by
        have hval : ((qos.val : Nat) : Int) = 2 := hpqos.symm.trans hqos
        apply Fin.ext
        show qos.val = 2
        omega
      subst hqos2
      refine .inr ⟨.publish true 2 retain topic id payload, ?_, by simp [Mqtt.Packet.type], ?_, htype, hqos⟩
      · refine ⟨⟨hp.wellFormed.remaining, hp.wellFormed.layout⟩, ⟨hp.permitted.1, ?_⟩, hp.identified⟩
        exact fun h => absurd h (by decide)
      · rw [hbuffer, setDup_encode]
    | pubrel id => simp [Mqtt.Packet.type] at hp3
    | subscribe id filters => simp [Mqtt.Packet.type] at hp3
    | other kind body => exact absurd hp3 (kind_type_ne_publish kind)

/-- The type that is read off a message. -/
theorem outboundType_of_message {connection : Connection} {p : Mqtt.Packet} {rest : Bytes}
    (h : connection.message ++ rest = p.encode) (hne : connection.message ≠ []) :
    Client.outboundType connection = p.type := by
  obtain ⟨first, more, hmessage⟩ := List.exists_cons_of_ne_nil hne
  have hdrop : (connection.buffer.drop connection.data).drop 0 =
      first :: (more ++ (connection.buffer.drop connection.data).drop connection.length) := by
    rw [List.drop_zero, ← List.cons_append, ← hmessage]
    exact (List.take_append_drop _ _).symm
  have hfirst : first = UInt8.ofNat (p.type * 16 + p.flags) := by
    rw [hmessage, List.cons_append] at h
    exact (List.cons.inj h).1
  have htype := p.type_lt
  have hflags := p.flags_lt
  unfold Client.outboundType mqttGetType
  rw [byteAt_of_drop hdrop, hfirst, UInt8.toNat_ofNat', Nat.mod_eq_of_lt (by omega)]
  exact (header_fields _ htype _ hflags).1

/-! ## §2 — the invariant -/

/-- What does not depend on the buffer. -/
structure Holding (n : Nat) (c : Client) : Prop where
  outBuffer : c.outBuffer.length = n
  active : c.state = .connected → c.run = true ∧ c.sent ≠ none
  idle : c.run = true → c.state ≠ .connected → c.sent = none
  dialogue : ∀ w, c.sent = some w → Dialogue w
  closed : ∀ w ∈ c.closed, Interrupted w
  outbox : ∀ item ∈ c.outbox, Holds item

/-- A client that has made `k` steps with a buffer of `n` bytes. -/
structure Sound (n k : Nat) (c : Client) : Prop where
  holding : Holding n c
  memory : c.connection.buffer = [] ∨ c.connection.bufferLength = n
  ready : c.state = .connected → c.connection.Ready n k

section Invariant

variable {n k : Nat} {c c' : Client} {connection : Connection} {p : Mqtt.Packet}

theorem Sound.mono (h : Sound n k c) {k' : Nat} (hle : k ≤ k') : Sound n k' c :=
  ⟨h.holding, h.memory, fun hstate => (h.ready hstate).mono hle⟩

theorem Holding.withOutbox (h : Holding n c) {outbox : Outbox} (houtbox : ∀ item ∈ outbox, Holds item) :
    Holding n { c with outbox := outbox } :=
  ⟨h.outBuffer, h.active, h.idle, h.dialogue, h.closed, houtbox⟩

theorem Sound.withOutbox (h : Sound n k c) {outbox : Outbox} (houtbox : ∀ item ∈ outbox, Holds item) :
    Sound n k { c with outbox := outbox } :=
  ⟨h.holding.withOutbox houtbox, h.memory, h.ready⟩

theorem Sound.setPending (h : Sound n k c) (msgId : UInt16) (pending : PendingState) :
    Sound n k (c.outboxSetPending msgId pending) :=
  h.withOutbox (Outbox.mem_outboxSetPending (fun _ _ hitem => hitem) h.holding.outbox)

theorem Sound.withConnection (h : Sound n k c) {k' : Nat} (hready : connection.Ready n k') :
    Sound n k' { c with connection := connection } :=
  ⟨⟨h.holding.outBuffer, h.holding.active, h.holding.idle, h.holding.dialogue, h.holding.closed,
    h.holding.outbox⟩, .inr hready.bufferLength, fun _ => hready⟩

/-- A connection that is aborted may have got a part of the next packet. -/
theorem Holding.aborted (h : Holding n c) {part : Bytes}
    (hpart : ∀ w, c.sent = some w → Interrupted (w ++ part)) (hbuffer : connection.bufferLength = n) :
    Sound n k (Client.espMqttAbortConnection
      { c with connection := connection, sent := c.sent.map (· ++ part) }) := by
  refine ⟨⟨h.outBuffer, nofun, fun _ _ => rfl, nofun, ?_, h.outbox⟩, .inr hbuffer, nofun⟩
  intro w hw
  rcases List.mem_append.mp hw with hw | hw
  · obtain ⟨w', hw', rfl⟩ := Option.map_eq_some_iff.mp (Option.mem_toList.mp hw)
    exact hpart w' hw'
  · exact h.closed w hw

theorem Sound.abort (h : Sound n k c) {k' : Nat} : Sound n k' c.espMqttAbortConnection := by
  refine ⟨⟨h.holding.outBuffer, nofun, fun _ _ => rfl, nofun, ?_, h.holding.outbox⟩, h.memory, nofun⟩
  intro w hw
  rcases List.mem_append.mp hw with hw | hw
  · exact (h.holding.dialogue w (Option.mem_toList.mp hw)).interrupted
  · exact h.holding.closed w hw

/-- **A packet that was written**, or that the connection broke off in. -/
theorem Holding.wrote {ok : Bool} (h : Holding n c) (hstate : c.state = .connected)
    (hwrote : Client.Wrote n k c c' ok p.encode) (hp : Proper p) (htype : p.type ≠ 1) : Sound n k c' := by
  obtain ⟨connection, part, hbuffer, ⟨rest, hrest⟩, hc'⟩ := hwrote
  cases ok with
  | true =>
    obtain ⟨-, hready, rfl⟩ := (if_pos rfl).mp hc'
    refine ⟨⟨h.outBuffer, fun _ => ⟨(h.active hstate).1, ?_⟩, fun _ hno => absurd hstate hno, ?_, h.closed,
      h.outbox⟩, .inr hbuffer, fun _ => hready⟩
    · exact fun hnone => (h.active hstate).2 (Option.map_eq_none_iff.mp hnone)
    · intro w hw
      obtain ⟨w', hw', rfl⟩ := Option.map_eq_some_iff.mp hw
      exact (h.dialogue w' hw').append hp htype
  | false =>
    obtain rfl : c' = _ := hc'
    refine h.aborted (fun w hw => ⟨rest, ?_⟩) hbuffer
    rw [List.append_assoc, hrest]
    exact (h.dialogue w hw).append hp htype

/-- Whatever the client does with the identifiers that wait, and with the ping. -/
theorem Sound.frame (h : Sound n k c) (hframe : c' = { c with
    pendingMsgId := c'.pendingMsgId
    pendingMsgType := c'.pendingMsgType
    pendingPublishQos := c'.pendingPublishQos
    pendingMsgCount := c'.pendingMsgCount
    waitForPingResp := c'.waitForPingResp }) : Sound n k c' := by
  rw [hframe]
  exact ⟨⟨h.holding.outBuffer, h.holding.active, h.holding.idle, h.holding.dialogue, h.holding.closed,
    h.holding.outbox⟩, h.memory, h.ready⟩

end Invariant

/-! ## §3 — what is written in one piece -/

namespace Client

variable {n k : Nat} {c : Client} {connection : Connection} {p : Mqtt.Packet} {draw : UInt16}

/-- **A write** of a packet, or of nothing. -/
theorem mqttWriteData_sound (h : Sound n k c) (hstate : c.state = .connected) (reply : WriteReply)
    {bytes : Bytes} (hbytes : bytes = [] ∨ ∃ p : Mqtt.Packet, Proper p ∧ p.type ≠ 1 ∧ bytes = p.encode) :
    Sound n k (c.mqttWriteData reply bytes).2 := by
  rcases mqttWriteData_cases c reply bytes with ⟨w, hw, hne, hwrite⟩ | hwrite
  · obtain ⟨p, hp, htype, rfl⟩ := hbytes.resolve_left hne
    have hready := h.ready hstate
    rw [hwrite]
    have hwrote : Wrote n k c { c with sent := some (w ++ p.encode) } true p.encode := by
      refine ⟨c.connection, p.encode, hready.bufferLength, List.prefix_refl _, ?_⟩
      rw [if_pos rfl, hw]
      exact ⟨rfl, hready, rfl⟩
    exact h.holding.wrote hstate hwrote hp htype
  · rw [hwrite]
    exact h

theorem respond_sound (h : Sound n k c) (hstate : c.state = .connected)
    (hmakes : c.connection.Makes connection p) (htype : p.type ≠ 1) (reply : WriteReply) :
    Sound n (k + 1) (c.respond connection reply).2 := by
  apply mqttWriteData_sound (h.withConnection (hmakes.ready (h.ready hstate))) hstate
  rcases hmakes.message with hnil | ⟨hmessage, hp⟩
  · exact .inl hnil
  · exact .inr ⟨p, hp, htype, hmessage⟩

theorem isValidMqttMsg_sound (h : Sound n k c) (msgType : Nat) (msgId : UInt16) :
    Sound n k (c.isValidMqttMsg msgType msgId).2 := by
  unfold isValidMqttMsg
  split
  · exact h
  · split
    · next outbox hdelete =>
      have hsub := Outbox.outboxDelete_sublist hdelete
      exact (h.withOutbox fun item hitem => h.holding.outbox item (hsub.subset hitem)).frame rfl
    · split
      · exact h.frame rfl
      · exact h

section Answers

variable (hroom : 5 ≤ n) (hn : n < 2 ^ 16) (h : Sound n k c) (hstate : c.state = .connected)
include hroom hn h hstate

/-- The buffer of a client that is connected. -/
theorem connected_room : 5 ≤ c.connection.bufferLength ∧ c.connection.bufferLength < 2 ^ 16 ∧
    c.connection.fragmentedMsgTotalLength = 0 := by
  have hready := h.ready hstate
  have hlength := hready.bufferLength
  exact ⟨by omega, by omega, hready.total⟩

theorem mqttProcessReceive_sound (hdraw : draw ≠ 0) (inBuffer : Bytes) (messageLength : Nat)
    (delivered : Bool) (reply : WriteReply) :
    Sound n (k + 1) (c.mqttProcessReceive inBuffer messageLength delivered draw reply).2 := by
  obtain ⟨hfive, hword, htotal⟩ := connected_room hroom hn h hstate
  have hmono : Sound n (k + 1) c := h.mono (Nat.le_succ k)
  unfold mqttProcessReceive
  dsimp only
  split
  · exact isValidMqttMsg_sound hmono 8 _
  · exact isValidMqttMsg_sound hmono 10 _
  · split
    · split
      · exact respond_sound h hstate
          (Connection.acknowledge_makes hfive hword htotal .puback rfl rfl _)
          (by simp [Mqtt.Packet.type, Mqtt.Kind.type]) reply
      · split
        · exact respond_sound h hstate
            (Connection.acknowledge_makes hfive hword htotal .pubrec rfl rfl _)
            (by simp [Mqtt.Packet.type, Mqtt.Kind.type]) reply
        · exact hmono
    · exact hmono
  · have hvalid := isValidMqttMsg_sound hmono 3 (mqttGetId inBuffer (UInt16.ofNat messageLength))
    split
    · next c' heq =>
      rw [heq] at hvalid
      exact hvalid.setPending _ _
    · next c' heq =>
      rw [heq] at hvalid
      exact hvalid
  · exact respond_sound (h.setPending _ .confirmed) hstate
      (Connection.pubrel_makes hfive hword htotal hdraw _) (by simp [Mqtt.Packet.type]) reply
  · exact respond_sound h hstate
      (Connection.acknowledge_makes hfive hword htotal .pubcomp rfl rfl _)
      (by simp [Mqtt.Packet.type, Mqtt.Kind.type]) reply
  · exact isValidMqttMsg_sound hmono 3 _
  · exact hmono.frame rfl
  · exact hmono

theorem keepAlive_sound (reply : WriteReply) : Sound n (k + 1) (c.keepAlive reply) := by
  obtain ⟨hfive, hword, htotal⟩ := connected_room hroom hn h hstate
  unfold keepAlive
  split
  · exact h.abort.frame rfl
  · have hrespond := respond_sound h hstate (Connection.pingreq_makes hfive hword htotal)
      (by simp [Mqtt.Packet.type, Mqtt.Kind.type]) reply
    split
    · next c' heq =>
      rw [heq] at hrespond
      exact hrespond.abort
    · next c' heq =>
      rw [heq] at hrespond
      exact hrespond.frame rfl

end Answers

/-- **A request** is put into the outbox as it is written. -/
theorem request_sound {made : Connection × UInt16} (h : Sound n k c) (hstate : c.state = .connected)
    (hmakes : c.connection.Makes made.1 p) (htype : p.type ≠ 1) (hne : p.type ≠ 3) (tick : Int) (reply : WriteReply) :
    Sound n (k + 1) (c.request made tick reply).2 := by
  have hready := hmakes.ready (h.ready hstate)
  have hitem : ∀ msgId qos tick, Holds
      { buffer := made.1.message ++ [], msgId := msgId, msgType := outboundType made.1, msgQos := qos,
        tick := tick, pending := .queued } := by
    intro msgId qos tick
    rw [List.append_nil]
    rcases hmakes.message with hnil | ⟨hmessage, hp⟩
    · exact .inl hnil
    · have hnonempty : made.1.message ≠ [] := by
        rw [hmessage]
        nofun
      refine .inr ⟨p, hp, htype, hmessage, ?_, ?_⟩
      · exact outboundType_of_message ((List.append_nil _).trans hmessage) hnonempty
      · cases p with
        | publish => exact absurd rfl hne
        | _ => trivial
  have hwrite : ∀ {c' : Client}, Sound n (k + 1) c' → c'.state = .connected →
      Sound n (k + 1) (c'.mqttWriteData reply made.1.message).2 := by
    intro c' hc' hstate'
    apply mqttWriteData_sound hc' hstate'
    rcases hmakes.message with hnil | ⟨hmessage, hp⟩
    · exact .inl hnil
    · exact .inr ⟨p, hp, htype, hmessage⟩
  have hmade : Sound n (k + 1) { c with
      connection := made.1
      pendingMsgId := made.2
      pendingMsgType := outboundType made.1
      pendingMsgCount := c.pendingMsgCount + 1 } := (h.withConnection hready).frame rfl
  unfold request
  dsimp only
  generalize hc₁ : (mqttEnqueue _ tick).outboxSetPending made.2 .transmitted = c₁
  have hc₁sound : Sound n (k + 1) c₁ := by
    subst hc₁
    apply Sound.setPending
    unfold mqttEnqueue
    split
    · apply hmade.withOutbox
      intro item hmem
      rcases List.mem_append.mp hmem with hmem | hmem
      · exact h.holding.outbox item hmem
      · rw [List.mem_singleton.mp hmem]
        exact hitem _ _ _
    · exact hmade
  have hc₁state : c₁.state = .connected := by
    subst hc₁
    unfold mqttEnqueue
    split <;> exact hstate
  have hc₁message : c₁.connection.message = made.1.message := by
    subst hc₁
    unfold mqttEnqueue
    split <;> rfl
  rw [hc₁message]
  have hsound := hwrite hc₁sound hc₁state
  split
  · next c' heq =>
    rw [heq] at hsound
    exact hsound
  · next c' heq =>
    rw [heq] at hsound
    exact hsound

/-- **An item of the outbox** is sent, as a repeated one if it is a publication with a quality of service
of 2. -/
theorem resend_sound (h : Sound n k c) (hstate : c.state = .connected) (pending : PendingState)
    (reply : WriteReply) : Sound n k (c.resend pending reply) := by
  unfold resend
  split
  · exact h
  · next item hitem =>
    have hholds := h.holding.outbox item (Outbox.outboxDequeue_mem hitem)
    dsimp only
    generalize hdup : (decide (item.msgType = 3 ∧ item.msgQos = 2)) = dup
    have hbytes : ∃ bytes, (if dup then mqttSetDup item.buffer else item.buffer) = bytes ∧
        Holds { item with buffer := bytes } := by
      cases dup with
      | true =>
        obtain ⟨htype, hqos⟩ := of_decide_eq_true hdup
        exact ⟨_, rfl, hholds.setDup htype hqos⟩
      | false => exact ⟨_, rfl, hholds⟩
    have houtbox : ∀ i ∈ (if dup then c.outbox.setDup pending else c.outbox), Holds i := by
      cases dup with
      | true =>
        obtain ⟨htype, hqos⟩ := of_decide_eq_true hdup
        exact Outbox.mem_setDup hitem (fun hfound => hfound.setDup htype hqos) h.holding.outbox
      | false => exact h.holding.outbox
    obtain ⟨bytes, hbytes, hsend⟩ := hbytes
    rw [hbytes]
    have hfound : Sound n k { c with
        pendingMsgId := item.msgId
        pendingMsgType := item.msgType
        pendingPublishQos := item.msgQos
        outbox := if dup then c.outbox.setDup pending else c.outbox } := (h.withOutbox houtbox).frame rfl
    have hpacket : bytes = [] ∨ ∃ p : Mqtt.Packet, Proper p ∧ p.type ≠ 1 ∧ bytes = p.encode := by
      rcases hsend with hnil | ⟨p, hp, htype, hbuffer, -⟩
      · exact .inl hnil
      · exact .inr ⟨p, hp, htype, hbuffer⟩
    have hsound := mqttWriteData_sound hfound hstate reply hpacket
    split
    · next c' heq =>
      rw [heq] at hsound
      exact hsound.abort
    · next c' heq =>
      rw [heq] at hsound
      split
      · exact hsound.setPending _ _
      · exact hsound

/-! ## §4 — connecting -/

theorem stopped (h : Sound n k c) : Sound n k { c with run := false, state := .unknown } :=
  ⟨⟨h.holding.outBuffer, nofun, nofun, h.holding.dialogue, h.holding.closed, h.holding.outbox⟩, h.memory,
    nofun⟩

/-- A client without a connection goes on. -/
theorem withState (h : Sound n k c) (hstate : c.state ≠ .connected) {state : ClientState}
    (hne : state ≠ .connected) : Sound n k { c with state := state } :=
  ⟨⟨h.holding.outBuffer, fun hc => absurd hc hne, fun hrun _ => h.holding.idle hrun hstate, h.holding.dialogue,
    h.holding.closed, h.holding.outbox⟩, h.memory, fun hc => absurd hc hne⟩

theorem finished (h : Sound n k c) (hrun : c.run ≠ true) : Sound n k c.espTransportClose := by
  refine ⟨⟨h.holding.outBuffer, ?_, fun _ _ => rfl, nofun, ?_, h.holding.outbox⟩, h.memory, h.ready⟩
  · exact fun hstate => absurd (h.holding.active hstate).1 hrun
  · intro w hw
    rcases List.mem_append.mp hw with hw | hw
    · exact (h.holding.dialogue w (Option.mem_toList.mp hw)).interrupted
    · exact h.holding.closed w hw

/-- The `CONNECT` that the client would send. -/
def offer (c : Client) (info : ConnectInfo) : Connection := (c.espMqttConnect info .failed none).2.connection

theorem dialogue_connect {body : Bytes} (h : Proper (.other .connect body)) :
    Dialogue (Mqtt.Packet.other .connect body).encode :=
  ⟨body, [], h, nofun, (List.append_nil _).symm⟩

section Connect

variable (hroom : 5 ≤ n) (hn : n < 2 ^ 16)
include hroom hn

/-- A new connection begins with the whole buffer. -/
theorem offer_makes (h : Sound n k c) (info : ConnectInfo) : ∃ connection : Connection,
    connection.Ready n k ∧ connection.Makes (c.offer info) (.other .connect info.body) := by
  have hmemory : ∀ memory : Bytes, memory.length = n →
      (Connection.mqttMsgInit (memory.take (memory.length % 2 ^ 16))).bufferLength = n := by
    intro memory hlength
    show (memory.take _).length = n
    rw [hlength, Nat.mod_eq_of_lt hn, List.take_of_length_le hlength.le, hlength]
  have hlength : (if c.connection.buffer = [] then c.outBuffer else c.connection.buffer).length = n := by
    split
    · exact h.holding.outBuffer
    · next hne => exact h.memory.resolve_left hne
  have hinit := hmemory _ hlength
  refine ⟨_, ⟨hinit, rfl, 0, Nat.zero_le _, rfl⟩, ?_⟩
  exact Connection.connect_makes (by rw [hinit]; exact hroom) (by rw [hinit]; exact hn) rfl info

/-- **A round that connects.** A server accepts a connection only after it has got the `CONNECT`. -/
theorem connectRound_sound (h : Sound n k c) (hstate : c.state = .init) (hrun : c.run = true)
    (opened : Bool) (info : ConnectInfo) (reply : WriteReply) (answer : Option Bytes)
    (hanswer : espMqttConnect.answered answer = true → reply = .taken ∧ (c.offer info).message ≠ []) :
    Sound n (k + 1) (c.connectRound opened info reply answer) := by
  have hidle : c.state ≠ .connected := by
    rw [hstate]
    nofun
  unfold connectRound
  split
  · obtain ⟨connection, hready, hmakes⟩ := offer_makes hroom hn h info
    have hready' := hmakes.ready hready
    -- what was sent is the message, or nothing
    have hfail : ∀ (part : Bytes) (c' : Client), Interrupted part → c' = { c with
        connection := c.offer info
        waitForPingResp := false
        pendingMsgType := c'.pendingMsgType
        pendingMsgId := c'.pendingMsgId
        sent := some part } → Sound n (k + 1) c'.espMqttAbortConnection := by
      intro part c' hpart hc'
      rw [hc']
      refine ⟨⟨h.holding.outBuffer, nofun, fun _ _ => rfl, nofun, ?_, h.holding.outbox⟩,
        .inr hready'.bufferLength, nofun⟩
      intro w hw
      rcases List.mem_cons.mp hw with rfl | hw
      · exact hpart
      · exact h.holding.closed w hw
    have hmessage : Interrupted (c.offer info).message := by
      rcases hmakes.message with hnil | ⟨hmessage, hp⟩
      · rw [hnil]
        exact interrupted_nil
      · rw [hmessage]
        exact (dialogue_connect hp).interrupted
    unfold espMqttConnect
    cases reply with
    | failed => exact hfail [] _ interrupted_nil rfl
    | timeout =>
      cases hbool : espMqttConnect.answered answer with
      | true => exact absurd (hanswer hbool).1 nofun
      | false => exact hfail [] _ interrupted_nil rfl
    | taken =>
      cases hbool : espMqttConnect.answered answer with
      | false => exact hfail (c.offer info).message _ hmessage rfl
      | true =>
        obtain ⟨hmessage, hp⟩ := hmakes.message.resolve_left (hanswer hbool).2
        refine ⟨⟨h.holding.outBuffer, fun _ => ⟨hrun, nofun⟩, fun _ hno => absurd rfl hno, ?_,
          h.holding.closed, h.holding.outbox⟩, .inr hready'.bufferLength, fun _ => hready'⟩
        rintro w ⟨rfl⟩
        show Dialogue (c.offer info).message
        rw [hmessage]
        exact dialogue_connect hp
  · exact h.abort

end Connect

/-! ## §5 — a publication -/

/-- What `esp_mqtt_client_publish` has done before it looks at the connection. -/
def prepared (c : Client) (made : Connection × UInt16) (qos tick : Int) : Client :=
  let c := { c with connection := made.1 }
  if qos > 0 then
    let c := { c with
      pendingMsgType := outboundType made.1
      pendingMsgId := made.2
      pendingPublishQos := qos
      pendingMsgCount := c.pendingMsgCount + 1 }
    if made.1.fragmentedMsgTotalLength = 0 then c.mqttEnqueue tick else c
  else c

/-- The rest of it. -/
def published (c : Client) (pendingMsgId : UInt16) (data : Bytes) (qos tick : Int) (replies : List WriteReply) :
    Option (UInt16 × Client) :=
  if c.state ≠ .connected then some (0, c)
  else
    match sendRounds qos data tick (data.length + 2) c replies 0 data.length with
    | none => none
    | some (false, c) => some (0, c)
    | some (true, c) => some (pendingMsgId, if qos > 0 then c.outboxSetPending pendingMsgId .transmitted else c)

theorem espMqttClientPublish_eq (c : Client) (draw : UInt16) (topic data : Bytes) (len qos retain tick : Int)
    (replies : List WriteReply) : c.espMqttClientPublish draw topic data len qos retain tick replies =
      let made := c.connection.mqttMsgPublish draw 0 topic (payloadOf data len) qos retain
      if qos > 0 ∧ made.1.buffer = [] then none
      else (c.prepared made qos tick).published made.2 (payloadOf data len) qos tick replies :=
  rfl

/-- An item of a message that went into the outbox whole. -/
structure Kept (made : Connection × UInt16) (qos tick : Int) (item : Item) : Prop where
  positive : qos > 0
  whole : made.1.fragmentedMsgTotalLength = 0
  buffer : item.buffer = made.1.message
  msgId : item.msgId = made.2
  msgType : item.msgType = outboundType made.1
  msgQos : item.msgQos = qos
  tick : item.tick = tick
  pending : item.pending = .queued

theorem prepared_frame (c : Client) (made : Connection × UInt16) (qos tick : Int) :
    ∃ id type publishQos new, c.prepared made qos tick = { c with
      connection := made.1
      pendingMsgId := id
      pendingMsgType := type
      pendingPublishQos := publishQos
      pendingMsgCount := c.pendingMsgCount + (if qos > 0 then 1 else 0)
      outbox := c.outbox ++ new } ∧
    (qos > 0 → id = made.2 ∧ type = outboundType made.1 ∧ publishQos = qos) ∧
    (∀ item ∈ new, Kept made qos tick item) ∧ new.length ≤ 1 ∧
    (qos > 0 → made.1.fragmentedMsgTotalLength = 0 → 0 ≤ c.pendingMsgCount → new ≠ []) := by
  have hnone : c.outbox = c.outbox ++ [] := (List.append_nil _).symm
  unfold prepared
  dsimp only
  split
  · next hqos =>
    split
    · next hwhole =>
      unfold mqttEnqueue
      split
      · refine ⟨_, _, _, [_], rfl, fun _ => ⟨rfl, rfl, rfl⟩, ?_, Nat.le_refl 1, nofun⟩
        intro item hitem
        rw [List.mem_singleton.mp hitem]
        exact ⟨hqos, hwhole, List.append_nil _, rfl, rfl, rfl, rfl, rfl⟩
      · next hcount =>
        refine ⟨_, _, _, [], by rw [← hnone], fun _ => ⟨rfl, rfl, rfl⟩, nofun, Nat.zero_le 1,
          fun _ _ hle => ?_⟩
        exact absurd (Int.lt_add_one_of_le hle) hcount
    · next hpieces =>
      exact ⟨_, _, _, [], by rw [← hnone], fun _ => ⟨rfl, rfl, rfl⟩, nofun, Nat.zero_le 1,
        fun _ hwhole => absurd hwhole hpieces⟩
  · next hqos =>
    exact ⟨_, _, _, [], by rw [← hnone, Int.add_zero], fun h => absurd h hqos, nofun, Nat.zero_le 1,
      fun h => absurd h hqos⟩

theorem prepared_holding (h : Holding n c) {made : Connection × UInt16} {qos tick : Int}
    (hkept : ∀ item, Kept made qos tick item → Holds item) : Holding n (c.prepared made qos tick) := by
  obtain ⟨_, _, _, new, hc', -, hnew, -⟩ := prepared_frame c made qos tick
  rw [hc']
  refine ⟨h.outBuffer, h.active, h.idle, h.dialogue, h.closed, ?_⟩
  intro item hitem
  rcases List.mem_append.mp hitem with hitem | hitem
  · exact h.outbox item hitem
  · exact hkept item (hnew item hitem)

/-- Before the first connection there is no buffer, and so no message. -/
theorem mqttMsgPublish_nil {connection : Connection} (hnil : connection.buffer = []) (topic data : Bytes)
    (qos retain : Int) : (connection.mqttMsgPublish draw 0 topic data qos retain).1.message = [] ∧
      (connection.mqttMsgPublish draw 0 topic data qos retain).1.buffer = [] := by
  have hlong : connection.initMessage.length + topic.length + 2 > connection.initMessage.bufferLength := by
    show 5 + topic.length + 2 > connection.buffer.length
    rw [hnil, List.length_nil]
    omega
  unfold Connection.mqttMsgPublish Connection.appendString
  rw [if_pos hlong]
  split <;> exact ⟨Connection.message_failMessage _, hnil⟩

/-- What a publication that returns `id` does to the outbox: nothing is put into it but the packet, which is
there when the call has succeeded. -/
structure Enlists (c c' : Client) (qos tick : Int) (id draw : UInt16) (p : Mqtt.Packet) (new : Outbox) :
    Prop where
  count : c'.pendingMsgCount = c.pendingMsgCount + (if qos > 0 then 1 else 0)
  few : new.length ≤ if qos > 0 then 1 else 0
  outbox : c'.outbox =
    if id = 0 then c.outbox ++ new else (c.outbox ++ new).outboxSetPending id .transmitted
  drawn : id ≠ 0 → qos > 0 ∧ id = draw
  item : id ≠ 0 → 0 ≤ c.pendingMsgCount → ∃ item, new = [item] ∧ item.buffer = p.encode ∧ item.msgId = id ∧
    item.msgQos = qos ∧ item.tick = tick ∧ item.pending = .queued

theorem Wrote.frame {c' : Client} {ok : Bool} {bytes : Bytes} (h : Wrote n k c c' ok bytes) :
    c'.outbox = c.outbox ∧ c'.pendingMsgCount = c.pendingMsgCount := by
  obtain ⟨connection, part, -, -, hc'⟩ := h
  cases ok with
  | true =>
    obtain ⟨-, -, rfl⟩ := (if_pos rfl).mp hc'
    exact ⟨rfl, rfl⟩
  | false =>
    obtain rfl : c' = _ := hc'
    exact ⟨rfl, rfl⟩

section Publish

variable {topic data : Bytes} {qos : Fin 3} {retain : Bool} {made : Connection × UInt16} {tick : Int}
  {replies : List WriteReply}

/-- A message that has no room: nothing can be written, and the connection is aborted. -/
theorem published_empty (h : Sound n k c) (hmessage : made.1.message = [])
    (hmemory : made.1.buffer = [] ∨ made.1.bufferLength = n)
    (hready : c.state = .connected → made.1.Ready n k) (qos : Int) (draw : UInt16)
    (p : Mqtt.Packet) : ∃ id c' new,
      (c.prepared made qos tick).published made.2 data qos tick replies = some (id, c') ∧
      Sound n k c' ∧ Enlists c c' qos tick id draw p new := by
  have hholding : Holding n (c.prepared made qos tick) := prepared_holding h.holding
    fun item hitem => .inl (hitem.buffer.trans hmessage)
  obtain ⟨_, _, _, new, hc', -, hnew, hfew, -⟩ := prepared_frame c made qos tick
  generalize c.prepared made qos tick = c₁ at hholding hc'
  have hconnection : c₁.connection = made.1 := by rw [hc']
  have hstate : c₁.state = c.state := by rw [hc']
  have hsound : Sound n k c₁ := by
    refine ⟨hholding, ?_, ?_⟩
    · rw [hconnection]
      exact hmemory
    · rw [hconnection, hstate]
      exact hready
  have henlists : Enlists c c₁ qos tick 0 draw p new := by
    refine ⟨by rw [hc'], ?_, by rw [hc', if_pos rfl], fun hid => absurd rfl hid, fun hid => absurd rfl hid⟩
    split
    · exact hfew
    · next hqos =>
      cases new with
      | nil => exact Nat.le_refl 0
      | cons item new => exact absurd (hnew item List.mem_cons_self).positive hqos
  unfold published
  split
  · exact ⟨0, c₁, new, rfl, hsound, henlists⟩
  · have hrounds : sendRounds qos data tick (data.length + 2) c₁ replies 0 data.length =
        some (false, c₁.espMqttAbortConnection) := by
      rw [sendRounds, hconnection, hmessage]
      rcases mqttWriteData_cases c₁ (replies.headD .taken) [] with ⟨w, -, hne, -⟩ | hwrite
      · exact absurd rfl hne
      · rw [hwrite]
    rw [hrounds]
    exact ⟨0, _, new, rfl, hsound.abort, ⟨henlists.count, henlists.few, henlists.outbox,
      henlists.drawn, henlists.item⟩⟩

/-- A message whose first piece has room. -/
theorem published_packet (hroom : 5 ≤ n) (hn : n < 2 ^ 16) (hk : 3 * k < 2 ^ 30) (h : Sound n k c)
    (hbuffer : c.connection.bufferLength = n) {id : UInt16}
    (hfirst : c.connection.FirstPiece made.1 (.publish false qos retain topic id data)
      (publishHead id topic qos) data)
    (hhead : 5 + (publishHead id topic qos).length ≤ n) (hid : made.2 = if qos = 0 then 0 else id)
    (hp : Proper (.publish false qos retain topic id data)) :
    ∃ id' c' new, (c.prepared made (qos.val : Nat) tick).published made.2 data (qos.val : Nat) tick replies =
      some (id', c') ∧ Sound n (k + 1) c' ∧
      Enlists c c' (qos.val : Nat) tick id' id (.publish false qos retain topic id data) new := by
  have hne1 : (Mqtt.Packet.publish false qos retain topic id data).type ≠ 1 := by simp [Mqtt.Packet.type]
  have hbody : (Mqtt.Packet.publish false qos retain topic id data).body.length =
      (publishHead id topic qos).length + data.length := by
    rw [body_publish, List.length_append]
  have hholds : ∀ item : Item, item.buffer = (Mqtt.Packet.publish false qos retain topic id data).encode →
      item.msgType = (Mqtt.Packet.publish false qos retain topic id data).type →
      item.msgQos = (qos.val : Nat) → Holds item :=
    fun item hbuffer htype hmsgQos => .inr ⟨_, hp, hne1, hbuffer, htype, hmsgQos⟩
  have hidentified : qos ≠ 0 → id ≠ 0 := hp.identified
  have hzero : ((qos.val : Nat) : Int) > 0 ↔ qos ≠ 0 := by
    rw [Ne, Fin.ext_iff]
    show _ ↔ ¬ qos.val = 0
    omega
  generalize Mqtt.Packet.publish false qos retain topic id data = p at *
  generalize publishHead id topic qos = head at *
  have hsum : (head ++ data).length = head.length + data.length := List.length_append
  have htype : outboundType made.1 = p.type := by
    refine outboundType_of_message hfirst.message fun hnil => ?_
    have hmessage := congrArg List.length hfirst.message
    rw [hnil, List.nil_append, List.length_drop, length_encode, hbody] at hmessage
    unfold headerSize at hmessage
    omega
  -- what goes into the outbox at once is the whole packet
  have hfits : ∀ item, Kept made (qos.val : Nat) tick item → ¬ n < 5 + (head ++ data).length := by
    intro item hitem hlong
    have htotal := hfirst.total
    rw [hbuffer, if_pos hlong, hitem.whole] at htotal
    omega
  have hwhole : ∀ item, Kept made (qos.val : Nat) tick item → item.buffer = p.encode := by
    intro item hitem
    have hshort := hfits item hitem
    have hmessage := hfirst.message
    rw [hbuffer, List.drop_of_length_le (by omega), List.append_nil] at hmessage
    exact hitem.buffer.trans hmessage
  have hholding : Holding n (c.prepared made (qos.val : Nat) tick) := prepared_holding h.holding
    fun item hitem => hholds item (hwhole item hitem) (hitem.msgType.trans htype) hitem.msgQos
  obtain ⟨_, _, _, new, hc', hpending, hnew, hfew, hgiven⟩ := prepared_frame c made (qos.val : Nat) tick
  generalize c.prepared made (qos.val : Nat) tick = c₁ at hholding hc'
  have hconnection : c₁.connection = made.1 := by rw [hc']
  have hstate : c₁.state = c.state := by rw [hc']
  have houtbox₁ : c₁.outbox = c.outbox ++ new := by rw [hc']
  have hcount : c₁.pendingMsgCount = c.pendingMsgCount + (if ((qos.val : Nat) : Int) > 0 then 1 else 0) := by
    rw [hc']
  have hpending : ((qos.val : Nat) : Int) > 0 → c₁.pendingMsgId = made.2 ∧
      c₁.pendingMsgType = outboundType made.1 ∧ c₁.pendingPublishQos = (qos.val : Nat) := by
    rw [hc']
    exact hpending
  have hfew : new.length ≤ if ((qos.val : Nat) : Int) > 0 then 1 else 0 := by
    split
    · exact hfew
    · next hno =>
      cases new with
      | nil => exact Nat.le_refl 0
      | cons item new => exact absurd (hnew item List.mem_cons_self).positive hno
  rw [← hconnection] at hfirst
  unfold published
  split
  · next hidle =>
    refine ⟨0, c₁, new, rfl, ⟨hholding, .inr (hfirst.bufferLength.trans hbuffer), fun hconnected => ?_⟩, hcount,
      hfew, ?_, fun hne => absurd rfl hne, fun hne => absurd rfl hne⟩
    · exact absurd hconnected hidle
    · rw [if_pos rfl, houtbox₁]
  · next hconnected =>
    have hconnected : c₁.state = .connected := not_not.mp hconnected
    obtain ⟨ok, c₂, outbox, hrounds, hwrote, houtbox, hput⟩ := sendRounds_packet hroom hn hk
      (h.ready (hstate.symm.trans hconnected)) hfirst hhead (qos.val : Nat) tick replies
    -- one of the two has put it there, according to its length
    obtain ⟨new', rfl, hitems, hfew', hitem⟩ : ∃ new', outbox = c.outbox ++ new' ∧ (∀ item ∈ new', Holds item) ∧
        (new'.length ≤ if ((qos.val : Nat) : Int) > 0 then 1 else 0) ∧
        (ok = true → ((qos.val : Nat) : Int) > 0 → 0 ≤ c.pendingMsgCount → ∃ item, new' = [item] ∧
          item.buffer = p.encode ∧ item.msgId = made.2 ∧ item.msgQos = (qos.val : Nat) ∧
          item.tick = tick ∧ item.pending = .queued) := by
      by_cases hlong : n < 5 + (head ++ data).length
      · have hnil : new = [] := by
          cases new with
          | nil => rfl
          | cons item new => exact absurd hlong (hfits item (hnew item List.mem_cons_self))
        rw [houtbox₁, hnil, List.append_nil] at houtbox hput
        rcases houtbox with rfl | ⟨-, hpos, rfl⟩
        · refine ⟨[], (List.append_nil _).symm, List.forall_mem_nil _, Nat.zero_le _, fun hok hpos _ => ?_⟩
          have hlength := congrArg List.length (hput hok hlong hpos)
          rw [List.length_append, List.length_singleton] at hlength
          omega
        · obtain ⟨hmsgId, hmsgType, hmsgQos⟩ := hpending hpos
          refine ⟨[c₁.oversized p.encode tick], rfl, ?_, by rw [if_pos hpos]; exact Nat.le_refl 1, ?_⟩
          · intro item hitem
            rw [List.mem_singleton.mp hitem]
            exact hholds _ rfl (hmsgType.trans htype) hmsgQos
          · exact fun _ _ _ => ⟨_, rfl, rfl, hmsgId, hmsgQos, rfl, rfl⟩
      · have hsame : outbox = c.outbox ++ new := by
          rw [← houtbox₁]
          exact houtbox.resolve_right fun h => hlong h.1
        refine ⟨new, hsame, ?_, hfew, fun _ hpos hle => ?_⟩
        · intro item hitem
          apply hholding.outbox
          rw [houtbox₁]
          exact List.mem_append_right _ hitem
        · have htotal := hfirst.total
          rw [hbuffer, if_neg hlong, hconnection] at htotal
          have hne := hgiven hpos htotal hle
          rw [if_pos hpos] at hfew
          have hone : new.length = 1 := Nat.le_antisymm hfew (List.length_pos_iff.mpr hne)
          obtain ⟨item, rfl⟩ := List.length_eq_one_iff.mp hone
          have hkept := hnew item (List.mem_singleton.mpr rfl)
          exact ⟨item, rfl, hwhole item hkept, hkept.msgId, hkept.msgQos, hkept.tick, hkept.pending⟩
    have hheld : ∀ item ∈ c.outbox ++ new', Holds item := by
      intro item hitem
      rcases List.mem_append.mp hitem with hitem | hitem
      · exact h.holding.outbox item hitem
      · exact hitems item hitem
    have hsound := (hholding.withOutbox hheld).wrote hconnected hwrote hp hne1
    obtain ⟨houtbox₂, hcount₂⟩ := hwrote.frame
    rw [hrounds]
    cases ok with
    | false =>
      refine ⟨0, c₂, new', rfl, hsound, hcount₂.trans hcount, hfew', ?_, fun hne => absurd rfl hne,
        fun hne => absurd rfl hne⟩
      rw [if_pos rfl]
      exact houtbox₂
    | true =>
      by_cases hqos0 : qos = 0
      · have hno : ¬ ((qos.val : Nat) : Int) > 0 := fun hpos => hzero.mp hpos hqos0
        refine ⟨made.2, c₂, new', congrArg some (congrArg _ (if_neg hno)), hsound, hcount₂.trans hcount,
          hfew', ?_, ?_, ?_⟩
        · rw [hid, if_pos hqos0, if_pos rfl]
          exact houtbox₂
        · exact fun hne => absurd (hid.trans (if_pos hqos0)) hne
        · exact fun hne => absurd (hid.trans (if_pos hqos0)) hne
      · have hpos : ((qos.val : Nat) : Int) > 0 := hzero.mpr hqos0
        refine ⟨made.2, c₂.outboxSetPending made.2 .transmitted, new', congrArg some (congrArg _ (if_pos hpos)),
          hsound.setPending _ _, hcount₂.trans hcount, hfew', ?_,
          fun _ => ⟨hpos, hid.trans (if_neg hqos0)⟩, fun _ => hitem rfl hpos⟩
        have hne : made.2 ≠ 0 := by
          rw [hid, if_neg hqos0]
          exact hidentified hqos0
        rw [if_neg hne]
        exact congrArg (Outbox.outboxSetPending made.2 .transmitted) houtbox₂

/-- A buffer of some length is there. -/
theorem buffer_ne_nil {connection : Connection} (h : connection.bufferLength = n) (hroom : 5 ≤ n) :
    connection.buffer ≠ [] := by
  intro hnil
  have hlength : connection.buffer.length = n := h
  rw [hnil, List.length_nil] at hlength
  omega

/-- **A publication ends**, and what it leaves is sound. -/
theorem espMqttClientPublish_sound (hroom : 5 ≤ n) (hn : n < 2 ^ 16) (hk : 3 * k < 2 ^ 30) (h : Sound n k c)
    (hdraw : draw ≠ 0) (hnul : 0 ∉ topic) (hopened : qos.val ≠ 0 → c.connection.buffer ≠ []) {len : Int}
    (hlen : topic.length + (payloadOf data len).length + 4 < 2 ^ 28) :
    ∃ id c' new,
      c.espMqttClientPublish draw topic data len (qos.val : Nat) (if retain then 1 else 0) tick replies =
        some (id, c') ∧ Sound n (k + 1) c' ∧
      Enlists c c' (qos.val : Nat) tick id draw (.publish false qos retain topic draw (payloadOf data len)) new := by
  rw [espMqttClientPublish_eq]
  generalize payloadOf data len = data at hlen ⊢
  dsimp only
  generalize hmade : c.connection.mqttMsgPublish draw 0 topic data (qos.val : Nat) (if retain then 1 else 0) =
    made
  have hzero : ¬ ((qos.val : Nat) : Int) > 0 ↔ qos = 0 := by
    rw [Fin.ext_iff]
    show _ ↔ qos.val = 0
    omega
  -- the message has an address, if its type is read
  have haddress : (¬ ((qos.val : Nat) : Int) > 0 ∨ made.1.bufferLength = n) →
      ¬ (((qos.val : Nat) : Int) > 0 ∧ made.1.buffer = []) := by
    rintro (hno | hlength) ⟨hpos, hnil⟩
    · exact hno hpos
    · exact buffer_ne_nil hlength hroom hnil
  -- a message that is empty
  have hempty : made.1.message = [] → (made.1.buffer = [] ∨ made.1.bufferLength = n) →
      (c.state = .connected → made.1.Ready n k) → ∃ id c' new,
        (c.prepared made (qos.val : Nat) tick).published made.2 data (qos.val : Nat) tick replies =
          some (id, c') ∧ Sound n (k + 1) c' ∧
        Enlists c c' (qos.val : Nat) tick id draw (.publish false qos retain topic draw data) new := by
    intro hmessage hmemory hready
    obtain ⟨id, c', new, hc', hsound, henlists⟩ := published_empty
      h hmessage hmemory hready (qos.val : Nat) draw (.publish false qos retain topic draw data)
    exact ⟨id, c', new, hc', hsound.mono (Nat.le_succ k), henlists⟩
  have hemptied : c.connection.Emptied made.1 → c.connection.bufferLength = n → ∃ id c' new,
      (if ((qos.val : Nat) : Int) > 0 ∧ made.1.buffer = [] then none
        else (c.prepared made (qos.val : Nat) tick).published made.2 data (qos.val : Nat) tick replies) =
        some (id, c') ∧ Sound n (k + 1) c' ∧
      Enlists c c' (qos.val : Nat) tick id draw (.publish false qos retain topic draw data) new := by
    intro hmade hbuffer
    have hlength : made.1.bufferLength = c.connection.bufferLength := congrArg Prod.fst hmade.frame
    rw [if_neg (haddress (.inr (hlength.trans hbuffer)))]
    refine hempty hmade.message (.inr (hlength.trans hbuffer)) fun hstate => ?_
    have hready := h.ready hstate
    exact ⟨hlength.trans hbuffer, (congrArg (fun f => f.2.1) hmade.frame).trans hready.total,
      hready.offset.imp fun d hd => ⟨hd.1, (congrArg (fun f => f.2.2) hmade.frame).trans hd.2⟩⟩
  rcases h.memory with hnil | hbuffer
  · obtain ⟨hmessage, hbuffer⟩ := mqttMsgPublish_nil hnil topic data (qos.val : Nat)
      (if retain then 1 else 0)
    rw [hmade] at hmessage hbuffer
    have hlossy : qos = 0 := not_not.mp fun hne => hopened (fun hval => hne (Fin.ext hval)) hnil
    rw [if_neg (haddress (.inl (hzero.mpr hlossy)))]
    refine hempty hmessage (.inl hbuffer) fun hstate => ?_
    have hlength : c.connection.buffer.length = n := (h.ready hstate).bufferLength
    rw [hnil, List.length_nil] at hlength
    omega
  · by_cases htopic : topic = []
    · refine hemptied ?_ hbuffer
      rw [← hmade]
      unfold Connection.mqttMsgPublish
      rw [if_pos htopic]
      exact ⟨Connection.message_failMessage _, rfl⟩
    · have hle : topic.length ≤ (publishHead draw topic qos).length ∧
          (publishHead draw topic qos).length ≤ topic.length + 4 := by
        unfold publishHead
        rw [List.length_append, Mqtt.length_text]
        split
        · rw [List.length_nil]
          omega
        · rw [Mqtt.length_word]
          omega
      have hlength : (publishHead draw topic qos ++ data).length < 2 ^ 28 := by
        rw [List.length_append]
        omega
      rcases Connection.mqttMsgPublish_spec (c := c.connection) (by omega) (by omega) htopic 0 data hlength
        retain with ⟨hhead, hfirst, hid⟩ | ⟨-, hemptied'⟩
      · rw [hmade] at hfirst hid
        rw [hbuffer] at hhead
        rw [if_neg (haddress (.inr (hfirst.bufferLength.trans hbuffer)))]
        refine published_packet hroom hn hk h hbuffer hfirst hhead hid ⟨⟨?_, ?_, hnul⟩, ⟨htopic, fun _ => rfl⟩,
          fun _ => hdraw⟩
        · rw [body_publish, List.length_append]
          omega
        · omega
      · rw [hmade] at hemptied'
        exact hemptied hemptied' hbuffer

end Publish

end Client

end Espmod.EspMqtt
