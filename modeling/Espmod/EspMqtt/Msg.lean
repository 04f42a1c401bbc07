/-
# Espmod.EspMqtt.Msg — the messages of the MQTT client

`mqtt_msg.c` builds a message in the one buffer of the connection. The variable header and the payload are
appended behind five bytes that are left free, the most a fixed header can take; at the end the header is
stored backwards from there, so that the message begins at whichever of the five bytes it does. What does
not fit makes the message an empty one. Only the payload of a `PUBLISH` may be longer than the room left:
the message is then its first piece, and its length field counts what is still to be sent.

A `const char *` is the bytes before its NUL, and NULL is taken for the empty string, as the tests of the
source take it. An identifier that the source draws is what its loop over `platform_random` ends with.
Lengths are below 2^31.
-/
import Espmod.Lib.Mqtt
import Espmod.Lib.Window

namespace Espmod.EspMqtt

open Espmod.Lib Espmod.Lib.Text Espmod.Lib.Words Espmod.Lib.Window

/-- The quality of service is below three, and its literals take this. -/
theorem neZero_three : NeZero 3 := ⟨by decide⟩

/-! ## §1 — the buffer of a connection -/

/-- `MQTT_MAX_FIXED_HEADER_SIZE`. -/
def maxFixedHeaderSize : Nat := 5

/-- `mqtt_connection_t`. `data` is the place in the buffer that `message.data` points to. -/
structure Connection where
  buffer : Bytes
  data : Nat
  length : Nat
  fragmentedMsgTotalLength : Nat
  fragmentedMsgDataOffset : BitVec 32
  deriving DecidableEq, Repr

namespace Connection

/-- `mqtt_msg_init`. -/
def mqttMsgInit (buffer : Bytes) : Connection := ⟨buffer, 0, 0, 0, 0⟩

/-- `buffer_length`. -/
def bufferLength (c : Connection) : Nat := c.buffer.length

/-- The bytes of the message. -/
def message (c : Connection) : Bytes := window c.buffer c.data c.length

/-- `memcpy` to the end of the message. -/
def put (c : Connection) (bs : Bytes) : Connection :=
  { c with buffer := overlay c.buffer c.length bs, length := c.length + bs.length }

/-- An error leaves the connection as it is. -/
def appendString (c : Connection) (s : Bytes) : Except Connection Connection :=
  if c.length + s.length + 2 > c.bufferLength then .error c
  else .ok ((c.put (Mqtt.word s.length)).put s)

/-- The identifier that was used, and the connection. -/
def appendMessageId (c : Connection) (draw messageId : UInt16) :
    Except Connection (UInt16 × Connection) :=
  let messageId := if messageId = 0 then draw else messageId
  if c.length + 2 > c.bufferLength then .error c
  else .ok (messageId, c.put (Mqtt.word messageId.toNat))

def initMessage (c : Connection) : Connection := { c with length := maxFixedHeaderSize }

def failMessage (c : Connection) : Connection := { c with data := 0, length := 0 }

/-- The loop that encodes the length, with at most `more` rounds behind the first. -/
def encodedLens : Nat → Nat → Bytes
  | 0, totalLength => [UInt8.ofNat (totalLength % 128)]
  | more + 1, totalLength =>
    if totalLength / 128 > 0 then
      UInt8.ofNat (totalLength % 128 ||| 0x80) :: encodedLens more (totalLength / 128)
    else [UInt8.ofNat (totalLength % 128)]

/-- The type and the flags. -/
def firstByte (type dup : Nat) (qos retain : Int) : UInt8 :=
  UInt8.ofNat ((type &&& 0x0f) <<< 4 ||| (dup &&& 1) <<< 3 ||| (qos % 4).toNat <<< 1 |||
    (retain % 2).toNat)

/-- An `int` has at most five groups of seven bits, and the array of the source has room for four. -/
def finiMessage (c : Connection) (type dup : Nat) (qos retain : Int) : Connection :=
  let messageLength := c.length - maxFixedHeaderSize
  let totalLength :=
    if c.fragmentedMsgTotalLength ≠ 0 then c.fragmentedMsgTotalLength - maxFixedHeaderSize
    else messageLength
  let lens := encodedLens 4 totalLength
  if lens.length + 1 > maxFixedHeaderSize then c.failMessage
  else
    let offs := maxFixedHeaderSize - 1 - lens.length
    { c with
      length := messageLength + lens.length + 1
      data := offs
      fragmentedMsgDataOffset := c.fragmentedMsgDataOffset - BitVec.ofNat 32 offs
      buffer := overlay c.buffer offs (firstByte type dup qos retain :: lens) }

/-- The end of every message. -/
def finish (r : Except Connection Connection) (type dup : Nat) (qos retain : Int) : Connection :=
  match r with
  | .error c => c.failMessage
  | .ok c => c.finiMessage type dup qos retain

end Connection

/-! ## §2 — connecting -/

/-- `mqtt_connect_info_t`. -/
structure ConnectInfo where
  clientId : Bytes
  username : Bytes
  password : Bytes
  willTopic : Bytes
  willMessage : Bytes
  keepalive : Int
  willQos : Int
  willRetain : Bool
  cleanSession : Bool
  deriving DecidableEq, Repr

/-- `mqtt_connect_variable_header`: the protocol, its version, the flags, and the time to keep the
connection alive. -/
def connectHeader (info : ConnectInfo) (flags : UInt8) : Bytes :=
  [0, 4] ++ str "MQTT" ++ [4, flags] ++ Mqtt.word (info.keepalive % 65536).toNat

namespace Connection

/-- `variable_header->flags |= …`; the flags are the eighth byte of the variable header. -/
def orFlags (c : Connection) (flags : Nat) : Connection :=
  { c with buffer := c.buffer.modify (maxFixedHeaderSize + 7) (· ||| UInt8.ofNat flags) }

def appendWill (info : ConnectInfo) (c : Connection) : Except Connection Connection :=
  if info.willTopic = [] then .ok c
  else do
    let c ← c.appendString info.willTopic
    let c ← c.appendString info.willMessage
    let c := c.orFlags (1 <<< 2)
    let c := if info.willRetain then c.orFlags (1 <<< 5) else c
    .ok (c.orFlags ((info.willQos % 4).toNat <<< 3))

/-- The user name or the password. -/
def appendCredential (s : Bytes) (flag : Nat) (c : Connection) : Except Connection Connection :=
  if s = [] then .ok c
  else do
    let c ← c.appendString s
    .ok (c.orFlags flag)

def appendVariableHeader (info : ConnectInfo) (c : Connection) : Except Connection Connection :=
  if c.length + 10 > c.bufferLength then .error c
  else
    let c := c.put (connectHeader info 0)
    .ok (if info.cleanSession then c.orFlags (1 <<< 1) else c)

def appendClientId (info : ConnectInfo) (c : Connection) : Except Connection Connection :=
  if info.clientId ≠ [] then c.appendString info.clientId else .error c

def mqttMsgConnect (c : Connection) (info : ConnectInfo) : Connection :=
  finish (do
    let c ← c.initMessage.appendVariableHeader info
    let c ← c.appendClientId info
    let c ← c.appendWill info
    let c ← c.appendCredential info.username (1 <<< 7)
    c.appendCredential info.password (1 <<< 6)) 1 0 0 0

/-! ## §3 — publishing -/

/-- What does not fit is left for later. -/
def appendData (c : Connection) (data : Bytes) : Connection :=
  if c.length + data.length > c.bufferLength then
    { c.put (data.take (c.bufferLength - c.length)) with
      fragmentedMsgDataOffset := BitVec.ofNat 32 c.length
      fragmentedMsgTotalLength := data.length + c.length }
  else { c.put data with fragmentedMsgTotalLength := 0 }

/-- `mqtt_msg_publish`, and what is stored through `message_id`, which held `messageId`. -/
def mqttMsgPublish (c : Connection) (draw messageId : UInt16) (topic data : Bytes) (qos retain : Int) :
    Connection × UInt16 :=
  if topic = [] then (c.initMessage.failMessage, messageId)
  else
    match c.initMessage.appendString topic with
    | .error c => (c.failMessage, messageId)
    | .ok c =>
      if qos > 0 then
        match c.appendMessageId draw 0 with
        | .error c => (c.failMessage, 0)
        | .ok (id, c) => ((c.appendData data).finiMessage 3 0 qos retain, id)
      else ((c.appendData data).finiMessage 3 0 qos retain, 0)

/-! ## §4 — the other messages -/

/-- A message that has an identifier and nothing else. -/
def acknowledge (c : Connection) (draw messageId : UInt16) (type : Nat) (qos : Int) : Connection :=
  finish ((c.initMessage.appendMessageId draw messageId).map Prod.snd) type 0 qos 0

def mqttMsgPuback (c : Connection) (draw messageId : UInt16) : Connection :=
  c.acknowledge draw messageId 4 0

def mqttMsgPubrec (c : Connection) (draw messageId : UInt16) : Connection :=
  c.acknowledge draw messageId 5 0

def mqttMsgPubrel (c : Connection) (draw messageId : UInt16) : Connection :=
  c.acknowledge draw messageId 6 1

def mqttMsgPubcomp (c : Connection) (draw messageId : UInt16) : Connection :=
  c.acknowledge draw messageId 7 0

/-- `mqtt_msg_subscribe`, and what is stored through `message_id`. -/
def mqttMsgSubscribe (c : Connection) (draw messageId : UInt16) (topic : Bytes) (qos : Int) :
    Connection × UInt16 :=
  if topic = [] then (c.initMessage.failMessage, messageId)
  else
    match c.initMessage.appendMessageId draw 0 with
    | .error c => (c.failMessage, 0)
    | .ok (id, c) =>
      (finish (do
        let c ← c.appendString topic
        if c.length + 1 > c.bufferLength then .error c
        else .ok (c.put [UInt8.ofInt qos])) 8 0 1 0, id)

/-- `mqtt_msg_unsubscribe`, and what is stored through `message_id`. -/
def mqttMsgUnsubscribe (c : Connection) (draw messageId : UInt16) (topic : Bytes) :
    Connection × UInt16 :=
  if topic = [] then (c.initMessage.failMessage, messageId)
  else
    match c.initMessage.appendMessageId draw 0 with
    | .error c => (c.failMessage, 0)
    | .ok (id, c) => (finish (c.appendString topic) 10 0 1 0, id)

def mqttMsgPingreq (c : Connection) : Connection := c.initMessage.finiMessage 12 0 0 0

def mqttMsgPingresp (c : Connection) : Connection := c.initMessage.finiMessage 13 0 0 0

def mqttMsgDisconnect (c : Connection) : Connection := c.initMessage.finiMessage 14 0 0 0

/-! ## §5 — what is appended -/

/-- `body` stands behind the five bytes left free. -/
structure Filled (c : Connection) (body : Bytes) : Prop where
  length : c.length = 5 + body.length
  fits : c.length ≤ c.bufferLength
  body : window c.buffer 5 body.length = body

/-- What a message leaves as it is. -/
def frame (c : Connection) : Nat × Nat × BitVec 32 :=
  (c.bufferLength, c.fragmentedMsgTotalLength, c.fragmentedMsgDataOffset)

/-- The result has `body` appended, or there is no room for it. -/
def Gives (f : Nat × Nat × BitVec 32) (r : Except Connection Connection) (body : Bytes) : Prop :=
  match r with
  | .ok c => c.Filled body ∧ c.frame = f
  | .error c => f.1 < 5 + body.length ∧ c.frame = f

variable {c : Connection} {body : Bytes} {f : Nat × Nat × BitVec 32}

theorem bufferLength_of_frame (h : c.frame = f) : c.bufferLength = f.1 := by
  rw [← h]
  rfl

theorem filled_initMessage (h : 5 ≤ c.bufferLength) : c.initMessage.Filled [] where
  length := rfl
  fits := h
  body := by simp

theorem Filled.put (h : c.Filled body) (bs : Bytes) (hfits : c.length + bs.length ≤ c.bufferLength) :
    (c.put bs).Filled (body ++ bs) ∧ (c.put bs).frame = c.frame := by
  have hlength : (overlay c.buffer c.length bs).length = c.buffer.length := overlay_length hfits
  refine ⟨⟨?_, ?_, ?_⟩, ?_⟩
  · show c.length + bs.length = _
    rw [h.length, List.length_append]
    omega
  · show c.length + bs.length ≤ (overlay c.buffer c.length bs).length
    rw [hlength]
    exact hfits
  · show window (overlay c.buffer c.length bs) 5 (body ++ bs).length = _
    rw [h.length] at hfits ⊢
    rw [List.length_append, window_append hfits, h.body]
  · unfold frame Connection.bufferLength
    exact congrArg (fun n => (n, _, _)) hlength

/-- **One call after the other.** -/
theorem Gives.bind {r : Except Connection Connection} {g : Connection → Except Connection Connection}
    {body' : Bytes} (h : Gives f r body) (hle : body.length ≤ body'.length)
    (hg : ∀ c, c.Filled body → c.frame = f → Gives f (g c) body') : Gives f (r >>= g) body' := by
  cases r with
  | ok c => exact hg c h.1 h.2
  | error c => exact ⟨lt_of_lt_of_le h.1 (Nat.add_le_add_left hle 5), h.2⟩

theorem Filled.appendString (h : c.Filled body) (hf : c.frame = f) (s : Bytes) :
    Gives f (c.appendString s) (body ++ Mqtt.text s) := by
  have hbuf := bufferLength_of_frame hf
  have hlength := h.length
  have htext : (body ++ Mqtt.text s).length = body.length + (2 + s.length) := by
    rw [List.length_append, Mqtt.length_text]
  unfold Connection.appendString
  split
  · refine ⟨?_, hf⟩
    rw [htext]
    omega
  · obtain ⟨h₁, hf₁⟩ := h.put (Mqtt.word s.length) (by rw [Mqtt.length_word]; omega)
    have hlength₁ := h₁.length
    rw [List.length_append, Mqtt.length_word] at hlength₁
    obtain ⟨h₂, hf₂⟩ := h₁.put s (by
      rw [bufferLength_of_frame (hf₁.trans hf)]
      omega)
    refine ⟨?_, hf₂.trans (hf₁.trans hf)⟩
    rw [Mqtt.text, ← List.append_assoc]
    exact h₂

end Connection

end Espmod.EspMqtt
