/-
# Espmod.EspMqtt.Client — the MQTT client

`mqtt_client.c` as a state machine. Its steps are the calls of the application and the parts of a round of its
task: connecting, taking a packet, sending a message of the outbox again, keeping the connection alive,
clearing the outbox. The parts may come in any order and any number, and calls may come between them, as from
the handler of an event; a call does not come in the middle of another step, and `esp_mqtt_client_stop` comes
between two rounds. (`MQTT_API_LOCK` would see to the first, but it is compiled out.) `esp_mqtt_client_start`
is called once: a start after a stop is left out. What a round still does after it has aborted the connection
changes nothing but the buffer, and is left out too.

The transport takes all of what is written to it, or nothing. Events are left out, and so are the times at
which a part of the task is due.
-/
import Espmod.EspMqtt.Encode
import Espmod.EspMqtt.Outbox

namespace Espmod.EspMqtt

open Espmod.Lib Espmod.Lib.Text

/-! ## §1 — the state -/

/-- `mqtt_client_state_t`. -/
inductive ClientState where
  | unknown
  | init
  | connected
  | waitTimeout
  deriving DecidableEq, Repr

/-- What `esp_transport_write` can do: take the bytes, return 0, or fail. -/
inductive WriteReply where
  | taken
  | timeout
  | failed
  deriving DecidableEq, Repr

/-- `esp_mqtt_client` and its `mqtt_state_t`, and what was written so far. -/
structure Client where
  outBuffer : Bytes
  connection : Connection
  state : ClientState
  run : Bool
  pendingMsgId : UInt16
  pendingMsgType : Nat
  pendingPublishQos : Int
  pendingMsgCount : Int
  waitForPingResp : Bool
  outbox : Outbox
  /-- The bytes on the connection that is open. -/
  sent : Option Bytes
  /-- The bytes on those before it, the last one first. -/
  closed : List Bytes
  deriving DecidableEq, Repr

/-- `OUTBOX_EXPIRED_TIMEOUT_MS`. -/
def outboxExpiredTimeoutMs : Int := 30 * 1000

/-- `OUTBOX_MAX_SIZE`. -/
def outboxMaxSize : Nat := 4 * 1024

namespace Client

/-- `esp_mqtt_client_init` and the start of the task. Before the first connection there is no buffer. -/
def espMqttClientStart (outBuffer : Bytes) : Client where
  outBuffer := outBuffer
  connection := Connection.mqttMsgInit []
  state := .init
  run := true
  pendingMsgId := 0
  pendingMsgType := 0
  pendingPublishQos := 0
  pendingMsgCount := 0
  waitForPingResp := false
  outbox := []
  sent := none
  closed := []

/-! ## §2 — writing -/

/-- `mqtt_write_data`. To write nothing is an error. -/
def mqttWriteData (c : Client) (reply : WriteReply) (bytes : Bytes) : Bool × Client :=
  match c.sent, reply with
  | some sent, .taken => if bytes = [] then (false, c) else (true, { c with sent := some (sent ++ bytes) })
  | _, _ => (false, c)

/-- `esp_transport_close`. -/
def espTransportClose (c : Client) : Client := { c with closed := c.sent.toList ++ c.closed, sent := none }

def espMqttAbortConnection (c : Client) : Client :=
  { c.espTransportClose with state := .waitTimeout, waitForPingResp := false }

/-- `mqtt_get_type` of the message, where there is a buffer: it reads from its address. -/
def outboundType (connection : Connection) : Nat := mqttGetType (connection.buffer.drop connection.data)

/-- `mqtt_enqueue_oversized`. -/
def mqttEnqueueOversized (c : Client) (remainingData : Bytes) (tick : Int) : Client :=
  let message : OutboxMessage :=
    { data := c.connection.message
      msgId := c.pendingMsgId
      msgType := c.pendingMsgType
      msgQos := c.pendingPublishQos
      remainingData := remainingData }
  { c with outbox := c.outbox.outboxEnqueue message tick }

def mqttEnqueue (c : Client) (tick : Int) : Client :=
  if c.pendingMsgCount > 0 then c.mqttEnqueueOversized [] tick else c

def outboxSetPending (c : Client) (msgId : UInt16) (pending : PendingState) : Client :=
  { c with outbox := c.outbox.outboxSetPending msgId pending }

/-! ## §3 — the calls of the application -/

/-- The next piece of a message is at the front of the buffer. -/
def nextPiece (connection : Connection) (piece : Bytes) : Connection :=
  { connection with buffer := Words.overlay connection.buffer 0 piece, data := 0, length := piece.length }

/-- The loop of `esp_mqtt_client_publish`, with `remaining` bytes to send from `position` on; `none` if it goes
on for longer. -/
def sendRounds (qos : Int) (data : Bytes) (tick : Int) :
    (rounds : Nat) → Client → List WriteReply → (position remaining : Int) → Option (Bool × Client)
  | 0, _, _, _, _ => none
  | rounds + 1, c, replies, position, remaining =>
    match c.mqttWriteData (replies.headD .taken) c.connection.message with
    | (false, c) => some (false, c.espMqttAbortConnection)
    | (true, c) =>
      let dataSent := c.connection.dataSent
      let remaining := remaining - dataSent
      let position := position + dataSent
      if remaining > 0 then
        let c :=
          if c.connection.fragmentedMsgDataOffset ≠ 0 then
            let c := { c with connection := { c.connection with
              fragmentedMsgDataOffset := 0
              fragmentedMsgTotalLength := 0 } }
            -- the message is still the first piece of the packet
            if qos > 0 then c.mqttEnqueueOversized (data.drop position.toNat |>.take remaining.toNat) tick else c
          else c
        let piece := (data.drop position.toNat).take (min remaining.toNat c.connection.bufferLength)
        sendRounds qos data tick rounds { c with connection := nextPiece c.connection piece } replies.tail
          position remaining
      else some (true, c)

/-- The payload: all of a string, or as many bytes as the call says. -/
def payloadOf (data : Bytes) (len : Int) : Bytes := if len ≤ 0 then cstr data else data.take len.toNat

/-- `esp_mqtt_client_publish`, `none` for a loop that does not end, and where the type of a message is read
that has no address. -/
def espMqttClientPublish (c : Client) (draw : UInt16) (topic data : Bytes) (len qos retain tick : Int)
    (replies : List WriteReply) : Option (UInt16 × Client) :=
  let data := payloadOf data len
  let (connection, pendingMsgId) := c.connection.mqttMsgPublish draw 0 topic data qos retain
  -- before the first connection the buffer is the null pointer, and so is the message
  if qos > 0 ∧ connection.buffer = [] then none
  else
    let c := { c with connection := connection }
    let c :=
      if qos > 0 then
        let c := { c with
          pendingMsgType := outboundType connection
          pendingMsgId := pendingMsgId
          pendingPublishQos := qos
          pendingMsgCount := c.pendingMsgCount + 1 }
        if connection.fragmentedMsgTotalLength = 0 then c.mqttEnqueue tick else c
      else c
    if c.state ≠ .connected then some (0, c)
    else
      match sendRounds qos data tick (data.length + 2) c replies 0 data.length with
      | none => none
      | some (false, c) => some (0, c)
      | some (true, c) =>
        some (pendingMsgId, if qos > 0 then c.outboxSetPending pendingMsgId .transmitted else c)

/-- The end of a request, whose message and identifier are made. The client is connected, and has a buffer. -/
def request (c : Client) (made : Connection × UInt16) (tick : Int) (reply : WriteReply) : Int × Client :=
  let c := { c with
    connection := made.1
    pendingMsgId := made.2
    pendingMsgType := outboundType made.1
    pendingMsgCount := c.pendingMsgCount + 1 }
  let c := (c.mqttEnqueue tick).outboxSetPending made.2 .transmitted
  match c.mqttWriteData reply c.connection.message with
  | (false, c) => (-1, c)
  | (true, c) => (made.2.toNat, c)

def espMqttClientSubscribe (c : Client) (draw : UInt16) (topic : Bytes) (qos tick : Int)
    (reply : WriteReply) : Int × Client :=
  if c.state ≠ .connected then (-1, c)
  else c.request (c.connection.mqttMsgSubscribe draw c.pendingMsgId topic qos) tick reply

def espMqttClientUnsubscribe (c : Client) (draw : UInt16) (topic : Bytes) (tick : Int)
    (reply : WriteReply) : Int × Client :=
  if c.state ≠ .connected then (-1, c)
  else c.request (c.connection.mqttMsgUnsubscribe draw c.pendingMsgId topic) tick reply

def espMqttClientStop (c : Client) (reply : WriteReply) : Client :=
  if c.run then
    let c :=
      if c.state = .connected then
        let c := { c with connection := c.connection.mqttMsgDisconnect }
        (c.mqttWriteData reply c.connection.message).2
      else c
    { c with run := false, state := .unknown }
  else c

/-! ## §4 — the parts of the task -/

/-- `esp_mqtt_connect`, when `answer` is the packet that `mqtt_message_receive` then finds, if any. -/
def espMqttConnect (c : Client) (info : ConnectInfo) (reply : WriteReply) (answer : Option Bytes) :
    Bool × Client :=
  let memory := if c.connection.buffer = [] then c.outBuffer else c.connection.buffer
  -- the length of the buffer is stored in 16 bits
  let connection := (Connection.mqttMsgInit (memory.take (memory.length % 2 ^ 16))).mqttMsgConnect info
  let c := { c with
    connection := connection
    waitForPingResp := false
    pendingMsgType := outboundType connection
    pendingMsgId := mqttGetId (connection.buffer.drop connection.data) (UInt16.ofNat connection.length) }
  match reply with
  | .failed => (false, c)
  | .timeout => (answered, c)
  | .taken => (answered, { c with sent := c.sent.map (· ++ connection.message) })
where
  answered : Bool := answer.any fun inBuffer => mqttGetType inBuffer = 2 ∧ mqttGetConnectReturnCode inBuffer = 0

/-- `MQTT_STATE_INIT`; `opened` says whether the transport connects. -/
def connectRound (c : Client) (opened : Bool) (info : ConnectInfo) (reply : WriteReply)
    (answer : Option Bytes) : Client :=
  if opened then
    match { c with sent := some [] }.espMqttConnect info reply answer with
    | (false, c) => c.espMqttAbortConnection
    | (true, c) => { c with state := .connected }
  else c.espMqttAbortConnection

/-- `is_valid_mqtt_msg`. -/
def isValidMqttMsg (c : Client) (msgType : Nat) (msgId : UInt16) : Bool × Client :=
  if c.pendingMsgCount = 0 then (false, c)
  else
    match c.outbox.outboxDelete msgId msgType with
    | some outbox => (true, { c with outbox := outbox, pendingMsgCount := c.pendingMsgCount - 1 })
    | none =>
      if c.pendingMsgType = msgType ∧ c.pendingMsgId = msgId then
        (true, { c with pendingMsgCount := c.pendingMsgCount - 1 })
      else (false, c)

/-- The answer to a packet. -/
def respond (c : Client) (connection : Connection) (reply : WriteReply) : Bool × Client :=
  { c with connection := connection }.mqttWriteData reply connection.message

/-- `mqtt_process_receive` from where a packet is in the buffer; `delivered` is what `deliver_publish` returns
and `draw` the identifier that takes the place of zero. -/
def mqttProcessReceive (c : Client) (inBuffer : Bytes) (messageLength : Nat) (delivered : Bool)
    (draw : UInt16) (reply : WriteReply) : Bool × Client :=
  let msgId := mqttGetId inBuffer (UInt16.ofNat messageLength)
  match mqttGetType inBuffer with
  | 9 => (true, (c.isValidMqttMsg 8 msgId).2)
  | 11 => (true, (c.isValidMqttMsg 10 msgId).2)
  | 3 =>
    if delivered then
      if mqttGetQos inBuffer = 1 then c.respond (c.connection.mqttMsgPuback draw msgId) reply
      else if mqttGetQos inBuffer = 2 then c.respond (c.connection.mqttMsgPubrec draw msgId) reply
      else (true, c)
    else (false, c)
  | 4 =>
    match c.isValidMqttMsg 3 msgId with
    | (true, c) => (true, c.outboxSetPending msgId .confirmed)
    | (false, c) => (true, c)
  | 5 => (true, ((c.outboxSetPending msgId .confirmed).respond (c.connection.mqttMsgPubrel draw msgId) reply).2)
  | 6 => (true, (c.respond (c.connection.mqttMsgPubcomp draw msgId) reply).2)
  | 7 => (true, (c.isValidMqttMsg 3 msgId).2)
  | 13 => (true, { c with waitForPingResp := false })
  | _ => (true, c)

/-- `mqtt_resend_queued` of the first item in this state, and the state that it has then. -/
def resend (c : Client) (pending : PendingState) (reply : WriteReply) : Client :=
  match c.outbox.outboxDequeue pending with
  | none => c
  | some item =>
    let dup : Bool := item.msgType = 3 ∧ item.msgQos = 2
    let c := { c with
      pendingMsgId := item.msgId
      pendingMsgType := item.msgType
      pendingPublishQos := item.msgQos
      outbox := if dup then c.outbox.setDup pending else c.outbox }
    match c.mqttWriteData reply (if dup then mqttSetDup item.buffer else item.buffer) with
    | (false, c) => c.espMqttAbortConnection
    | (true, c) => if pending = .queued then c.outboxSetPending c.pendingMsgId .transmitted else c

/-- `esp_mqtt_client_ping`, when it is time. -/
def keepAlive (c : Client) (reply : WriteReply) : Client :=
  if c.waitForPingResp then { c.espMqttAbortConnection with waitForPingResp := false }
  else
    match c.respond c.connection.mqttMsgPingreq reply with
    | (false, c) => c.espMqttAbortConnection
    | (true, c) => { c with waitForPingResp := true }

def expire (c : Client) (tick : Int) : Client :=
  let (outbox, deleted) := c.outbox.outboxDeleteExpired tick outboxExpiredTimeoutMs
  let count := c.pendingMsgCount - deleted
  { c with outbox := outbox, pendingMsgCount := if count < 0 then 0 else count }

/-! ## §5 — the steps -/

inductive Event where
  | publish (draw : UInt16) (topic data : Bytes) (len : Int) (qos : Fin 3) (retain : Bool) (tick : Int)
      (replies : List WriteReply)
  | subscribe (draw : UInt16) (topic : Bytes) (qos : Fin 3) (tick : Int) (reply : WriteReply)
  | unsubscribe (draw : UInt16) (topic : Bytes) (tick : Int) (reply : WriteReply)
  | stop (reply : WriteReply)
  | connect (opened : Bool) (info : ConnectInfo) (reply : WriteReply) (answer : Option Bytes)
  | receive (inBuffer : Bytes) (messageLength : Nat) (delivered : Bool) (draw : UInt16) (reply : WriteReply)
  /-- A message that was not sent yet, or one `again`. -/
  | resend (again : Bool) (reply : WriteReply)
  | keepAlive (reply : WriteReply)
  /-- A read failed, or it is time for a new connection. -/
  | abort (refresh : Bool)
  | expire (tick : Int)
  | cleanup
  | retry (autoReconnect : Bool)
  /-- The task has seen that it should not run. -/
  | finish
  deriving DecidableEq, Repr

/-- A part of `MQTT_STATE_CONNECTED`. -/
def connectedStep (c : Client) : Event → Client
  | .receive inBuffer messageLength delivered draw reply =>
    match c.mqttProcessReceive inBuffer messageLength delivered draw reply with
    | (true, c) => c
    | (false, c) => c.espMqttAbortConnection
  | .resend again reply => c.resend (if again then .transmitted else .queued) reply
  | .keepAlive reply => c.keepAlive reply
  | .abort refresh =>
    if refresh then { c.espMqttAbortConnection with state := .init } else c.espMqttAbortConnection
  | _ => c

/-- A part of the task. -/
def taskStep (c : Client) : Event → Client
  | .connect opened info reply answer =>
    if c.state = .init then c.connectRound opened info reply answer else c
  | .expire tick => c.expire tick
  | .cleanup => { c with outbox := c.outbox.outboxCleanup outboxMaxSize }
  | .retry autoReconnect =>
    if c.state = .waitTimeout then
      if autoReconnect then { c with state := .init } else { c with run := false, state := .unknown }
    else c
  | e => if c.state = .connected then c.connectedStep e else c

/-- One step. A publication that does not come to an end is left out. -/
def step (c : Client) : Event → Client
  | .publish draw topic data len qos retain tick replies =>
    match c.espMqttClientPublish draw topic data len (qos.val : Nat) (if retain then 1 else 0) tick replies with
    | some (_, c) => c
    | none => c
  | .subscribe draw topic qos tick reply => (c.espMqttClientSubscribe draw topic (qos.val : Nat) tick reply).2
  | .unsubscribe draw topic tick reply => (c.espMqttClientUnsubscribe draw topic tick reply).2
  | .stop reply => c.espMqttClientStop reply
  | .finish => if c.run then c else c.espTransportClose
  | e => if c.run then c.taskStep e else c

end Client

end Espmod.EspMqtt
