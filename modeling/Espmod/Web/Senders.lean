/-
# Espmod.Web.Senders — what the test bench sends to the firmware

`webclient::send` puts a port prefix in front of its bytes when the port has changed. Whether it
doubles a `0xff` among them is left to its callers: the argument `escape` is `false` by default, the
senders of MQTT packets, of NTP answers and of requests leave it there, and only the answer to a page
sets it.

A sender is modelled by the calls of `send` it makes, in order.
-/
import Espmod.Socket.Send
import Espmod.Socket.Feed

namespace Espmod.Web

open Espmod.Lib.Text Espmod.Socket

/-! ## §1 — `webclient::send` -/

/-- `snprintf(portmsg, 10, "\\xff%d:", port)`. -/
def portmsg (port : Int) : Bytes := (portPrefix port).take 9

/-- What `send` writes in front of its bytes. -/
def sendport (lastport port : Int) : Bytes :=
  if port ≥ 0 ∧ lastport ≠ port then portmsg port else []

/-- The loop of `send` over its bytes. -/
def sendbytes (msg : Bytes) (escape : Bool) : Bytes :=
  msg.flatMap fun c => if c = 0xff ∧ escape then [c, c] else [c]

/-- **`webclient::send`**: the characters it writes into the channel. Its static `lastport` goes on as
that of `__espm_sendmsg`. -/
def send (lastport port : Int) (msg : Bytes) (escape : Bool) : Bytes :=
  sendport lastport port ++ sendbytes msg escape

/-- The bytes a caller hands to `send`, and whether it wants them escaped. -/
structure Piece where
  msg : Bytes
  escape : Bool
  deriving DecidableEq, Repr

/-- `send` of a C string. -/
def sendstr (msg : Bytes) (escape : Bool) : Piece := ⟨cstr msg, escape⟩

/-- `sendf`, whose buffer has 128 characters. -/
def sendf (escape : Bool) (text : Bytes) : Piece := sendstr (text.take 127) escape

/-- `sendaddress`: blanks become `%20`. -/
def sendaddress (msg : Bytes) (escape : Bool) : Piece :=
  ⟨(cstr msg).flatMap fun c => if c = chr ' ' then str "%20" else [c], escape⟩

/-! ## §2 — MQTT and NTP -/

/-- `mqtt_type_t`. -/
inductive MqttType where
  | CONNECT
  | CONNACK
  | PUBLISH
  | PUBACK
  | PUBREC
  | PUBREL
  | PUBCOMP
  | SUBSCRIBE
  | SUBACK
  deriving DecidableEq, Repr

/-- The value of the enumeration constant. -/
def MqttType.val : MqttType → Int
  | CONNECT => 1
  | CONNACK => 2
  | PUBLISH => 3
  | PUBACK => 4
  | PUBREC => 5
  | PUBREL => 6
  | PUBCOMP => 7
  | SUBSCRIBE => 8
  | SUBACK => 9

/-- What an `unsigned char` keeps of a value. -/
def byte (v : Int) : UInt8 := UInt8.ofNat (v % 256).toNat

/-- `(v & 0xff00) >> 8` and `v & 0x0ff`. -/
def word (v : Int) : Bytes := [byte (v / 256), byte v]

/-- The four bytes of `(v>>24) & 0xff` down to `v & 0xff`. -/
def dword (v : Int) : Bytes := [byte (v / 2 ^ 24), byte (v / 2 ^ 16), byte (v / 2 ^ 8), byte v]

/-- `sendmqtt`. The answers of a `SUBACK` are left as the fresh array has them: the loop writes behind
its end instead. `memory` is what they are. -/
def sendmqtt (packettype : MqttType) (packetid c0 : Int) (memory : Nat → UInt8) : List Piece :=
  match packettype with
  | .CONNACK => [⟨[byte (packettype.val * 16), 2] ++ word c0, false⟩]
  | .SUBACK =>
    [⟨([byte (packettype.val * 16), byte (2 + c0)] ++ word packetid ++
      (List.range c0.toNat).map memory).take (4 + c0).toNat, false⟩]
  | .PUBACK | .PUBREC | .PUBCOMP => [⟨[byte (packettype.val * 16), 2] ++ word packetid, false⟩]
  | _ => []

/-- `publishmqtt`. The packet is laid out with the packet identifier, and its length counted without:
the last two bytes of the payload are not sent. -/
def publishmqtt (topic : Bytes) (packetid : Int) (payload : Bytes) : List Piece :=
  let topic := cstr topic
  let packlen := 2 + 2 + topic.length + payload.length
  [⟨([byte (MqttType.PUBLISH.val * 16), byte (packlen - 2)] ++ word topic.length ++ topic ++
    word packetid ++ payload).take packlen, false⟩]

/-- `respondntp`: the 48 bytes of the request with the new times in the words 8 to 11. -/
def respondntp (request : Bytes) (trec tsend : Int) : List Piece :=
  [⟨request.take 32 ++ dword trec ++ [0, 0, 0, 0] ++ dword tsend ++ [0, 0, 0, 0], false⟩]

/-! ## §3 — pages -/

section Pages

-- `base64_encode_chars`: the text it leaves for a buffer and a length, if it succeeds
variable (encode : Bytes → Nat → Option Bytes)

/-- `sendifauth`. -/
def sendifauth (auth : Option Bytes) (escape : Bool) : List Piece :=
  match auth with
  | none => []
  | some auth =>
    let passphrase := str "admin:" ++ cstr auth
    match encode (passphrase.take 13) passphrase.length with
    | none => []
    | some key => [sendf escape (str "Authorization: Basic " ++ cstr key ++ str "\r\n")]

/-- `requestpage`. -/
def requestpage (path : Bytes) (auth : Option Bytes) : List Piece :=
  [sendf false (str "GET " ++ cstr path ++ str " HTTP/1.1\r\n"),
    sendf false (str "Host: www.webclient.com.br\r\n")] ++
    sendifauth encode auth false ++ [sendf false (str "\r\n")]

/-- The form arguments, `name=value`, with a `&` behind all but the last. -/
def sendargs : List (Bytes × Bytes) → List Piece
  | [] => []
  | [(name, value)] => [sendaddress (name ++ str "=" ++ value) true]
  | (name, value) :: args => sendaddress (name ++ str "=" ++ value ++ str "&") true :: sendargs args

/-- `answerpage`. -/
def answerpage (path : Bytes) (args : List (Bytes × Bytes)) (auth : Option Bytes) : List Piece :=
  [sendstr (str "POST ") true, sendaddress path true, sendaddress (str "?") true] ++ sendargs args ++
    [sendstr (str " HTTP/1.1\r\n") true, sendstr (str "Host: www.webclient.com.br\r\n") true] ++
    sendifauth encode auth true ++ [sendstr (str "\r\n") true]

/-- A call of one of the payload senders. -/
inductive Payload where
  | sendmqtt (packettype : MqttType) (packetid c0 : Int) (memory : Nat → UInt8)
  | publishmqtt (topic : Bytes) (packetid : Int) (payload : Bytes)
  | respondntp (request : Bytes) (trec tsend : Int)
  | requestpage (path : Bytes) (auth : Option Bytes)
  | answerpage (path : Bytes) (args : List (Bytes × Bytes)) (auth : Option Bytes)

/-- **What a sender hands to `webclient::send`.** -/
def Payload.pieces : Payload → List Piece
  | sendmqtt packettype packetid c0 memory => Web.sendmqtt packettype packetid c0 memory
  | publishmqtt topic packetid payload => Web.publishmqtt topic packetid payload
  | respondntp request trec tsend => Web.respondntp request trec tsend
  | requestpage path auth => Web.requestpage encode path auth
  | answerpage path args auth => Web.answerpage encode path args auth

/-- A page is answered in escaped pieces only. -/
theorem answerpage_escapes (path : Bytes) (args : List (Bytes × Bytes)) (auth : Option Bytes) :
    ∀ p ∈ answerpage encode path args auth, p.escape = true := by
  have hauth : ∀ p ∈ sendifauth encode auth true, p.escape = true := by
    intro p hp
    unfold sendifauth at hp
    split at hp
    · cases hp
    · dsimp only at hp
      split at hp
      · cases hp
      · rw [List.mem_singleton.mp hp]
        rfl
  have hargs : ∀ p ∈ sendargs args, p.escape = true := by
    induction args using sendargs.induct with
    | case1 =>
      intro p hp
      cases hp
    | case2 name value =>
      intro p hp
      rw [List.mem_singleton.mp hp]
      rfl
    | case3 name value args hne ih =>
      intro p hp
      rw [sendargs] at hp
      · rcases List.mem_cons.mp hp with rfl | hp
        · rfl
        · exact ih p hp
      · exact hne
  have hfixed : ∀ ps : List Piece, ps.all (·.escape) = true → ∀ p ∈ ps, p.escape = true := by
    intro ps hps
    exact List.all_eq_true.mp hps
  intro p hp
  simp only [answerpage, List.mem_append] at hp
  rcases hp with (((hp | hp) | hp) | hp) | hp
  · exact hfixed _ rfl p hp
  · exact hargs p hp
  · exact hfixed _ rfl p hp
  · exact hauth p hp
  · rw [List.mem_singleton.mp hp]
    rfl

end Pages

/-! ## §4 — what `send` writes -/

theorem sendbytes_escaped (msg : Bytes) : sendbytes msg true = escaped msg := by
  simp only [sendbytes, escaped, and_true]

theorem sendbytes_raw (msg : Bytes) : sendbytes msg false = msg := by
  unfold sendbytes
  simp

/-- Bytes without a `0xff` are written as they travel, escaped or not. -/
theorem sendbytes_plain {msg : Bytes} (hff : 0xff ∉ msg) (escape : Bool) :
    sendbytes msg escape = escaped msg := by
  cases escape with
  | false => rw [sendbytes_raw, escaped_of_notMem hff]
  | true => exact sendbytes_escaped msg

end Espmod.Web
