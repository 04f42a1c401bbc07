/-
# Espmod.EspMqtt.Encode — the messages are control packets

Every message of `mqtt_msg.c` is a control packet of MQTT 3.1.1, or empty. `Build` is a call with arguments
that the protocol allows, and `packet` what it should make of them. `messages_encoded` says when the two are
the same, whatever was in the buffer before: as long as the packet fits, and for a `PUBLISH` as long as all
but its payload does, of which the message then has the first piece.
-/
import Espmod.EspMqtt.Msg
import Mathlib.Tactic.IntervalCases

namespace Espmod.EspMqtt

open Espmod.Lib Espmod.Lib.Text Espmod.Lib.Words Espmod.Lib.Window

attribute [local instance] neZero_three

/-! ## §1 — the fixed header -/

namespace Connection

theorem encodedLens_eq (more : Nat) : ∀ {n : Nat}, n < 128 ^ (more + 1) →
    encodedLens (more + 1) n = Mqtt.lengthBytes more n := by
  induction more with
  | zero =>
    intro n hn
    rw [Nat.zero_add, Nat.pow_one] at hn
    rw [encodedLens, if_neg (by omega), Mqtt.lengthBytes, Nat.mod_eq_of_lt hn]
  | succ more ih =>
    intro n hn
    rw [encodedLens, Mqtt.lengthBytes]
    by_cases hlt : n < 128
    · rw [if_pos hlt, if_neg (by omega), Nat.mod_eq_of_lt hlt]
    · have hdiv : n / 128 < 128 ^ (more + 1) := by
        apply Nat.div_lt_of_lt_mul
        rwa [Nat.pow_succ, Nat.mul_comm] at hn
      have hor : n % 128 ||| 0x80 = n % 128 + 128 := by
        have hmod : n % 128 < 2 ^ 7 := Nat.mod_lt n (by decide)
        rw [Nat.or_comm, Nat.add_comm]
        exact (Nat.two_pow_add_eq_or_of_lt hmod 1).symm
      rw [if_neg hlt, if_pos (by omega), ih hdiv, hor]

/-- **The length field**, of any length that four bytes can hold. -/
theorem encodedLens_lengthField {n : Nat} (hn : n < 2 ^ 28) : encodedLens 4 n = Mqtt.lengthField n :=
  encodedLens_eq 3 hn

/-- The fields of the first byte do not overlap. -/
theorem firstByte_eq : ∀ type < 16, ∀ qos < 4, ∀ retain < 2,
    firstByte type 0 (qos : Nat) (retain : Nat) = UInt8.ofNat (type * 16 + (2 * qos + retain)) := by
  decide

end Connection

/-- The bytes of a packet of this type with these flags. -/
def packetBytes (first : UInt8) (remaining : Nat) (body : Bytes) : Bytes :=
  first :: (Mqtt.lengthField remaining ++ body)

namespace Connection

variable {c : Connection} {body : Bytes}

/-- What the length field says. -/
def remaining (c : Connection) (body : Bytes) : Nat :=
  if c.fragmentedMsgTotalLength ≠ 0 then c.fragmentedMsgTotalLength - 5 else body.length

/-- **The end of a message**: the header stands directly in front of what was appended. -/
theorem Filled.finiMessage (h : c.Filled body) (hlen : c.remaining body < 2 ^ 28) (type dup : Nat)
    (qos retain : Int) :
    (c.finiMessage type dup qos retain).message =
        packetBytes (firstByte type dup qos retain) (c.remaining body) body ∧
      (c.finiMessage type dup qos retain).frame = (c.bufferLength, c.fragmentedMsgTotalLength,
        c.fragmentedMsgDataOffset - BitVec.ofNat 32 (4 - (Mqtt.lengthField (c.remaining body)).length)) := by
  have hremaining : (if c.fragmentedMsgTotalLength ≠ 0 then
      c.fragmentedMsgTotalLength - maxFixedHeaderSize else c.length - maxFixedHeaderSize) =
        c.remaining body := by
    unfold remaining maxFixedHeaderSize
    rw [h.length, Nat.add_sub_cancel_left]
  obtain ⟨hpos, hle⟩ := Mqtt.length_lengthField (c.remaining body)
  have hfits := h.fits
  have hlength := h.length
  unfold bufferLength at hfits
  generalize hlens : Mqtt.lengthField (c.remaining body) = lens at hpos hle
  have hroom : (4 - lens.length) + (firstByte type dup qos retain :: lens).length ≤ c.buffer.length := by
    rw [List.length_cons]
    omega
  unfold Connection.finiMessage
  dsimp only
  rw [hremaining, encodedLens_lengthField hlen, hlens, if_neg (by unfold maxFixedHeaderSize; omega)]
  constructor
  · -- the header ends where the variable header begins
    have hend : 4 - lens.length + (firstByte type dup qos retain :: lens).length = 5 := by
      rw [List.length_cons]
      omega
    have hwhole : c.length - maxFixedHeaderSize + lens.length + 1 =
        (firstByte type dup qos retain :: lens).length + body.length := by
      rw [List.length_cons, hlength]
      unfold maxFixedHeaderSize
      omega
    show window (overlay c.buffer (4 - lens.length) _) (4 - lens.length) _ = _
    rw [hwhole, window_prepend hroom, hend, h.body, packetBytes, hlens]
    rfl
  · have hbuffer := overlay_length hroom
    unfold frame bufferLength
    exact congrArg (fun n => (n, _, _)) hbuffer

end Connection

/-! ## §2 — the fields of a `CONNECT` -/

namespace ConnectInfo

/-- What the will adds to the flags. -/
def willFlags (info : ConnectInfo) (x : UInt8) : UInt8 :=
  if info.willTopic = [] then x
  else (if info.willRetain then x ||| UInt8.ofNat (1 <<< 2) ||| UInt8.ofNat (1 <<< 5)
    else x ||| UInt8.ofNat (1 <<< 2)) ||| UInt8.ofNat ((info.willQos % 4).toNat <<< 3)

/-- What a name or a password adds. -/
def credentialFlags (s : Bytes) (flag : Nat) (x : UInt8) : UInt8 :=
  if s = [] then x else x ||| UInt8.ofNat flag

/-- The bytes of the will. -/
def willFields (info : ConnectInfo) : Bytes :=
  if info.willTopic = [] then [] else Mqtt.text info.willTopic ++ Mqtt.text info.willMessage

def credential (s : Bytes) : Bytes := if s = [] then [] else Mqtt.text s

/-- The flags of a `CONNECT`. -/
def flags (info : ConnectInfo) : Nat :=
  (if info.cleanSession then 2 else 0) +
    (if info.willTopic = [] then 0
      else 4 + 8 * (info.willQos % 4).toNat + if info.willRetain then 32 else 0) +
    (if info.password = [] then 0 else 64) + if info.username = [] then 0 else 128

/-- The variable header and the payload of a `CONNECT`. -/
def body (info : ConnectInfo) : Bytes :=
  connectHeader info (UInt8.ofNat info.flags) ++ Mqtt.text info.clientId ++ info.willFields ++
    credential info.username ++ credential info.password

/-- The flags that are set one after the other are those of the packet. -/
theorem flags_eq (info : ConnectInfo) :
    credentialFlags info.password (1 <<< 6) (credentialFlags info.username (1 <<< 7)
      (info.willFlags (if info.cleanSession then (0 : UInt8) ||| UInt8.ofNat (1 <<< 1) else 0))) =
        UInt8.ofNat info.flags := by
  have hqos : (info.willQos % 4).toNat < 4 := by omega
  unfold credentialFlags willFlags flags
  generalize (info.willQos % 4).toNat = qos at hqos
  -- the flags have bits of their own
  split_ifs <;> interval_cases qos <;> rfl

end ConnectInfo

namespace Connection

variable {c : Connection} {info : ConnectInfo} {x : UInt8} {rest : Bytes} {f : Nat × Nat × BitVec 32}

/-- **A flag** is set in the variable header, whatever stands behind it. -/
theorem Filled.orFlags (h : c.Filled (connectHeader info x ++ rest)) (flag : Nat) :
    (c.orFlags flag).Filled (connectHeader info (x ||| UInt8.ofNat flag) ++ rest) ∧
      (c.orFlags flag).frame = c.frame := by
  have hlength : (c.buffer.modify (maxFixedHeaderSize + 7) (· ||| UInt8.ofNat flag)).length =
      c.buffer.length := List.length_modify ..
  refine ⟨⟨h.length, ?_, ?_⟩, ?_⟩
  · show c.length ≤ (c.buffer.modify _ _).length
    rw [hlength]
    exact h.fits
  · show window (c.buffer.modify (5 + 7) _) 5 (connectHeader info x ++ rest).length = _
    rw [window_modify, h.body]
    rfl
  · unfold frame bufferLength
    exact congrArg (fun n => (n, _, _)) hlength

theorem Filled.appendWill (h : c.Filled (connectHeader info x ++ rest)) (hf : c.frame = f) :
    Gives f (c.appendWill info)
      (connectHeader info (info.willFlags x) ++ (rest ++ info.willFields)) := by
  unfold Connection.appendWill ConnectInfo.willFlags ConnectInfo.willFields
  split
  · rw [List.append_nil]
    exact ⟨h, hf⟩
  · refine (h.appendString hf _).bind ?_ fun c₁ h₁ hf₁ => ?_
    · simp only [List.length_append]
      simp [connectHeader]
      omega
    refine (h₁.appendString hf₁ _).bind ?_ fun c₂ h₂ hf₂ => ?_
    · simp [connectHeader]
    rw [List.append_assoc, List.append_assoc] at h₂
    obtain ⟨h₃, hf₃⟩ := h₂.orFlags (1 <<< 2)
    have hf₃ := hf₃.trans hf₂
    cases info.willRetain with
    | true =>
      obtain ⟨h₄, hf₄⟩ := h₃.orFlags (1 <<< 5)
      obtain ⟨h₅, hf₅⟩ := h₄.orFlags ((info.willQos % 4).toNat <<< 3)
      exact ⟨h₅, hf₅.trans (hf₄.trans hf₃)⟩
    | false =>
      obtain ⟨h₅, hf₅⟩ := h₃.orFlags ((info.willQos % 4).toNat <<< 3)
      exact ⟨h₅, hf₅.trans hf₃⟩

theorem Filled.appendCredential (h : c.Filled (connectHeader info x ++ rest)) (hf : c.frame = f)
    (s : Bytes) (flag : Nat) :
    Gives f (c.appendCredential s flag)
      (connectHeader info (ConnectInfo.credentialFlags s flag x) ++
        (rest ++ ConnectInfo.credential s)) := by
  unfold Connection.appendCredential ConnectInfo.credentialFlags ConnectInfo.credential
  split
  · rw [List.append_nil]
    exact ⟨h, hf⟩
  · refine (h.appendString hf s).bind ?_ fun c₁ h₁ hf₁ => ?_
    · simp [connectHeader]
    rw [List.append_assoc] at h₁
    obtain ⟨h₂, hf₂⟩ := h₁.orFlags flag
    exact ⟨h₂, hf₂.trans hf₁⟩

theorem Filled.appendVariableHeader {c : Connection} (h : c.Filled []) (hf : c.frame = f) :
    Gives f (c.appendVariableHeader info) (connectHeader info
      (if info.cleanSession then (0 : UInt8) ||| UInt8.ofNat (1 <<< 1) else 0) ++ []) := by
  have hbuf := bufferLength_of_frame hf
  have hlength := h.length
  have hheader : ∀ x, (connectHeader info x).length = 10 := fun x => rfl
  unfold Connection.appendVariableHeader
  split
  · refine ⟨?_, hf⟩
    rw [List.length_append, hheader, List.length_nil]
    rw [List.length_nil] at hlength
    omega
  · obtain ⟨h₁, hf₁⟩ := h.put (connectHeader info 0) (by rw [hheader]; omega)
    rw [List.nil_append, ← List.append_nil (connectHeader info 0)] at h₁
    cases info.cleanSession with
    | true =>
      obtain ⟨h₂, hf₂⟩ := h₁.orFlags (1 <<< 1)
      exact ⟨h₂, hf₂.trans (hf₁.trans hf)⟩
    | false => exact ⟨h₁, hf₁.trans hf⟩

/-- **The fields of a `CONNECT`**, all of them or an error. -/
theorem Filled.appendConnect {c : Connection} (h : c.Filled []) (hf : c.frame = f)
    (hid : info.clientId ≠ []) :
    Gives f (do
      let c ← c.appendVariableHeader info
      let c ← c.appendClientId info
      let c ← c.appendWill info
      let c ← c.appendCredential info.username (1 <<< 7)
      c.appendCredential info.password (1 <<< 6)) info.body := by
  have hbuf := bufferLength_of_frame hf
  have hlength := h.length
  have hheader : ∀ x, (connectHeader info x).length = 10 := fun x => rfl
  have hbody : info.body.length = 10 + (Mqtt.text info.clientId).length + info.willFields.length +
      (ConnectInfo.credential info.username).length + (ConnectInfo.credential info.password).length := by
    simp only [ConnectInfo.body, List.length_append, hheader]
  refine (h.appendVariableHeader hf).bind (by simp only [List.length_append, hheader, hbody, List.length_nil]; omega)
    fun c₁ h₁ hf₁ => ?_
  have hclient : Gives f (c₁.appendClientId info) (connectHeader info
      (if info.cleanSession then (0 : UInt8) ||| UInt8.ofNat (1 <<< 1) else 0) ++
        Mqtt.text info.clientId) := by
    unfold Connection.appendClientId
    rw [if_pos hid]
    rw [List.append_nil] at h₁
    exact h₁.appendString hf₁ _
  refine hclient.bind (by simp only [List.length_append, hheader, hbody]; omega) fun c₂ h₂ hf₂ => ?_
  refine (h₂.appendWill hf₂).bind (by simp only [List.length_append, hheader, hbody]; omega)
    fun c₃ h₃ hf₃ => ?_
  refine (h₃.appendCredential hf₃ _ _).bind
    (by simp only [List.length_append, hheader, hbody]; omega) fun c₄ h₄ hf₄ => ?_
  have h₅ := h₄.appendCredential hf₄ info.password (1 <<< 6)
  rw [ConnectInfo.flags_eq] at h₅
  unfold ConnectInfo.body
  simp only [List.append_assoc] at h₅ ⊢
  exact h₅

/-! ## §3 — the end of a message -/

theorem message_failMessage (c : Connection) : c.failMessage.message = [] :=
  window_zero _ _

/-- **A message that is not a `PUBLISH`** has what was appended, or nothing. -/
theorem Gives.finish {r : Except Connection Connection} {body : Bytes} (h : Gives f r body)
    (htotal : f.2.1 = 0) (hn : f.1 < 2 ^ 16) (type dup : Nat) (qos retain : Int) :
    (Connection.finish r type dup qos retain).message =
        (if 5 + body.length ≤ f.1 then packetBytes (firstByte type dup qos retain) body.length body
        else []) ∧
      (Connection.finish r type dup qos retain).bufferLength = f.1 ∧
      (Connection.finish r type dup qos retain).fragmentedMsgTotalLength = 0 ∧
      ∃ offs ≤ 3, (Connection.finish r type dup qos retain).fragmentedMsgDataOffset =
        f.2.2 - BitVec.ofNat 32 offs := by
  cases r with
  | error c =>
    obtain ⟨hlt, rfl⟩ := h
    rw [if_neg (by omega)]
    exact ⟨message_failMessage c, rfl, htotal, 0, by decide, (BitVec.sub_zero _).symm⟩
  | ok c =>
    obtain ⟨h, rfl⟩ := h
    have hzero : c.fragmentedMsgTotalLength = 0 := htotal
    have hremaining : c.remaining body = body.length := by
      unfold remaining
      rw [if_neg (fun hne => hne hzero)]
    have hfits : 5 + body.length ≤ c.bufferLength := h.length ▸ h.fits
    have hlt : c.bufferLength < 2 ^ 16 := hn
    obtain ⟨hmessage, hframe⟩ := h.finiMessage (by rw [hremaining]; omega) type dup qos retain
    rw [hremaining] at hmessage hframe
    have hpos := (Mqtt.length_lengthField body.length).1
    refine ⟨?_, congrArg Prod.fst hframe, ?_, _, ?_, congrArg (fun f => f.2.2) hframe⟩
    · rw [if_pos (show 5 + body.length ≤ c.frame.1 from hfits)]
      exact hmessage
    · exact (congrArg (fun f => f.2.1) hframe).trans hzero
    · omega

/-- **The payload**: as much of it as there is room for. -/
theorem Filled.appendData {c : Connection} {head : Bytes} (h : c.Filled head) (data : Bytes) :
    (c.appendData data).Filled (head ++ data.take (c.bufferLength - c.length)) ∧
      (c.appendData data).remaining (head ++ data.take (c.bufferLength - c.length)) =
        (head ++ data).length ∧
      (c.appendData data).bufferLength = c.bufferLength ∧
      (c.appendData data).fragmentedMsgTotalLength =
        (if c.length + data.length > c.bufferLength then data.length + c.length else 0) ∧
      (c.appendData data).fragmentedMsgDataOffset =
        (if c.length + data.length > c.bufferLength then BitVec.ofNat 32 c.length
        else c.fragmentedMsgDataOffset) := by
  have hlength := h.length
  have hfits := h.fits
  unfold Connection.appendData
  split
  · next hlong =>
    obtain ⟨⟨h₁, h₂, h₃⟩, hf⟩ := h.put (data.take (c.bufferLength - c.length)) (by
      rw [List.length_take]
      omega)
    refine ⟨⟨h₁, h₂, h₃⟩, ?_, congrArg Prod.fst hf, rfl, rfl⟩
    unfold remaining
    dsimp only
    rw [if_pos (by omega), List.length_append]
    omega
  · next hshort =>
    have htake : data.take (c.bufferLength - c.length) = data := List.take_of_length_le (by omega)
    rw [htake]
    obtain ⟨⟨h₁, h₂, h₃⟩, hf⟩ := h.put data (by omega)
    refine ⟨⟨h₁, h₂, h₃⟩, ?_, congrArg Prod.fst hf, rfl, congrArg (fun f => f.2.2) hf⟩
    unfold remaining
    exact if_neg (fun hne => hne rfl)

end Connection

/-! ## §4 — calls and packets -/

/-- A call, with arguments that the protocol allows. -/
inductive Build where
  | connect (info : ConnectInfo)
  | publish (topic data : Bytes) (qos : Fin 3) (retain : Bool)
  | puback (id : UInt16)
  | pubrec (id : UInt16)
  | pubrel (id : UInt16)
  | pubcomp (id : UInt16)
  | subscribe (topic : Bytes) (qos : Fin 3)
  | unsubscribe (topic : Bytes)
  | pingreq
  | pingresp
  | disconnect

namespace Build

/-- The call itself; `draw` is the identifier it would draw. -/
def run (c : Connection) (draw : UInt16) : Build → Connection
  | connect info => c.mqttMsgConnect info
  | publish topic data qos retain =>
    (c.mqttMsgPublish draw 0 topic data (qos.val : Nat) (if retain then 1 else 0)).1
  | puback id => c.mqttMsgPuback draw id
  | pubrec id => c.mqttMsgPubrec draw id
  | pubrel id => c.mqttMsgPubrel draw id
  | pubcomp id => c.mqttMsgPubcomp draw id
  | subscribe topic qos => (c.mqttMsgSubscribe draw 0 topic (qos.val : Nat)).1
  | unsubscribe topic => (c.mqttMsgUnsubscribe draw 0 topic).1
  | pingreq => c.mqttMsgPingreq
  | pingresp => c.mqttMsgPingresp
  | disconnect => c.mqttMsgDisconnect

/-- An identifier of zero is replaced. -/
def used (draw id : UInt16) : UInt16 := if id = 0 then draw else id

/-- The packet it stands for; there is none without a topic, or without a client's identifier. -/
def packet (draw : UInt16) : Build → Option Mqtt.Packet
  | connect info => if info.clientId = [] then none else some (.other .connect info.body)
  | publish topic data qos retain =>
    if topic = [] then none else some (.publish false qos retain topic draw data)
  | puback id => some (.other .puback (Mqtt.word (used draw id).toNat))
  | pubrec id => some (.other .pubrec (Mqtt.word (used draw id).toNat))
  | pubrel id => some (.pubrel (used draw id))
  | pubcomp id => some (.other .pubcomp (Mqtt.word (used draw id).toNat))
  | subscribe topic qos => if topic = [] then none else some (.subscribe draw [(topic, qos)])
  | unsubscribe topic =>
    if topic = [] then none
    else some (.other .unsubscribe (Mqtt.word draw.toNat ++ Mqtt.text topic))
  | pingreq => some (.other .pingreq [])
  | pingresp => some (.other .pingresp [])
  | disconnect => some (.other .disconnect [])

/-- What may be sent in pieces. -/
def payload : Build → Bytes
  | publish _ data _ _ => data
  | _ => []

end Build

/-! ## §5 — the first piece of a `PUBLISH` -/

/-- The variable header of a `PUBLISH`. -/
def publishHead (draw : UInt16) (topic : Bytes) (qos : Fin 3) : Bytes :=
  Mqtt.text topic ++ if qos = 0 then [] else Mqtt.word draw.toNat

theorem body_publish (draw : UInt16) (topic data : Bytes) (qos : Fin 3) (retain : Bool) :
    (Mqtt.Packet.publish false qos retain topic draw data).body = publishHead draw topic qos ++ data :=
  rfl

/-- Its first byte. -/
theorem publish_firstByte (draw : UInt16) (topic data : Bytes) (qos : Fin 3) (retain : Bool) :
    Connection.firstByte 3 0 (qos.val : Nat) (if retain then 1 else 0) =
      UInt8.ofNat ((Mqtt.Packet.publish false qos retain topic draw data).type * 16 +
        (Mqtt.Packet.publish false qos retain topic draw data).flags) := by
  have hfirst := Connection.firstByte_eq 3 (by decide) qos.val (by omega)
  cases retain with
  | true => exact (hfirst 1 (by decide)).trans (by simp [Mqtt.Packet.flags, Mqtt.Packet.type])
  | false => exact (hfirst 0 (by decide)).trans (by simp [Mqtt.Packet.flags, Mqtt.Packet.type])

namespace Connection

/-- `data_sent` of `esp_mqtt_client_publish`, in the arithmetic of the source. -/
def dataSent (c : Connection) : Int :=
  (BitVec.ofNat 32 c.length - c.fragmentedMsgDataOffset).toInt

/-- `c'` has the first piece of the packet, with as much of `data` as there was room for in `c`. -/
structure FirstPiece (c c' : Connection) (p : Mqtt.Packet) (head data : Bytes) : Prop where
  message : c'.message ++ data.drop (c.bufferLength - (5 + head.length)) = p.encode
  bufferLength : c'.bufferLength = c.bufferLength
  total : c'.fragmentedMsgTotalLength =
    if c.bufferLength < 5 + (head ++ data).length then 5 + (head ++ data).length else 0
  dataSent : c'.dataSent =
    if c.bufferLength < 5 + (head ++ data).length then ((c.bufferLength - (5 + head.length) : Nat) : Int)
    else (BitVec.ofNat 32 (5 + (head ++ data).length) - c.fragmentedMsgDataOffset).toInt
  offset : ¬ c.bufferLength < 5 + (head ++ data).length →
    ∃ offs ≤ 3, c'.fragmentedMsgDataOffset = c.fragmentedMsgDataOffset - BitVec.ofNat 32 offs
  place : c.bufferLength < 5 + (head ++ data).length → c'.fragmentedMsgDataOffset ≠ 0

/-- The length of a message that was finished. -/
theorem Filled.length_finiMessage {c : Connection} {body : Bytes} (h : c.Filled body)
    (hlen : c.remaining body < 2 ^ 28) (type dup : Nat) (qos retain : Int) :
    (c.finiMessage type dup qos retain).length =
      body.length + (Mqtt.lengthField (c.remaining body)).length + 1 := by
  have hremaining : (if c.fragmentedMsgTotalLength ≠ 0 then
      c.fragmentedMsgTotalLength - maxFixedHeaderSize else c.length - maxFixedHeaderSize) =
        c.remaining body := by
    unfold remaining maxFixedHeaderSize
    rw [h.length, Nat.add_sub_cancel_left]
  have hle := (Mqtt.length_lengthField (c.remaining body)).2
  unfold Connection.finiMessage
  dsimp only
  rw [hremaining, encodedLens_lengthField hlen, if_neg (by unfold maxFixedHeaderSize; omega), h.length]
  unfold maxFixedHeaderSize
  rw [Nat.add_sub_cancel_left]

theorem toInt_ofNat_small {k : Nat} (h : k < 2 ^ 31) : (BitVec.ofNat 32 k).toInt = k := by
  have hnat : (BitVec.ofNat 32 k).toNat = k := by
    rw [BitVec.toNat_ofNat]
    exact Nat.mod_eq_of_lt (by omega)
  rw [BitVec.toInt_eq_toNat_of_lt (by rw [hnat]; omega), hnat]

/-- The place where the data began counts from the first byte of the message. -/
theorem sub_sub_ofNat {a b d : Nat} {x : BitVec 32} (h : a + d = b) :
    BitVec.ofNat 32 a - (x - BitVec.ofNat 32 d) = BitVec.ofNat 32 b - x := by
  subst h
  rw [BitVec.ofNat_add]
  generalize BitVec.ofNat 32 a = a, BitVec.ofNat 32 d = d
  bv_omega

/-- The end of a `PUBLISH`. -/
theorem Filled.firstPiece {c₀ c : Connection} {draw : UInt16} {topic : Bytes} {qos : Fin 3}
    (h : c.Filled (publishHead draw topic qos)) (hbuffer : c.bufferLength = c₀.bufferLength)
    (hoffset : c.fragmentedMsgDataOffset = c₀.fragmentedMsgDataOffset) (hn : c₀.bufferLength < 2 ^ 16)
    (data : Bytes) (hlen : (publishHead draw topic qos ++ data).length < 2 ^ 28) (retain : Bool) :
    FirstPiece c₀ ((c.appendData data).finiMessage 3 0 (qos.val : Nat) (if retain then 1 else 0))
      (.publish false qos retain topic draw data) (publishHead draw topic qos) data := by
  obtain ⟨hfilled, hremaining, hbuf, htotal, hoff⟩ := h.appendData data
  have hlength := h.length
  have hfits := h.fits
  generalize hhead : publishHead draw topic qos = head at *
  have hsum : (head ++ data).length = head.length + data.length := List.length_append
  obtain ⟨hmessage, hframe⟩ := hfilled.finiMessage (hremaining ▸ hlen) 3 0 (qos.val : Nat)
    (if retain then 1 else 0)
  have hwhole := hfilled.length_finiMessage (hremaining ▸ hlen) 3 0 (qos.val : Nat)
    (if retain then 1 else 0)
  rw [hremaining, hbuffer, hlength] at hmessage hwhole
  rw [hremaining, htotal, hoff, hlength, hbuffer, hoffset] at hframe
  have hlens := Mqtt.length_lengthField (head ++ data).length
  generalize (c.appendData data).finiMessage 3 0 (qos.val : Nat) (if retain then 1 else 0) = c' at *
  have hbuffer' : c'.bufferLength = c₀.bufferLength := (congrArg Prod.fst hframe).trans (hbuf.trans hbuffer)
  have htotal' := congrArg (fun f => f.2.1) hframe
  have hoffset' := congrArg (fun f => f.2.2) hframe
  dsimp only [frame] at htotal' hoffset'
  refine ⟨?_, hbuffer', ?_, ?_, fun hfit => ?_, fun hlong => ?_⟩
  · rw [hmessage, packetBytes, List.cons_append, List.append_assoc, List.append_assoc,
      List.take_append_drop, Mqtt.Packet.encode, body_publish, hhead]
    rw [publish_firstByte draw topic data qos retain]
  · rw [htotal', hsum]
    split <;> split <;> omega
  · unfold dataSent
    rw [hoffset', hwhole, hsum]
    rw [hsum] at hlens
    generalize (Mqtt.lengthField (head.length + data.length)).length = m at hlens ⊢
    rw [List.length_append, List.length_take]
    by_cases hlong : c₀.bufferLength < 5 + (head.length + data.length)
    · rw [if_pos (by omega), if_pos hlong, sub_sub_ofNat
        (b := c₀.bufferLength - (5 + head.length) + (5 + head.length)) (by omega), BitVec.ofNat_add,
        BitVec.add_sub_cancel,
        toInt_ofNat_small (lt_of_le_of_lt (Nat.sub_le _ _) (lt_trans hn (by decide)))]
    · rw [if_neg (by omega), if_neg hlong, sub_sub_ofNat (b := 5 + (head.length + data.length)) (by omega)]
  · generalize (Mqtt.lengthField (head ++ data).length).length = m at hlens hoffset'
    rw [hsum] at hfit
    rw [if_neg (by omega)] at hoffset'
    exact ⟨_, by omega, hoffset'⟩
  · -- the payload begins behind the first byte of the message
    generalize (Mqtt.lengthField (head ++ data).length).length = m at hlens hoffset'
    rw [hsum] at hlong
    rw [if_pos (by omega)] at hoffset'
    rw [hoffset']
    bv_omega

variable {c : Connection} {draw : UInt16} {topic : Bytes} {qos : Fin 3}

theorem Filled.appendMessageId {body : Bytes} (h : c.Filled body) (id : UInt16) :
    (5 + (body ++ Mqtt.word (if id = 0 then draw else id).toNat).length ≤ c.bufferLength ∧
        ∃ c', c.appendMessageId draw id = .ok (if id = 0 then draw else id, c') ∧
          c'.Filled (body ++ Mqtt.word (if id = 0 then draw else id).toNat) ∧ c'.frame = c.frame) ∨
      (c.bufferLength < 5 + (body ++ Mqtt.word (if id = 0 then draw else id).toNat).length ∧
        c.appendMessageId draw id = .error c) := by
  have hlength := h.length
  unfold Connection.appendMessageId
  dsimp only
  rw [List.length_append, Mqtt.length_word]
  split
  · exact .inr ⟨by omega, rfl⟩
  · exact .inl ⟨by omega, _, rfl, h.put _ (by rw [Mqtt.length_word]; omega)⟩

/-- What a failed call leaves. -/
structure Emptied (c c' : Connection) : Prop where
  message : c'.message = []
  frame : c'.frame = c.frame

/-- **The call**: the first piece of the packet, if at least its variable header fits. -/
theorem mqttMsgPublish_spec (hroom : 5 ≤ c.bufferLength) (hn : c.bufferLength < 2 ^ 16)
    (htopic : topic ≠ []) (messageId : UInt16) (data : Bytes)
    (hlen : (publishHead draw topic qos ++ data).length < 2 ^ 28) (retain : Bool) :
    (5 + (publishHead draw topic qos).length ≤ c.bufferLength ∧
        FirstPiece c (c.mqttMsgPublish draw messageId topic data (qos.val : Nat) (if retain then 1 else 0)).1
          (.publish false qos retain topic draw data) (publishHead draw topic qos) data ∧
        (c.mqttMsgPublish draw messageId topic data (qos.val : Nat) (if retain then 1 else 0)).2 =
          if qos = 0 then 0 else draw) ∨
      (c.bufferLength < 5 + (publishHead draw topic qos).length ∧
        Emptied c (c.mqttMsgPublish draw messageId topic data (qos.val : Nat)
          (if retain then 1 else 0)).1) := by
  have hhead : (publishHead draw topic qos).length =
      (Mqtt.text topic).length + if qos = 0 then 0 else 2 := by
    unfold publishHead
    rw [List.length_append]
    split <;> rfl
  have happend := (filled_initMessage hroom).appendString rfl topic
  unfold mqttMsgPublish
  rw [if_neg htopic]
  cases htext : c.initMessage.appendString topic with
  | error c₁ =>
    rw [htext] at happend
    refine .inr ⟨?_, message_failMessage c₁, happend.2⟩
    have hlt := happend.1
    rw [List.nil_append] at hlt
    exact lt_of_lt_of_le hlt (by omega)
  | ok c₁ =>
    rw [htext] at happend
    obtain ⟨h₁, hframe₁⟩ := happend
    rw [List.nil_append] at h₁
    have hbuffer₁ : c₁.bufferLength = c.bufferLength := congrArg Prod.fst hframe₁
    have hoffset₁ : c₁.fragmentedMsgDataOffset = c.fragmentedMsgDataOffset :=
      congrArg (fun f => f.2.2) hframe₁
    dsimp only
    by_cases hqos : qos = 0
    · have hzero : publishHead draw topic qos = Mqtt.text topic := by
        unfold publishHead
        rw [if_pos hqos, List.append_nil]
      have hfits := h₁.fits
      rw [h₁.length, hbuffer₁] at hfits
      rw [← hzero] at h₁ hfits
      rw [if_neg (by rw [hqos]; decide), if_pos hqos]
      exact .inl ⟨hfits, h₁.firstPiece hbuffer₁ hoffset₁ hn data hlen retain, rfl⟩
    · have hpos : ((qos.val : Nat) : Int) > 0 := by
        have hne : qos.val ≠ 0 := fun h => hqos (Fin.ext h)
        omega
      have hid : publishHead draw topic qos =
          Mqtt.text topic ++ Mqtt.word (if (0 : UInt16) = 0 then draw else 0).toNat := by
        unfold publishHead
        rw [if_neg hqos, if_pos rfl]
      rw [if_pos hpos, if_neg hqos]
      rcases h₁.appendMessageId 0 with ⟨hfits, c₂, hc₂, h₂, hframe₂⟩ | ⟨hlt, hc₂⟩
      · rw [← hid] at hfits h₂
        rw [hc₂]
        have hframe : c₂.frame = c.frame := hframe₂.trans hframe₁
        refine .inl ⟨by rwa [hbuffer₁] at hfits, ?_, rfl⟩
        exact h₂.firstPiece (congrArg Prod.fst hframe) (congrArg (fun f => f.2.2) hframe) hn data hlen
          retain
      · rw [← hid, hbuffer₁] at hlt
        rw [hc₂]
        exact .inr ⟨hlt, message_failMessage c₁, hframe₁⟩

end Connection

/-! ## §6 — every message -/

namespace Connection

section Others

variable {c : Connection} {draw : UInt16} (hroom : 5 ≤ c.bufferLength) (hn : c.bufferLength < 2 ^ 16)
  (htotal : c.fragmentedMsgTotalLength = 0)

/-- What a message with these bytes behind the header is. -/
def Sends (c c' : Connection) (first : UInt8) (body : Bytes) : Prop :=
  c'.message = (if 5 + body.length ≤ c.bufferLength then packetBytes first body.length body else []) ∧
    c'.bufferLength = c.bufferLength ∧ c'.fragmentedMsgTotalLength = 0 ∧
    ∃ offs ≤ 3, c'.fragmentedMsgDataOffset = c.fragmentedMsgDataOffset - BitVec.ofNat 32 offs

include hroom in
theorem gives_messageId (id : UInt16) :
    Gives c.frame ((c.initMessage.appendMessageId draw id).map Prod.snd)
      (Mqtt.word (Build.used draw id).toNat) := by
  rcases (filled_initMessage hroom).appendMessageId id with
    ⟨-, c₁, hc₁, h₁, hframe₁⟩ | ⟨hlt, hc₁⟩
  · rw [hc₁]
    exact ⟨h₁, hframe₁⟩
  · rw [hc₁]
    exact ⟨hlt, rfl⟩

include hroom hn htotal

theorem acknowledge_sends (id : UInt16) (type : Nat) (qos : Int) :
    Sends c (c.acknowledge draw id type qos) (firstByte type 0 qos 0)
      (Mqtt.word (Build.used draw id).toNat) :=
  (gives_messageId hroom id).finish htotal hn type 0 qos 0

theorem empty_sends (type : Nat) :
    Sends c (c.initMessage.finiMessage type 0 0 0) (firstByte type 0 0 0) [] :=
  Gives.finish (r := .ok c.initMessage) ⟨filled_initMessage hroom, rfl⟩ htotal hn type 0 0 0

theorem connect_sends {info : ConnectInfo} (hid : info.clientId ≠ []) :
    Sends c (c.mqttMsgConnect info) (firstByte 1 0 0 0) info.body :=
  ((filled_initMessage hroom).appendConnect rfl hid).finish htotal hn 1 0 0 0

theorem unsubscribe_sends {topic : Bytes} (htopic : topic ≠ []) (messageId : UInt16) :
    Sends c (c.mqttMsgUnsubscribe draw messageId topic).1 (firstByte 10 0 1 0)
      (Mqtt.word draw.toNat ++ Mqtt.text topic) := by
  unfold mqttMsgUnsubscribe
  rw [if_neg htopic]
  rcases (filled_initMessage hroom).appendMessageId 0 with
    ⟨-, c₁, hc₁, h₁, hframe₁⟩ | ⟨hlt, hc₁⟩
  · rw [hc₁]
    exact (h₁.appendString hframe₁ topic).finish htotal hn 10 0 1 0
  · rw [hc₁]
    refine ⟨?_, rfl, htotal, 0, by decide, (BitVec.sub_zero _).symm⟩
    have hlt : c.bufferLength < 5 + (Mqtt.word draw.toNat).length := hlt
    rw [if_neg (by rw [List.length_append]; omega)]
    exact message_failMessage _

theorem subscribe_sends {topic : Bytes} (htopic : topic ≠ []) (messageId : UInt16) (qos : Int) :
    Sends c (c.mqttMsgSubscribe draw messageId topic qos).1 (firstByte 8 0 1 0)
      (Mqtt.word draw.toNat ++ (Mqtt.text topic ++ [UInt8.ofInt qos])) := by
  unfold mqttMsgSubscribe
  rw [if_neg htopic]
  rcases (filled_initMessage hroom).appendMessageId 0 with
    ⟨-, c₁, hc₁, h₁, hframe₁⟩ | ⟨hlt, hc₁⟩
  · rw [hc₁]
    refine Gives.finish (f := c.frame) ?_ htotal hn 8 0 1 0
    refine (h₁.appendString hframe₁ topic).bind (by simp) fun c₂ h₂ hframe₂ => ?_
    have hlength := h₂.length
    have hbuffer : c₂.bufferLength = c.bufferLength := congrArg Prod.fst hframe₂
    split
    · refine ⟨?_, hframe₂⟩
      rw [← List.append_assoc, List.length_append, List.length_singleton]
      show c.bufferLength < _
      have hword : (if (0 : UInt16) = 0 then draw else 0) = draw := rfl
      rw [hword] at hlength
      rw [List.nil_append] at hlength
      omega
    · obtain ⟨h₃, hframe₃⟩ := h₂.put [UInt8.ofInt qos] (by rw [List.length_singleton]; omega)
      rw [List.nil_append, List.append_assoc] at h₃
      exact ⟨h₃, hframe₃.trans hframe₂⟩
  · rw [hc₁]
    refine ⟨?_, rfl, htotal, 0, by decide, (BitVec.sub_zero _).symm⟩
    have hlt : c.bufferLength < 5 + (Mqtt.word draw.toNat).length := hlt
    rw [if_neg (by rw [List.length_append]; omega)]
    exact message_failMessage _

end Others

end Connection

/-- A message against its packet: what is missing is the end of the payload, or the whole packet if even the
rest of it has no room in a buffer of `n` bytes. -/
def Encoded (n : Nat) (message payload : Bytes) (p : Mqtt.Packet) : Prop :=
  if 5 + (p.body.length - payload.length) ≤ n then
    message ++ payload.drop (n - (5 + (p.body.length - payload.length))) = p.encode
  else message = []

theorem Connection.Sends.encoded {c c' : Connection} {first : UInt8} {p : Mqtt.Packet}
    (h : c.Sends c' first p.body) (hfirst : first = UInt8.ofNat (p.type * 16 + p.flags)) :
    Encoded c.bufferLength c'.message [] p := by
  unfold Encoded
  rw [List.drop_nil, List.append_nil, List.length_nil, Nat.sub_zero, h.1]
  split
  · rw [hfirst]
    rfl
  · rfl

/-- Without a packet the message is empty. -/
def Represents (n : Nat) (message payload : Bytes) : Option Mqtt.Packet → Prop
  | none => message = []
  | some p => Encoded n message payload p

/-- A client needs an identifier. -/
theorem connect_refused {c : Connection} {info : ConnectInfo} (hroom : 5 ≤ c.bufferLength)
    (hid : info.clientId = []) : Connection.Emptied c (c.mqttMsgConnect info) := by
  have hfail : ∀ c : Connection, c.appendClientId info = .error c := by
    intro c
    unfold Connection.appendClientId
    rw [if_neg (fun h => h hid)]
  have hvar : Connection.Gives c.frame (c.initMessage.appendVariableHeader info) _ :=
    (Connection.filled_initMessage hroom).appendVariableHeader rfl
  unfold Connection.mqttMsgConnect
  generalize c.initMessage.appendVariableHeader info = r at hvar
  cases r with
  | error c₁ => exact ⟨Connection.message_failMessage _, hvar.2⟩
  | ok c₁ =>
    show Connection.Emptied c (Connection.finish (c₁.appendClientId info >>= _) 1 0 0 0)
    rw [hfail]
    exact ⟨Connection.message_failMessage _, hvar.2⟩

/-- **Every message is its control packet**, as far as the buffer has room: all of it, or the variable
header of a `PUBLISH` and as much of its payload as fits, or nothing. -/
theorem messages_encoded (c : Connection) (b : Build) (draw : UInt16) (hroom : 5 ≤ c.bufferLength)
    (hn : c.bufferLength < 2 ^ 16)
    (htotal : c.fragmentedMsgTotalLength = 0 ∨ ∃ topic data qos retain, b = .publish topic data qos retain)
    (hlen : ∀ p, b.packet draw = some p → p.body.length < 2 ^ 28) :
    Represents c.bufferLength (b.run c draw).message b.payload (b.packet draw) := by
  have hzero : (¬ ∃ topic data qos retain, b = .publish topic data qos retain) →
      c.fragmentedMsgTotalLength = 0 := fun hno => htotal.resolve_right hno
  cases b with
  | connect info =>
    by_cases hid : info.clientId = []
    · rw [show (Build.connect info).packet draw = none from if_pos hid]
      exact (connect_refused hroom hid).message
    · rw [show (Build.connect info).packet draw = _ from if_neg hid]
      exact (Connection.connect_sends hroom hn (hzero nofun) hid).encoded (p := .other .connect _) rfl
  | publish topic data qos retain =>
    by_cases htopic : topic = []
    · rw [show (Build.publish topic data qos retain).packet draw = none from if_pos htopic]
      show (c.mqttMsgPublish draw 0 topic data _ _).1.message = []
      unfold Connection.mqttMsgPublish
      rw [if_pos htopic]
      exact Connection.message_failMessage _
    · have hpacket : (Build.publish topic data qos retain).packet draw = _ := if_neg htopic
      have hlen := hlen _ hpacket
      rw [hpacket]
      rw [body_publish] at hlen
      show Encoded c.bufferLength _ data _
      unfold Encoded
      rw [body_publish, List.length_append, Nat.add_sub_cancel]
      rcases Connection.mqttMsgPublish_spec hroom hn htopic 0 data hlen retain with
        ⟨hfits, hfirst, -⟩ | ⟨hlt, hempty⟩
      · rw [if_pos hfits]
        exact hfirst.message
      · rw [if_neg (by omega)]
        exact hempty.message
  | puback id =>
    exact (Connection.acknowledge_sends hroom hn (hzero nofun) id 4 0).encoded
      (p := .other .puback _) rfl
  | pubrec id =>
    exact (Connection.acknowledge_sends hroom hn (hzero nofun) id 5 0).encoded
      (p := .other .pubrec _) rfl
  | pubrel id =>
    exact (Connection.acknowledge_sends hroom hn (hzero nofun) id 6 1).encoded (p := .pubrel _) rfl
  | pubcomp id =>
    exact (Connection.acknowledge_sends hroom hn (hzero nofun) id 7 0).encoded
      (p := .other .pubcomp _) rfl
  | subscribe topic qos =>
    by_cases htopic : topic = []
    · rw [show (Build.subscribe topic qos).packet draw = none from if_pos htopic]
      show (c.mqttMsgSubscribe draw 0 topic _).1.message = []
      unfold Connection.mqttMsgSubscribe
      rw [if_pos htopic]
      exact Connection.message_failMessage _
    · rw [show (Build.subscribe topic qos).packet draw = _ from if_neg htopic]
      have hbody : (Mqtt.Packet.subscribe draw [(topic, qos)]).body =
          Mqtt.word draw.toNat ++ (Mqtt.text topic ++ [UInt8.ofInt (qos.val : Nat)]) := by
        show Mqtt.word draw.toNat ++ List.flatMap _ [(topic, qos)] = _
        rw [List.flatMap_cons, List.flatMap_nil, List.append_nil]
        have hqos : ∀ qos : Fin 3, UInt8.ofNat qos.val = UInt8.ofInt (qos.val : Nat) := by decide
        rw [hqos]
      have hsends : c.Sends (c.mqttMsgSubscribe draw 0 topic (qos.val : Nat)).1 _ _ :=
        Connection.subscribe_sends hroom hn (hzero nofun) htopic 0 (qos.val : Nat)
      rw [← hbody] at hsends
      exact hsends.encoded rfl
  | unsubscribe topic =>
    by_cases htopic : topic = []
    · rw [show (Build.unsubscribe topic).packet draw = none from if_pos htopic]
      show (c.mqttMsgUnsubscribe draw 0 topic).1.message = []
      unfold Connection.mqttMsgUnsubscribe
      rw [if_pos htopic]
      exact Connection.message_failMessage _
    · rw [show (Build.unsubscribe topic).packet draw = _ from if_neg htopic]
      exact (Connection.unsubscribe_sends hroom hn (hzero nofun) htopic 0).encoded
        (p := .other .unsubscribe _) rfl
  | pingreq =>
    exact (Connection.empty_sends hroom hn (hzero nofun) 12).encoded (p := .other .pingreq []) rfl
  | pingresp =>
    exact (Connection.empty_sends hroom hn (hzero nofun) 13).encoded (p := .other .pingresp []) rfl
  | disconnect =>
    exact (Connection.empty_sends hroom hn (hzero nofun) 14).encoded (p := .other .disconnect []) rfl

/-- A buffer of sixteen bytes has room for four of the eleven bytes of this payload. -/
theorem messages_encoded_pieces :
    Represents 16 ((Build.publish (str "t/1") (str "hello world") 1 false).run
        (Connection.mqttMsgInit (List.replicate 16 0)) 0x1234).message (str "hello world")
      (some (.publish false 1 false (str "t/1") 0x1234 (str "hello world"))) ∧
    ((Build.publish (str "t/1") (str "hello world") 1 false).run
        (Connection.mqttMsgInit (List.replicate 16 0)) 0x1234).message =
      [0x32, 18, 0, 3] ++ str "t/1" ++ [0x12, 0x34] ++ str "hell" := by
  refine ⟨?_, by decide⟩
  apply messages_encoded (Connection.mqttMsgInit (List.replicate 16 0)) _ _ (by decide) (by decide)
    (.inl rfl)
  rintro p ⟨rfl⟩
  decide

end Espmod.EspMqtt
