/-
# Espmod.EspMqtt.Deliver — from packets to events

A `PUBLISH` reaches the application as events: the first has the topic and what the buffer holds of the
payload, the others have the rest as it arrives, each with the place of its bytes in the whole. The
identifier of the first event is looked for in as many bytes as the event has data, not in the packet.
-/
import Espmod.EspMqtt.Receive

namespace Espmod.EspMqtt

open Espmod.Lib Espmod.Lib.Text Espmod.Lib.Words Espmod.Lib.Window

/-! ## §1 — delivering -/

/-- A `MQTT_EVENT_DATA`. -/
structure DataEvent where
  msgId : UInt16
  topic : Bytes
  data : Bytes
  dataLen : Int
  currentDataOffset : Nat
  totalDataLen : Nat
  deriving DecidableEq, Repr

namespace Inflow

/-- The events behind the first, with `left` bytes of the packet to read; there are at most that many. An
error is read as the length `0xffffffff`: the event has a length of -1, and the loop ends. -/
def postData (event : DataEvent) : (rounds left offset : Nat) → Inflow → Bool × List DataEvent × Inflow
  | 0, _, _, s => (true, [], s)
  | rounds + 1, left, offset, s =>
    if left = 0 then (true, [], s)
    else
      let event := { event with topic := [], currentDataOffset := offset }
      match s.espTransportRead (min left s.inBuffer.length) with
      | (none, s) => (true, [{ event with data := s.inBuffer, dataLen := -1 }], s)
      | (some [], s) => (false, [], s)
      | (some data, s) =>
        let s := { s with inBuffer := overlay s.inBuffer 0 data }
        let (ok, events, s) := postData event rounds (left - data.length) (offset + data.length) s
        (ok, { event with data := data, dataLen := data.length } :: events, s)

/-- `deliver_publish`: whether it returns `ESP_OK`, and the events. -/
def deliverPublish (s : Inflow) : Bool × List DataEvent × Inflow :=
  match mqttGetPublishTopic s.inBuffer s.readLen with
  | none => (false, [], s)
  | some (topic, topicLen) =>
    let (offset, dataLen) := (mqttGetPublishData s.inBuffer s.readLen).getD (0, 0)
    let event : DataEvent :=
      { msgId := mqttGetId s.inBuffer (UInt16.ofNat dataLen)
        topic := window s.inBuffer topic topicLen
        data := window s.inBuffer offset dataLen
        dataLen := dataLen
        currentDataOffset := 0
        totalDataLen := dataLen + s.messageLength - s.readLen }
    let left := s.messageLength - s.readLen
    let (ok, events, s) := s.postData event left left dataLen
    (ok, event :: events, s)

end Inflow

/-! ## §2 — the events of a packet -/

/-- Consecutive pieces of a payload of `total` bytes, from `offset` on. -/
def Pieces (total : Nat) : Nat → List DataEvent → Prop
  | _, [] => True
  | offset, e :: es => e.currentDataOffset = offset ∧ e.totalDataLen = total ∧ e.dataLen = e.data.length ∧
      Pieces total (offset + e.data.length) es

/-- What the events have of a payload. -/
def content (events : List DataEvent) : Bytes := events.flatMap DataEvent.data

/-- The events of a `PUBLISH` of which `unread` has not been delivered. -/
structure Delivers (topic payload : Bytes) (events : List DataEvent) (unread : Bytes) : Prop where
  topics : ∃ first others, events = first :: others ∧ first.topic = topic ∧ ∀ e ∈ others, e.topic = []
  pieces : Pieces payload.length 0 events
  content : content events ++ unread = payload

namespace Inflow

/-- **The events behind the first** have what was still to be read, in order; or the beginning of it, if the
rest does not arrive in time. -/
theorem postData_spec (rounds : Nat) : ∀ {event : DataEvent} {left offset : Nat} {s : Inflow}
    {todo rest : Bytes}, s.stream = todo ++ rest → todo.length = left → left ≤ rounds →
    .error ∉ s.arrivals → 0 < s.inBuffer.length →
    ∃ ok events s' unread, s.postData event rounds left offset = (ok, events, s') ∧
      Pieces event.totalDataLen offset events ∧ (∀ e ∈ events, e.topic = []) ∧
      content events ++ unread = todo ∧ s'.stream = unread ++ rest ∧ (ok = true ↔ unread = []) ∧ .error ∉ s'.arrivals ∧
      s'.inBuffer.length = s.inBuffer.length := by
  induction rounds with
  | zero =>
    intro event left offset s todo rest hstream hlen hle hclean hpos
    have hnil : todo = [] := List.length_eq_zero_iff.mp (by omega)
    refine ⟨true, [], s, [], rfl, trivial, nofun, hnil.symm, ?_, by simp, hclean, rfl⟩
    rw [hstream, hnil]
  | succ rounds ih =>
    intro event left offset s todo rest hstream hlen hle hclean hpos
    rw [postData]
    by_cases hzero : left = 0
    · have hnil : todo = [] := List.length_eq_zero_iff.mp (by omega)
      rw [if_pos hzero]
      refine ⟨true, [], s, [], rfl, trivial, nofun, hnil.symm, ?_, by simp, hclean, rfl⟩
      rw [hstream, hnil]
    · rw [if_neg hzero]
      have hne : todo ≠ [] := by
        rintro rfl
        exact hzero hlen.symm
      unfold espTransportRead
      cases harrivals : s.arrivals with
      | nil =>
        exact ⟨false, [], s, todo, rfl, trivial, nofun, rfl, hstream, by simp [hne], by simp [harrivals], rfl⟩
      | cons a arrivals =>
        rw [harrivals, List.mem_cons, not_or] at hclean
        cases a with
        | error => exact absurd rfl hclean.1
        | upTo n =>
          -- what is read is of the payload
          have hbound : min n (min left s.inBuffer.length) ≤ todo.length := by omega
          have htake : s.stream.take (min n (min left s.inBuffer.length)) =
              todo.take (min n (min left s.inBuffer.length)) := by
            rw [hstream, List.take_append_of_le_length hbound]
          have hdrop : s.stream.drop (min n (min left s.inBuffer.length)) =
              todo.drop (min n (min left s.inBuffer.length)) ++ rest := by
            rw [hstream, List.drop_append_of_le_length hbound]
          dsimp only
          rw [htake, hdrop]
          generalize hm : min n (min left s.inBuffer.length) = m at hbound
          have hread : (todo.take m).length = m := List.length_take_of_le hbound
          cases hdata : todo.take m with
          | nil =>
            have hm0 : m = 0 := by
              rw [hdata] at hread
              exact hread.symm
            rw [hm0, List.drop_zero]
            exact ⟨false, [], _, todo, rfl, trivial, nofun, rfl, rfl, by simp [hne], hclean.2, rfl⟩
          | cons b bs =>
            rw [hdata] at hread
            have hsplit : (b :: bs) ++ todo.drop m = todo := by
              rw [← hdata]
              exact List.take_append_drop m todo
            have hroom : 0 + (b :: bs).length ≤ s.inBuffer.length := by omega
            have hbuffer := overlay_length hroom
            obtain ⟨ok, events, s', unread, heq, hpieces, htopic, hcontent, hstream', hok, hclean', hlength⟩ :=
              @ih { event with topic := [], currentDataOffset := offset } (left - (b :: bs).length)
                (offset + (b :: bs).length)
                { s with
                  inBuffer := overlay s.inBuffer 0 (b :: bs)
                  stream := todo.drop m ++ rest
                  arrivals := arrivals }
                (todo.drop m) rest rfl
                (show (todo.drop m).length = left - (b :: bs).length by rw [List.length_drop, hread, hlen])
                (by rw [List.length_cons]; omega) hclean.2 (by rw [hbuffer]; exact hpos)
            refine ⟨ok, { event with
              topic := []
              currentDataOffset := offset
              data := b :: bs
              dataLen := (b :: bs).length } :: events, s', unread, ?_, ⟨rfl, rfl, rfl, hpieces⟩, ?_, ?_,
              hstream', hok, hclean', hlength.trans hbuffer⟩
            · dsimp only
              rw [heq]
            · rintro e he
              rcases List.mem_cons.mp he with rfl | he
              · rfl
              · exact htopic e he
            · rw [content, List.flatMap_cons]
              show (b :: bs) ++ content events ++ unread = todo
              rw [List.append_assoc, hcontent, hsplit]

section Publish

variable {s : Inflow} {dup retain : Bool} {qos : Fin 3} {topic payload rest : Bytes} {id : UInt16} {n : Nat}

theorem window_of_drop {l a b : Bytes} {i m : Nat} (h : l.drop i = a ++ b) (hm : m ≤ a.length) :
    window l i m = a.take m := by
  rw [window, h, List.take_append_of_le_length hm]

/-- What has been read of a `PUBLISH` when it is delivered. -/
structure Arrived (n : Nat) (s : Inflow) (p : Mqtt.Packet) (rest : Bytes) : Prop where
  carries : s.Carries (p.encode ++ rest)
  readLen : s.readLen = min n p.encode.length
  message : s.messageLength = p.encode.length
  buffer : s.inBuffer.length = n
  wellFormed : p.WellFormed
  fits : Fits n p

theorem Arrived.qos_eq (h : Arrived n s (.publish dup qos retain topic id payload) rest) :
    mqttGetQos s.inBuffer = qos.val := by
  have hread := h.readLen
  have hsize := length_encode (.publish dup qos retain topic id payload)
  have hnine := h.fits.1
  rw [← mqttGetQos_publish dup qos retain topic payload id, mqttGetQos, mqttGetQos,
    h.carries.byteAt (by unfold headerSize at hsize; omega)]

theorem Arrived.topicLength (h : Arrived n s (.publish dup qos retain topic id payload) rest) :
    wordAt s.inBuffer (headerSize (.publish dup qos retain topic id payload)) = topic.length := by
  obtain ⟨hword, -, -, hlen⟩ := publish_parts dup qos retain topic id payload rest _ rfl
  have hread := h.readLen
  have hfits := h.fits.2.2
  have hhead : headerSize (.publish dup qos retain topic id payload) + 2 + topic.length ≤
      headSize (.publish dup qos retain topic id payload) := Nat.le_add_right _ _
  rw [wordAt, h.carries.byteAt (by omega), h.carries.byteAt (by omega)]
  exact wordAt_of_drop h.wellFormed.layout.1 hword

theorem Arrived.getTopic (h : Arrived n s (.publish dup qos retain topic id payload) rest) (htopic : topic ≠ []) :
    mqttGetPublishTopic s.inBuffer s.readLen =
        some (headerSize (.publish dup qos retain topic id payload) + 2, topic.length) ∧
      window s.inBuffer (headerSize (.publish dup qos retain topic id payload) + 2) topic.length = topic := by
  have hwordAt := h.topicLength
  generalize hp : Mqtt.Packet.publish dup qos retain topic id payload = p at h hwordAt ⊢
  obtain ⟨-, hdrop, -, hlen⟩ := publish_parts dup qos retain topic id payload rest p hp.symm
  have hread := h.readLen
  have hfits := h.fits.2.2
  have hpos : 0 < topic.length := List.length_pos_iff.mpr htopic
  have hhead : headerSize p + 2 + topic.length ≤ headSize p := by
    rw [← hp]
    exact Nat.le_add_right _ _
  constructor
  · unfold mqttGetPublishTopic
    rw [h.carries.fixedHeader h.wellFormed.remaining (by omega)]
    dsimp only
    rw [hwordAt, if_neg (by omega), if_neg (by omega)]
  · rw [h.carries.window (by omega), window_of_drop hdrop (Nat.le_refl _), List.take_length]

/-- **The payload in the buffer**: as much of it as there is. -/
theorem Arrived.getData (h : Arrived n s (.publish dup qos retain topic id payload) rest) :
    ∃ offset, (mqttGetPublishData s.inBuffer s.readLen).getD (0, 0) =
        (offset, s.readLen - headSize (.publish dup qos retain topic id payload)) ∧
      window s.inBuffer offset (s.readLen - headSize (.publish dup qos retain topic id payload)) =
        payload.take (s.readLen - headSize (.publish dup qos retain topic id payload)) := by
  have hqos := h.qos_eq
  have hwordAt := h.topicLength
  generalize hp : Mqtt.Packet.publish dup qos retain topic id payload = p at h hwordAt ⊢
  obtain ⟨-, -, hdrop, hlen⟩ := publish_parts dup qos retain topic id payload rest p hp.symm
  have hread := h.readLen
  have hfits := h.fits.2.2
  have hhead : headSize p = headerSize p + 2 + topic.length + if qos = 0 then 0 else 2 := by
    rw [← hp]
    rfl
  have hwindow : ∀ m, headSize p + m ≤ s.readLen → window s.inBuffer (headSize p) m = payload.take m := by
    intro m hm
    rw [h.carries.window hm]
    exact window_of_drop hdrop (by omega)
  have htotal : p.body.length + headerSize p = p.encode.length := by
    rw [length_encode, Nat.add_comm]
  -- the identifier is there or it is not
  have hj : (if mqttGetQos s.inBuffer > 0 then headerSize p + 2 + topic.length + 2
      else headerSize p + 2 + topic.length) = headSize p := by
    rw [hqos, hhead]
    by_cases hq : qos = 0
    · rw [hq]
      rfl
    · rw [if_neg hq, if_pos (Nat.pos_of_ne_zero fun hz => hq (Fin.ext hz))]
  have hnone : s.readLen = headSize p → ∃ offset, (0, 0) = (offset, s.readLen - headSize p) ∧
      window s.inBuffer offset (s.readLen - headSize p) = payload.take (s.readLen - headSize p) := by
    intro heq
    refine ⟨0, ?_, ?_⟩
    · rw [heq, Nat.sub_self]
    · rw [heq, Nat.sub_self, window_zero, List.take_zero]
  unfold mqttGetPublishData
  rw [h.carries.fixedHeader h.wellFormed.remaining (by omega)]
  dsimp only
  rw [hwordAt, hj, htotal]
  split
  · exact hnone (by omega)
  split
  · exact hnone (by split at hhead <;> omega)
  split
  · next hid =>
    have hq : ¬ qos = 0 := by
      rintro rfl
      rw [hqos] at hid
      exact absurd hid.1 (by decide)
    rw [if_neg hq] at hhead
    exact hnone (by omega)
  rw [if_neg (by omega)]
  split
  · refine ⟨headSize p, ?_, hwindow _ (by omega)⟩
    rw [Option.getD_some, Prod.mk.injEq]
    omega
  · exact ⟨headSize p, rfl, hwindow _ (by omega)⟩

theorem Carries.stream {data : Bytes} (h : s.Carries data) : s.stream = data.drop s.readLen := by
  have hlength : (s.inBuffer.take s.readLen).length = s.readLen := List.length_take_of_le h.within
  rw [← h.bytes, List.drop_append_of_le_length hlength.ge, List.drop_of_length_le hlength.le, List.nil_append]

/-- **Delivery**: the payload once, in order, with its topic; or the beginning of it. -/
theorem Arrived.deliverPublish (h : Arrived n s (.publish dup qos retain topic id payload) rest)
    (htopic : topic ≠ []) : ∃ ok events s' unread, s.deliverPublish = (ok, events, s') ∧
      Delivers topic payload events unread ∧ s'.stream = unread ++ rest ∧ (ok = true ↔ unread = []) ∧
      .error ∉ s'.arrivals ∧ s'.inBuffer.length = n := by
  obtain ⟨hgetTopic, hwindowTopic⟩ := h.getTopic htopic
  obtain ⟨offset, hgetData, hwindowData⟩ := h.getData
  have hread := h.readLen
  have hfits := h.fits.2.2
  have hnine := h.fits.1
  obtain ⟨-, -, hdrop, hlen⟩ := publish_parts dup qos retain topic id payload rest _ rfl
  have hmessage := h.message
  have hbuffer := h.buffer
  have hstream := h.carries.stream
  generalize Mqtt.Packet.publish dup qos retain topic id payload = p at *
  have hhead : headSize p ≤ s.readLen := by omega
  rw [← Nat.add_sub_cancel' hhead, ← List.drop_drop, hdrop, List.drop_append_of_le_length (by omega)] at hstream
  generalize ha : s.readLen - headSize p = a at *
  have htake : (payload.take a).length = a := List.length_take_of_le (by omega)
  have htotal : a + s.messageLength - s.readLen = payload.length := by omega
  obtain ⟨first, hfirst⟩ : ∃ first : DataEvent, first =
      { msgId := mqttGetId s.inBuffer (UInt16.ofNat a)
        topic := topic
        data := payload.take a
        dataLen := a
        currentDataOffset := 0
        totalDataLen := a + s.messageLength - s.readLen } := ⟨_, rfl⟩
  obtain ⟨ok, events, s', unread, heq, hpieces, htopics, hcontent, hstream', hok, hclean, hlength⟩ :=
    postData_spec (s.messageLength - s.readLen)
      hstream (by rw [List.length_drop]; omega) (Nat.le_refl _) h.carries.clean (by omega)
  refine ⟨ok, first :: events, s', unread, ?_, ⟨⟨first, events, rfl, ?_, htopics⟩, ?_, ?_⟩, hstream', hok,
    hclean, hlength.trans hbuffer⟩
  · unfold Inflow.deliverPublish
    rw [hgetTopic, hgetData]
    dsimp only
    rw [hwindowTopic, hwindowData, ← hfirst, heq]
  · rw [hfirst]
  · rw [hfirst] at hpieces ⊢
    rw [htotal] at hpieces
    refine ⟨rfl, htotal, congrArg Nat.cast htake.symm, ?_⟩
    show Pieces payload.length (0 + (payload.take a).length) events
    rw [Nat.zero_add, htake]
    exact hpieces
  · rw [hfirst]
    show payload.take a ++ content events ++ unread = payload
    rw [List.append_assoc, hcontent, List.take_append_drop]

/-- A loop that is cut off by the length ends there. -/
theorem fixedHeader_short (p : Mqtt.Packet) (hlen : p.body.length < 2 ^ 28) (h : s.Carries (p.encode ++ rest))
    {m : Nat} (hm : m < headerSize p) (hpos : 1 ≤ m) (hread : headerSize p ≤ s.readLen) :
    (fixedHeader s.inBuffer m).1 = m := by
  have hloop : ∀ more i totlen, 1 ≤ i → i + more < headerSize p →
      (lengthLoop s.inBuffer more i totlen).1 = i + more := by
    intro more
    induction more with
    | zero => exact fun i totlen _ _ => rfl
    | succ more ih =>
      intro i totlen hi hlt
      have hbyte : EspMqtt.byteAt (p.encode ++ rest) i < 128 ↔ _ :=
        byteAt_length hlen hi (by omega : i < headerSize p)
      have hmore : ¬ byteAt (p.encode ++ rest) i &&& 0x80 = 0 := by
        rw [and_0x80 _ (byteAt_lt _ _), hbyte]
        omega
      rw [lengthLoop, h.byteAt (by omega), if_neg hmore, ih (i + 1) _ (by omega) (by omega)]
      omega
  unfold fixedHeader
  rw [hloop _ 1 0 (Nat.le_refl 1) (by omega)]
  omega

/-- The identifier, looked for in as many bytes as there are of the payload. -/
theorem Arrived.msgId (h : Arrived n s (.publish dup qos retain topic id payload) rest) (hqos : qos ≠ 0) :
    mqttGetId s.inBuffer (UInt16.ofNat (s.readLen - headSize (.publish dup qos retain topic id payload))) =
      if headSize (.publish dup qos retain topic id payload) ≤
          s.readLen - headSize (.publish dup qos retain topic id payload) then id
      else 0 := by
  have hpos : mqttGetQos s.inBuffer > 0 := by
    rw [h.qos_eq]
    exact Nat.pos_of_ne_zero fun hz => hqos (Fin.ext hz)
  have hwordAt := h.topicLength
  generalize hp : Mqtt.Packet.publish dup qos retain topic id payload = p at h hwordAt ⊢
  obtain ⟨-, hdrop, -, hlen⟩ := publish_parts dup qos retain topic id payload rest p hp.symm
  have hread := h.readLen
  have hfits := h.fits.2.2
  have hsmall := h.fits.2.1
  have hpos' : 1 ≤ headerSize p := Nat.le_add_right 1 _
  have hhead : headSize p = headerSize p + 2 + topic.length + 2 := by
    rw [← hp]
    show _ + (if qos = 0 then 0 else 2) = _
    rw [if_neg hqos]
  have htype : mqttGetType s.inBuffer = 3 := by
    have hencode : mqttGetType (p.encode ++ rest) = 3 := by
      rw [mqttGetType_encode, ← hp]
      rfl
    rw [← hencode, mqttGetType, mqttGetType, h.carries.byteAt (by omega)]
  have hid : UInt16.ofNat (wordAt s.inBuffer (headerSize p + 2 + topic.length)) = id := by
    have hidword := drop_add_of_drop hdrop
    rw [if_neg hqos, List.append_assoc] at hidword
    rw [wordAt, h.carries.byteAt (by omega), h.carries.byteAt (by omega)]
    show UInt16.ofNat (wordAt (p.encode ++ rest) _) = id
    rw [wordAt_of_drop id.toNat_lt hidword, UInt16.ofNat_toNat]
  have ha : s.readLen - headSize p < 2 ^ 16 := by omega
  have hle : s.readLen - headSize p ≤ s.readLen := Nat.sub_le _ _
  generalize s.readLen - headSize p = a at ha hle ⊢
  unfold mqttGetId
  dsimp only
  rw [UInt16.toNat_ofNat_of_lt' ha, htype]
  by_cases hzero : a < 1
  · rw [if_pos hzero, if_neg (by omega)]
  rw [if_neg hzero]
  show (if (fixedHeader s.inBuffer a).1 + 2 ≥ a then 0
    else if (fixedHeader s.inBuffer a).1 + 2 + wordAt s.inBuffer (fixedHeader s.inBuffer a).1 > a then 0
    else if mqttGetQos s.inBuffer > 0 then
      if (fixedHeader s.inBuffer a).1 + 2 + wordAt s.inBuffer (fixedHeader s.inBuffer a).1 + 2 > a then 0
      else UInt16.ofNat (wordAt s.inBuffer
        ((fixedHeader s.inBuffer a).1 + 2 + wordAt s.inBuffer (fixedHeader s.inBuffer a).1))
    else 0) = _
  rcases Nat.lt_or_ge a (headerSize p) with hcut | hwhole
  · -- not even the fixed header is looked at in full
    rw [fixedHeader_short p h.wellFormed.remaining h.carries hcut (by omega) (by omega), if_pos (by omega),
      if_neg (by omega)]
  · have hfixed : (fixedHeader s.inBuffer a).1 = headerSize p := by
      have hat : ∀ j < 1 + (a - 1), byteAt s.inBuffer j = byteAt (p.encode ++ rest) j := by
        intro j hj
        exact h.carries.byteAt (by omega)
      unfold fixedHeader
      rw [lengthLoop_congr _ hat]
      exact congrArg Prod.fst (fixedHeader_encode h.wellFormed.remaining hwhole)
    rw [hfixed, hwordAt, if_pos hpos]
    split
    · rw [if_neg (by omega)]
    split
    · rw [if_neg (by omega)]
    split
    · rw [if_neg (by omega)]
    · rw [if_pos (by omega)]
      exact hid

/-- **The identifier of the first event** is that of the packet exactly when the event has at least as many
bytes of the payload as there are in front of it; otherwise it is zero. -/
theorem delivered_msgId (h : Arrived n s (.publish dup qos retain topic id payload) rest) (htopic : topic ≠ [])
    (hqos : qos ≠ 0) : ∃ first others, s.deliverPublish.2.1 = first :: others ∧
      first.msgId =
        if headSize (.publish dup qos retain topic id payload) ≤ first.data.length then id else 0 := by
  obtain ⟨hgetTopic, -⟩ := h.getTopic htopic
  obtain ⟨offset, hgetData, hwindow⟩ := h.getData
  obtain ⟨-, -, -, hlen⟩ := publish_parts dup qos retain topic id payload rest _ rfl
  have hread := h.readLen
  have hmsgId := h.msgId hqos
  have htake := List.length_take_of_le (l := payload)
    (show s.readLen - headSize (.publish dup qos retain topic id payload) ≤ payload.length by omega)
  unfold Inflow.deliverPublish
  rw [hgetTopic, hgetData]
  refine ⟨_, _, rfl, ?_⟩
  dsimp only
  rw [hwindow, htake]
  exact hmsgId

/-- What has come in of a `PUBLISH` with identifier 7 in a buffer of thirty-two bytes that holds it. -/
def wholePublish (payload : Bytes) : Inflow :=
  let packet : Bytes := [0x32, UInt8.ofNat (7 + payload.length), 0, 3] ++ str "t/1" ++ [0, 7] ++ payload
  ⟨packet ++ List.replicate (32 - packet.length) 0, packet.length, packet.length, [], []⟩

/-- Two bytes of payload are too few, eleven are enough. -/
theorem delivered_msgId_lengths :
    (∃ first others, (wholePublish (str "hi")).deliverPublish.2.1 = first :: others ∧ first.msgId = 0) ∧
      ∃ first others, (wholePublish (str "hello world")).deliverPublish.2.1 = first :: others ∧
        first.msgId = 7 := by
  have hshort : Arrived 32 (wholePublish (str "hi")) (.publish false 1 false (str "t/1") 7 (str "hi")) [] :=
    ⟨⟨by decide, by decide, by decide⟩, by decide, by decide, by decide, ⟨by decide, by decide, by decide⟩,
      by decide, by decide, by decide⟩
  have hlong : Arrived 32 (wholePublish (str "hello world"))
      (.publish false 1 false (str "t/1") 7 (str "hello world")) [] :=
    ⟨⟨by decide, by decide, by decide⟩, by decide, by decide, by decide, ⟨by decide, by decide, by decide⟩,
      by decide, by decide, by decide⟩
  constructor
  · obtain ⟨first, others, hevents, hid⟩ := delivered_msgId hshort (by decide) (by decide)
    have hdata : (wholePublish (str "hi")).deliverPublish.2.1.map (·.data.length) = [2] := by decide
    rw [hevents, List.map_cons] at hdata
    refine ⟨first, others, hevents, hid.trans (if_neg ?_)⟩
    rw [(List.cons.inj hdata).1]
    decide
  · obtain ⟨first, others, hevents, hid⟩ := delivered_msgId hlong (by decide) (by decide)
    have hdata : (wholePublish (str "hello world")).deliverPublish.2.1.map (·.data.length) = [11] := by decide
    rw [hevents, List.map_cons] at hdata
    refine ⟨first, others, hevents, hid.trans (if_pos ?_)⟩
    rw [(List.cons.inj hdata).1]
    decide

end Publish

end Inflow

end Espmod.EspMqtt
