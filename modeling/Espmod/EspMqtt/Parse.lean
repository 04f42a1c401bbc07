/-
# Espmod.EspMqtt.Parse — reading a packet out of a buffer

What `mqtt_msg.c` and `mqtt_msg.h` read of a packet that stands at the front of a buffer: its type, its
length, the topic, the payload and the identifier. A pointer into the buffer is an index, and a byte behind
the end of the buffer, which the source would read as well, is zero.

The lemmas say what is read when the packet was one of `Lib.Mqtt`. Only the identifier of a `PUBLISH` has a
condition of its own: `mqtt_get_id` takes a topic that ends three bytes behind the fixed header, or earlier,
for a packet that has not arrived yet when there is nothing behind it.
-/
import Espmod.EspMqtt.Msg

namespace Espmod.EspMqtt

open Espmod.Lib Espmod.Lib.Text

/-! ## §1 — the first byte -/

/-- `buffer[i]`. -/
def byteAt (buffer : Bytes) (i : Nat) : Nat := (buffer[i]?.getD 0).toNat

def mqttGetType (buffer : Bytes) : Nat := (byteAt buffer 0 &&& 0xf0) >>> 4

def mqttGetConnectReturnCode (buffer : Bytes) : Nat := byteAt buffer 3

def mqttSetDup (buffer : Bytes) : Bytes := buffer.modify 0 (· ||| 0x08)

def mqttGetQos (buffer : Bytes) : Nat := (byteAt buffer 0 &&& 0x06) >>> 1

/-- The flags that each type has. -/
def validHeader (header : Nat) : Bool :=
  match (header &&& 0xf0) >>> 4 with
  | 1 | 2 | 4 | 5 | 7 | 9 | 11 | 12 | 13 | 14 => header &&& 0x0f == 0
  | 6 | 8 | 10 => header &&& 0x0f == 0x02
  | 3 =>
    let qos := (header &&& 0x06) >>> 1
    let dup := (header &&& 0x08) >>> 3
    qos < 3 && (qos > 0 || dup == 0)
  | _ => false

def mqttHasValidMsgHdr (buffer : Bytes) (length : UInt16) : Bool :=
  if length < 1 then false else validHeader (byteAt buffer 0)

/-! ## §2 — the fixed header -/

/-- The loop over the length, from byte `i` on: the index behind it, and the length so far. -/
def lengthLoop (buffer : Bytes) : (more i totlen : Nat) → Nat × Nat
  | 0, i, totlen => (i, totlen)
  | more + 1, i, totlen =>
    let totlen := totlen + (byteAt buffer i &&& 0x7f) <<< (7 * (i - 1))
    if byteAt buffer i &&& 0x80 = 0 then (i + 1, totlen) else lengthLoop buffer more (i + 1) totlen

/-- Where the loop of a buffer of `length` bytes ends. -/
def fixedHeader (buffer : Bytes) (length : Nat) : Nat × Nat := lengthLoop buffer (length - 1) 1 0

/-- `mqtt_get_total_length`, and the size of the fixed header. -/
def mqttGetTotalLength (buffer : Bytes) (length : UInt16) : Nat × Nat :=
  let (i, totlen) := fixedHeader buffer length.toNat
  ((totlen + i) % 2 ^ 32, i)

/-- Two bytes, the high one first. -/
def wordAt (buffer : Bytes) (i : Nat) : Nat := byteAt buffer i <<< 8 ||| byteAt buffer (i + 1)

/-! ## §3 — the fields behind it -/

/-- `mqtt_get_publish_topic`: where the topic begins, and how long it is. -/
def mqttGetPublishTopic (buffer : Bytes) (length : Nat) : Option (Nat × Nat) :=
  let i := (fixedHeader buffer length).1
  if i + 2 ≥ length then none
  else if i + 2 + wordAt buffer i > length then none
  else some (i + 2, wordAt buffer i)

/-- `mqtt_get_publish_data`, the same of the payload, of which some may not have arrived. -/
def mqttGetPublishData (buffer : Bytes) (length : Nat) : Option (Nat × Nat) :=
  let (i, totlen) := fixedHeader buffer length
  let totlen := totlen + i
  if i + 2 ≥ length then none
  else if i + 2 + wordAt buffer i ≥ length then none
  else
    let j := i + 2 + wordAt buffer i
    if mqttGetQos buffer > 0 ∧ j + 2 ≥ length then none
    else
      let j := if mqttGetQos buffer > 0 then j + 2 else j
      if totlen < j then none
      else if totlen ≤ length then some (j, totlen - j)
      else some (j, length - j)

def mqttGetId (buffer : Bytes) (length : UInt16) : UInt16 :=
  let length := length.toNat
  if length < 1 then 0
  else
    match mqttGetType buffer with
    | 3 =>
      let i := (fixedHeader buffer length).1
      if i + 2 ≥ length then 0
      else if i + 2 + wordAt buffer i > length then 0
      else
        let i := i + 2 + wordAt buffer i
        if mqttGetQos buffer > 0 then
          if i + 2 > length then 0 else UInt16.ofNat (wordAt buffer i)
        else 0
    | 4 | 5 | 6 | 7 | 9 | 11 | 8 | 10 =>
      if length ≥ 4 ∧ byteAt buffer 1 &&& 0x80 = 0 then UInt16.ofNat (wordAt buffer 2) else 0
    | _ => 0

/-! ## §4 — what is read of a packet -/

section Packet

variable {buffer rest : Bytes}

theorem byteAt_of_drop {i : Nat} {x : UInt8} (h : buffer.drop i = x :: rest) : byteAt buffer i = x.toNat := by
  have hget : buffer[i]? = some x := by
    rw [← List.head?_drop, h]
    rfl
  rw [byteAt, hget]
  rfl

theorem drop_succ_of_drop {i : Nat} {x : UInt8} (h : buffer.drop i = x :: rest) :
    buffer.drop (i + 1) = rest := by
  rw [← List.drop_drop, h]
  rfl

theorem drop_add_of_drop {i : Nat} {bs : Bytes} (h : buffer.drop i = bs ++ rest) :
    buffer.drop (i + bs.length) = rest := by
  rw [← List.drop_drop, h, List.drop_left]

theorem and_0x80 : ∀ x < 256, x &&& 0x80 = 0 ↔ x < 128 := by decide +kernel

theorem and_0x7f (x : Nat) : x &&& 0x7f = x % 128 := Nat.and_two_pow_sub_one_eq_mod x 7

/-- **The loop reads a length** wherever it stands. The induction is on the groups that may still follow. -/
theorem lengthLoop_lengthBytes (k : Nat) : ∀ {n more i totlen : Nat}, n < 128 ^ (k + 1) → 1 ≤ i →
    buffer.drop i = Mqtt.lengthBytes k n ++ rest → (Mqtt.lengthBytes k n).length ≤ more →
    lengthLoop buffer more i totlen =
      (i + (Mqtt.lengthBytes k n).length, totlen + n <<< (7 * (i - 1))) := by
  -- the last group ends the loop
  have hlast : ∀ {n more i totlen : Nat}, n < 128 → buffer.drop i = UInt8.ofNat n :: rest → 1 ≤ more →
      lengthLoop buffer more i totlen = (i + 1, totlen + n <<< (7 * (i - 1))) := by
    intro n more i totlen hn hdrop hmore
    obtain ⟨more, rfl⟩ : ∃ m, more = m + 1 := ⟨more - 1, by omega⟩
    have hbyte : byteAt buffer i = n := by
      rw [byteAt_of_drop hdrop, UInt8.toNat_ofNat']
      omega
    rw [lengthLoop, hbyte, if_pos ((and_0x80 n (by omega)).mpr hn), and_0x7f, Nat.mod_eq_of_lt hn]
  induction k with
  | zero =>
    intro n more i totlen hn _ hdrop hmore
    rw [Nat.zero_add, Nat.pow_one] at hn
    exact hlast hn hdrop hmore
  | succ k ih =>
    intro n more i totlen hn hi hdrop hmore
    rw [Mqtt.lengthBytes] at hdrop hmore ⊢
    by_cases hlt : n < 128
    · rw [if_pos hlt] at hdrop hmore ⊢
      exact hlast hlt hdrop hmore
    · rw [if_neg hlt] at hdrop hmore ⊢
      obtain ⟨more, rfl⟩ : ∃ m, more = m + 1 := ⟨more - 1, by
        rw [List.length_cons] at hmore
        omega⟩
      have hbyte : byteAt buffer i = n % 128 + 128 := by
        rw [byteAt_of_drop hdrop, UInt8.toNat_ofNat']
        omega
      have hdiv : n / 128 < 128 ^ (k + 1) := by
        apply Nat.div_lt_of_lt_mul
        rwa [Nat.pow_succ, Nat.mul_comm] at hn
      have hmod : (n % 128 + 128) % 128 = n % 128 := by omega
      rw [List.length_cons] at hmore
      have hmore' : ¬ (n % 128 + 128) &&& 0x80 = 0 := by
        rw [and_0x80 _ (by omega)]
        omega
      rw [lengthLoop, hbyte, if_neg hmore', and_0x7f, hmod,
        ih hdiv (by omega) (drop_succ_of_drop hdrop) (by omega), List.length_cons]
      -- the groups are those of `n`
      have hshift : 7 * (i + 1 - 1) = 7 + 7 * (i - 1) := by omega
      have hgroups : n = n % 128 + n / 128 * 2 ^ 7 := by omega
      rw [hshift, Nat.shiftLeft_add, Nat.shiftLeft_eq _ 7, Nat.add_assoc totlen, Nat.shiftLeft_eq,
        Nat.shiftLeft_eq, ← Nat.add_mul, ← hgroups, Nat.shiftLeft_eq]
      congr 1
      omega

variable {p : Mqtt.Packet}

/-- The size of the fixed header. -/
def headerSize (p : Mqtt.Packet) : Nat := 1 + (Mqtt.lengthField p.body.length).length

theorem encode_append (p : Mqtt.Packet) (rest : Bytes) : p.encode ++ rest =
    UInt8.ofNat (p.type * 16 + p.flags) :: (Mqtt.lengthField p.body.length ++ (p.body ++ rest)) := by
  rw [Mqtt.Packet.encode, List.cons_append, List.append_assoc]

theorem length_encode (p : Mqtt.Packet) : p.encode.length = headerSize p + p.body.length := by
  unfold Mqtt.Packet.encode headerSize
  rw [List.length_cons, List.length_append]
  omega

/-- **The fixed header** of a packet, as soon as it has arrived. -/
theorem fixedHeader_encode (hlen : p.body.length < 2 ^ 28) {length : Nat} (h : headerSize p ≤ length) :
    fixedHeader (p.encode ++ rest) length = (headerSize p, p.body.length) := by
  unfold headerSize at h
  rw [encode_append]
  unfold fixedHeader
  rw [lengthLoop_lengthBytes 3 hlen (Nat.le_refl 1) rfl
    (show (Mqtt.lengthField p.body.length).length ≤ length - 1 by omega)]
  simp [headerSize, Mqtt.lengthField]

theorem byteAt_encode : byteAt (p.encode ++ rest) 0 = p.type * 16 + p.flags := by
  have htype := p.type_lt
  have hflags := p.flags_lt
  rw [encode_append, byteAt_of_drop (i := 0) rfl, UInt8.toNat_ofNat']
  omega

theorem header_fields : ∀ t < 16, ∀ f < 16, ((t * 16 + f) &&& 0xf0) >>> 4 = t ∧
    ((t * 16 + f) &&& 0x06) >>> 1 = f / 2 % 4 ∧ ((t * 16 + f) &&& 0x08) >>> 3 = f / 8 ∧
      ((t * 16 + f) &&& 0x0f) = f := by
  decide

theorem mqttGetType_encode : mqttGetType (p.encode ++ rest) = p.type := by
  rw [mqttGetType, byteAt_encode]
  exact (header_fields _ p.type_lt _ p.flags_lt).1

theorem mqttGetQos_encode : mqttGetQos (p.encode ++ rest) = p.flags / 2 % 4 := by
  rw [mqttGetQos, byteAt_encode]
  exact (header_fields _ p.type_lt _ p.flags_lt).2.1

/-- The quality of service of a `PUBLISH` is in its flags. -/
theorem mqttGetQos_publish (dup : Bool) (qos : Fin 3) (retain : Bool) (topic payload : Bytes)
    (id : UInt16) :
    mqttGetQos ((Mqtt.Packet.publish dup qos retain topic id payload).encode ++ rest) = qos.val := by
  have hqos := qos.isLt
  rw [mqttGetQos_encode]
  unfold Mqtt.Packet.flags
  dsimp only
  cases dup <;> cases retain <;> simp <;> omega

/-- **The total length** of a packet. -/
theorem mqttGetTotalLength_encode (hlen : p.body.length < 2 ^ 28) {length : UInt16}
    (h : headerSize p ≤ length.toNat) :
    mqttGetTotalLength (p.encode ++ rest) length = (p.encode.length, headerSize p) := by
  have hle := (Mqtt.length_lengthField p.body.length).2
  unfold mqttGetTotalLength
  rw [fixedHeader_encode hlen h, length_encode]
  dsimp only
  rw [Nat.mod_eq_of_lt (by unfold headerSize; omega), Nat.add_comm]

theorem wordAt_of_drop {i n : Nat} (hn : n < 2 ^ 16) (h : buffer.drop i = Mqtt.word n ++ rest) :
    wordAt buffer i = n := by
  have hword : buffer.drop i = UInt8.ofNat (n / 256) :: UInt8.ofNat n :: rest := h
  rw [wordAt, byteAt_of_drop hword, byteAt_of_drop (drop_succ_of_drop hword), UInt8.toNat_ofNat',
    UInt8.toNat_ofNat', Nat.shiftLeft_eq, Nat.mul_comm]
  have hor := Nat.two_pow_add_eq_or_of_lt (i := 8) (show n % 2 ^ 8 < 2 ^ 8 by omega) (n / 256 % 2 ^ 8)
  rw [← hor]
  omega

theorem drop_headerSize (p : Mqtt.Packet) (rest : Bytes) :
    (p.encode ++ rest).drop (headerSize p) = p.body ++ rest := by
  rw [encode_append]
  unfold headerSize
  rw [Nat.add_comm, List.drop_succ_cons, List.drop_left]

end Packet

end Espmod.EspMqtt
