/-
# Espmod.Web.Publish — `webclient::publishmqtt`

The message is built in a buffer whose size counts the topic, its length and the payload, but only two
of the four bytes of the fixed header and the packet identifier. So two bytes are stored behind the end
of the buffer, for every message, and what is sent is two bytes short (`sent_eq`). The remaining length
is written as one byte, whatever it is.
-/
import Espmod.Web.Mqtt
import Mathlib.Logic.Function.Basic

namespace Espmod.Web

open Espmod.Lib Espmod.Lib.Text

/-! ## §1 — the stores -/

/-- `packlen`, which is the size of the buffer and the number of bytes sent. -/
def packlen (topic payload : Bytes) : Nat := 2 + 2 + topic.length + payload.length

/-- The assignments to `msg[..]`, in their order. -/
def stores (topic : Bytes) (packetid : UInt16) (payload : Bytes) : List (Nat × UInt8) :=
  let len := topic.length
  [(0, UInt8.ofNat (MQTT_TYPE_PUBLISH <<< 4)), (1, UInt8.ofNat (packlen topic payload - 2)),
    (2, UInt8.ofNat ((len &&& 0xff00) >>> 8)), (3, UInt8.ofNat (len &&& 0xff))] ++
  topic.mapIdx (fun pos c => (4 + pos, c)) ++
  [(4 + len, UInt8.ofNat ((packetid.toNat &&& 0xff00) >>> 8)),
    (4 + len + 1, UInt8.ofNat (packetid.toNat &&& 0xff))] ++
  payload.mapIdx (fun pos c => (4 + len + 2 + pos, c))

/-- A store, inside the buffer or outside it. -/
def store (mem : Nat → UInt8) (s : Nat × UInt8) : Nat → UInt8 := Function.update mem s.1 s.2

/-- What `publishmqtt` gives to `send`; `junk` is what the new buffer holds. -/
def sent (junk : Nat → UInt8) (topic : Bytes) (packetid : UInt16) (payload : Bytes) : Bytes :=
  (List.range (packlen topic payload)).map ((stores topic packetid payload).foldl store junk)

/-! ## §2 — what is stored and what is sent -/

/-- The bytes that are stored, from the first place on. -/
def message (topic : Bytes) (packetid : UInt16) (payload : Bytes) : Bytes :=
  [UInt8.ofNat (MQTT_TYPE_PUBLISH <<< 4), UInt8.ofNat (packlen topic payload - 2)] ++
    (Mqtt.text topic ++ Mqtt.word packetid.toNat ++ payload)

theorem word_stored (n : Nat) : Mqtt.word n =
    [UInt8.ofNat ((n &&& 0xff00) >>> 8), UInt8.ofNat (n &&& 0xff)] := by
  have hhi : (n &&& 0xff00) >>> 8 = n / 256 % 2 ^ 8 := by
    rw [Nat.shiftRight_and_distrib, Nat.shiftRight_eq_div_pow]
    exact Nat.and_two_pow_sub_one_eq_mod (n / 2 ^ 8) 8
  have hlo : n &&& 0xff = n % 2 ^ 8 := Nat.and_two_pow_sub_one_eq_mod n 8
  rw [hhi, hlo, Mqtt.word]
  congr 1
  · exact UInt8.toNat_inj.mp (by simp)
  · exact congrArg (fun c => [c]) (UInt8.toNat_inj.mp (by simp))

/-- The stores go through the buffer from its start, and two places behind its end. -/
theorem stores_eq (topic : Bytes) (packetid : UInt16) (payload : Bytes) :
    stores topic packetid payload = (message topic packetid payload).mapIdx fun pos c => (pos, c) := by
  unfold stores message Mqtt.text
  rw [word_stored, word_stored]
  simp [List.mapIdx_append, List.append_assoc, Nat.add_comm, Nat.add_left_comm]
  simp only [Nat.add_assoc, Nat.reduceAdd]

theorem length_message (topic : Bytes) (packetid : UInt16) (payload : Bytes) :
    (message topic packetid payload).length = packlen topic payload + 2 := by
  unfold message packlen
  simp only [List.length_append, Mqtt.length_text, Mqtt.length_word, List.length_cons,
    List.length_nil]
  omega

/-- A place of the memory after stores in a row. -/
theorem stored (bs : Bytes) : ∀ (mem : Nat → UInt8) (base i : Nat),
    (bs.mapIdx fun pos c => (base + pos, c)).foldl store mem i =
      if base ≤ i then bs.getD (i - base) (mem i) else mem i := by
  induction bs with
  | nil =>
    intro mem base i
    split <;> rfl
  | cons b bs ih =>
    intro mem base i
    have hshift : (bs.mapIdx fun pos c => (base + (pos + 1), c)) =
        bs.mapIdx fun pos c => (base + 1 + pos, c) := by
      simp only [Nat.add_comm 1, Nat.add_assoc]
    rw [List.mapIdx_cons, List.foldl_cons, Nat.add_zero]
    show (bs.mapIdx fun pos c => (base + (pos + 1), c)).foldl store (store mem (base, b)) i = _
    rw [hshift, ih]
    unfold store
    by_cases hi : base ≤ i
    · rw [if_pos hi]
      obtain rfl | hlt := Nat.eq_or_lt_of_le hi
      · rw [if_neg (by omega), Nat.sub_self, Function.update_self]
        rfl
      · rw [if_pos (by omega), Function.update_of_ne (by omega)]
        obtain ⟨k, rfl⟩ : ∃ k, i = base + 1 + k := ⟨i - (base + 1), by omega⟩
        rw [show base + 1 + k - base = k + 1 by omega, Nat.add_sub_cancel_left]
        rfl
    · rw [if_neg hi, if_neg (by omega), Function.update_of_ne (by omega)]

/-- **What is sent**: the message without its last two bytes, whatever the buffer held. -/
theorem sent_eq (junk : Nat → UInt8) (topic : Bytes) (packetid : UInt16) (payload : Bytes) :
    sent junk topic packetid payload =
      (message topic packetid payload).take (packlen topic payload) := by
  have hlength := length_message topic packetid payload
  have hplace (i : Nat) : (stores topic packetid payload).foldl store junk i =
      (message topic packetid payload).getD i (junk i) := by
    have h := stored (message topic packetid payload) junk 0 i
    simp only [Nat.zero_add, Nat.zero_le, if_true, Nat.sub_zero] at h
    rw [stores_eq, h]
  unfold sent
  apply List.ext_getElem
  · rw [List.length_map, List.length_range, List.length_take, hlength]
    omega
  · intro i h₁ h₂
    have hi : i < packlen topic payload := by rwa [List.length_map, List.length_range] at h₁
    rw [List.getElem_map, List.getElem_range, hplace, List.getElem_take,
      List.getD_eq_getElem?_getD, List.getElem?_eq_getElem (by omega), Option.getD_some]

/-! ## §3 — no message is a packet -/

/-- **A packet is published**: nothing is stored outside the buffer, and what is sent is a `PUBLISH`
whose remaining length counts the topic with its length, the packet identifier and the payload. -/
structure Publishes (junk : Nat → UInt8) (topic : Bytes) (packetid : UInt16) (payload : Bytes) :
    Prop where
  inBounds : ∀ s ∈ stores topic packetid payload, s.1 < packlen topic payload
  framed : ∃ flags < 16, sent junk topic packetid payload = UInt8.ofNat (3 * 16 + flags) ::
    (Mqtt.lengthField (Mqtt.text topic ++ Mqtt.word packetid.toNat ++ payload).length ++
      (Mqtt.text topic ++ Mqtt.word packetid.toNat ++ payload))

/-- The last byte is stored behind the end. -/
theorem stores_outside (topic : Bytes) (packetid : UInt16) (payload : Bytes) :
    ∃ s ∈ stores topic packetid payload, packlen topic payload < s.1 := by
  have hlength := length_message topic packetid payload
  have hlt : packlen topic payload + 1 < (message topic packetid payload).length := by omega
  refine ⟨(packlen topic payload + 1, (message topic packetid payload)[packlen topic payload + 1]), ?_,
    Nat.lt_succ_self _⟩
  rw [stores_eq, List.mem_mapIdx]
  exact ⟨_, hlt, rfl⟩

/-- What is sent is shorter than the packet. -/
theorem length_sent (junk : Nat → UInt8) (topic : Bytes) (packetid : UInt16) (payload : Bytes) :
    (sent junk topic packetid payload).length =
      (Mqtt.text topic ++ Mqtt.word packetid.toNat ++ payload).length := by
  simp only [sent, packlen, List.length_map, List.length_range, List.length_append,
    Mqtt.length_text, Mqtt.length_word]
  omega

/-- **No packet is ever published**: of every topic, identifier and payload something is stored outside
the buffer, and what is sent is no packet of them. -/
theorem never_publishes (junk : Nat → UInt8) (topic : Bytes) (packetid : UInt16) (payload : Bytes) :
    ¬ (∀ s ∈ stores topic packetid payload, s.1 < packlen topic payload) ∧
      ¬ Publishes junk topic packetid payload ∧
      ∀ flags, sent junk topic packetid payload ≠ UInt8.ofNat (3 * 16 + flags) ::
        (Mqtt.lengthField (Mqtt.text topic ++ Mqtt.word packetid.toNat ++ payload).length ++
          (Mqtt.text topic ++ Mqtt.word packetid.toNat ++ payload)) := by
  have houtside : ¬ ∀ s ∈ stores topic packetid payload, s.1 < packlen topic payload := by
    intro h
    obtain ⟨s, hs, hlt⟩ := stores_outside topic packetid payload
    exact absurd (h s hs) (by omega)
  refine ⟨houtside, fun h => houtside h.inBounds, fun flags h => ?_⟩
  have hlength := congrArg List.length h
  rw [length_sent] at hlength
  generalize Mqtt.text topic ++ Mqtt.word packetid.toNat ++ payload = body at hlength
  rw [List.length_cons, List.length_append] at hlength
  omega

/-- `a` with the payload `x`: eight bytes are stored in a buffer of six. -/
theorem publish_overruns : ¬ Publishes (fun _ => 0) (str "a") 1 (str "x") := by
  intro h
  exact absurd (h.inBounds (7, chr 'x') (by decide)) (by decide)

end Espmod.Web
