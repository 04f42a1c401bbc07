/-
# Espmod.Lib.Mqtt — control packets of MQTT 3.1.1

A packet is a byte with its type and flags, the remaining length in one to four bytes of seven bits
each, and as many bytes as that. `Packet` has the layouts as constructors, so that what a packet says is
read off its arguments; `encode` is its bytes.
-/
import Espmod.Lib.Text

namespace Espmod.Lib.Mqtt

open Espmod.Lib.Text

/-! ## §1 — fields -/

/-- The remaining length, with at most `more` bytes behind the first. -/
def lengthBytes : Nat → Nat → Bytes
  | 0, n => [UInt8.ofNat n]
  | more + 1, n =>
    if n < 128 then [UInt8.ofNat n] else UInt8.ofNat (n % 128 + 128) :: lengthBytes more (n / 128)

/-- The remaining length. -/
def lengthField (n : Nat) : Bytes := lengthBytes 3 n

/-- A number of two bytes, the high one first. -/
def word (n : Nat) : Bytes := [UInt8.ofNat (n / 256), UInt8.ofNat n]

/-- A string behind its length. -/
def text (s : Bytes) : Bytes := word s.length ++ s

theorem length_word (n : Nat) : (word n).length = 2 := rfl

theorem length_text (s : Bytes) : (text s).length = 2 + s.length := by
  rw [text, List.length_append, length_word]

theorem length_lengthBytes (more n : Nat) :
    1 ≤ (lengthBytes more n).length ∧ (lengthBytes more n).length ≤ more + 1 := by
  induction more generalizing n with
  | zero => exact ⟨Nat.le_refl 1, Nat.le_refl 1⟩
  | succ more ih =>
    rw [lengthBytes]
    split
    · exact ⟨Nat.le_refl 1, Nat.le_add_left 1 _⟩
    · have hrest := ih (n / 128)
      rw [List.length_cons]
      omega

theorem length_lengthField (n : Nat) : 1 ≤ (lengthField n).length ∧ (lengthField n).length ≤ 4 :=
  length_lengthBytes 3 n

/-! ## §2 — packets -/

/-- The packets whose variable header this development does not look into. -/
inductive Kind where
  | connect
  | connack
  | puback
  | pubrec
  | pubcomp
  | suback
  | unsubscribe
  | unsuback
  | pingreq
  | pingresp
  | disconnect
  deriving DecidableEq, Repr

/-- The control packet type. -/
def Kind.type : Kind → Nat
  | connect => 1
  | connack => 2
  | puback => 4
  | pubrec => 5
  | pubcomp => 7
  | suback => 9
  | unsubscribe => 10
  | unsuback => 11
  | pingreq => 12
  | pingresp => 13
  | disconnect => 14

/-- The reserved flags. -/
def Kind.flags : Kind → Nat
  | unsubscribe => 2
  | _ => 0

theorem Kind.type_flags_lt (kind : Kind) : kind.type < 16 ∧ kind.flags < 16 := by
  cases kind <;> decide

/-- The remaining lengths a packet of this kind can have. -/
def Kind.takes (n : Nat) : Kind → Prop
  | connect => 12 ≤ n
  | suback => 3 ≤ n
  | unsubscribe => 5 ≤ n
  | pingreq | pingresp | disconnect => n = 0
  | connack | puback | pubrec | pubcomp | unsuback => n = 2

/-- **A control packet.** A `publish` with quality of service 0 has no packet identifier, and its `id`
stands for nothing. -/
inductive Packet where
  | publish (dup : Bool) (qos : Fin 3) (retain : Bool) (topic : Bytes) (id : UInt16) (payload : Bytes)
  | pubrel (id : UInt16)
  | subscribe (id : UInt16) (filters : List (Bytes × Fin 3))
  | other (kind : Kind) (body : Bytes)

namespace Packet

def type : Packet → Nat
  | publish .. => 3
  | pubrel _ => 6
  | subscribe .. => 8
  | other kind _ => kind.type

def flags : Packet → Nat
  | publish dup qos retain _ _ _ => (if dup then 8 else 0) + 2 * qos + if retain then 1 else 0
  | pubrel _ => 2
  | subscribe .. => 2
  | other kind _ => kind.flags

/-- What follows the remaining length. -/
def body : Packet → Bytes
  | publish _ qos _ topic id payload =>
    text topic ++ (if qos = 0 then [] else word id.toNat) ++ payload
  | pubrel id => word id.toNat
  | subscribe id filters => word id.toNat ++ filters.flatMap fun f => text f.1 ++ [UInt8.ofNat f.2]
  | other _ body => body

/-- The bytes of a packet. -/
def encode (p : Packet) : Bytes :=
  UInt8.ofNat (p.type * 16 + p.flags) :: (lengthField p.body.length ++ p.body)

/-- The packet can be sent as it is. -/
structure WellFormed (p : Packet) : Prop where
  remaining : p.body.length < 2 ^ 28
  layout : match p with
    | publish _ _ _ topic _ _ => topic.length < 2 ^ 16 ∧ 0 ∉ topic
    | pubrel _ => True
    | subscribe _ filters => filters ≠ [] ∧ ∀ f ∈ filters, f.1.length < 2 ^ 16
    | other kind body => kind.takes body.length

theorem type_lt (p : Packet) : p.type < 16 := by
  cases p with
  | other kind _ => exact kind.type_flags_lt.1
  | _ => exact Nat.lt_of_sub_pos (Nat.succ_pos _)

theorem flags_lt (p : Packet) : p.flags < 16 := by
  cases p with
  | publish dup qos retain _ _ _ =>
    have hqos := qos.isLt
    unfold flags
    dsimp only
    split <;> split <;> omega
  | other kind _ => exact kind.type_flags_lt.2
  | _ => exact Nat.lt_of_sub_pos (Nat.succ_pos _)

end Packet

end Espmod.Lib.Mqtt
