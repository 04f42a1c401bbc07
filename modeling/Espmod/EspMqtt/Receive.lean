/-
# Espmod.EspMqtt.Receive — taking a packet off the connection

`mqtt_message_receive` takes what has arrived of a packet and comes back for the rest: a call ends with an
error, with the packet still to come, or with the packet in the buffer. Where the next call goes on it can
only tell from the number of bytes it has and from the last of them. That byte is taken for a byte of the
length when its top bit is set and there are fewer than six, also when it belongs to what follows the length.

A packet is thus taken whole, whatever the pieces it arrives in (`Carries.mqttMessageReceive`), unless a call goes on
behind the length of a packet of fewer than six bytes that have, from the last one read on, all their top
bit set (`Swallows`). A `PUBLISH` that is longer than the buffer is left for the reader of its payload once
the buffer is full.

A call of `esp_transport_read` gives an error, or what has arrived in time, if anything, up to the number of
bytes that it asks for.
-/
import Espmod.EspMqtt.Parse

namespace Espmod.EspMqtt

open Espmod.Lib Espmod.Lib.Text Espmod.Lib.Words Espmod.Lib.Window

attribute [local instance] neZero_three

/-! ## §1 — the calls -/

/-- What one read of the transport meets. -/
inductive Arrival where
  | error
  | upTo (n : Nat)
  deriving DecidableEq, Repr

/-- The side of `mqtt_state_t` that receives, and what the peer has sent. -/
structure Inflow where
  inBuffer : Bytes
  /-- `in_buffer_read_len`. -/
  readLen : Nat
  messageLength : Nat
  stream : Bytes
  arrivals : List Arrival
  deriving DecidableEq, Repr

/-- The values -1, 0 and 1 of `mqtt_message_receive`. -/
inductive Outcome where
  | failed
  | pending
  | done
  deriving DecidableEq, Repr

/-- The next part of a call, if the call has not ended. -/
def andThen (r : Outcome × Inflow) (next : Inflow → Outcome × Inflow) : Outcome × Inflow :=
  match r with
  | (.done, s) => next s
  | r => r

namespace Inflow

/-- `esp_transport_read`, `none` for an error. -/
def espTransportRead (s : Inflow) (len : Nat) : Option Bytes × Inflow :=
  match s.arrivals with
  | [] => (some [], s)
  | .error :: arrivals => (none, { s with arrivals := arrivals })
  | .upTo n :: arrivals =>
    (some (s.stream.take (min n len)),
      { s with stream := s.stream.drop (min n len), arrivals := arrivals })

/-- What was read goes behind what is there. -/
def store (s : Inflow) (bs : Bytes) : Inflow :=
  { s with inBuffer := overlay s.inBuffer s.readLen bs, readLen := s.readLen + bs.length }

def fetch (s : Inflow) (len : Nat) : Outcome × Inflow :=
  match s.espTransportRead len with
  | (none, s) => (.failed, s)
  | (some [], s) => (.pending, s)
  | (some bs, s) => (.done, s.store bs)

/-- The first byte, with the flags that its type has. -/
def readFirst (s : Inflow) : Outcome × Inflow :=
  if s.readLen = 0 then
    andThen (s.fetch 1) fun s =>
      if mqttHasValidMsgHdr s.inBuffer 1 then (.done, s) else (.failed, { s with readLen := 0 })
  else (.done, s)

/-- `(in_buffer_read_len < 6) && (*(buf - 1) & 0x80)`. -/
def moreLength (s : Inflow) : Prop := s.readLen < 6 ∧ byteAt s.inBuffer (s.readLen - 1) &&& 0x80 ≠ 0

instance (s : Inflow) : Decidable s.moreLength := inferInstanceAs (Decidable (_ ∧ _))

/-- The loop over the length. There are at most five rounds. -/
def lengthRounds : Nat → Inflow → Outcome × Inflow
  | 0, s => (.done, s)
  | rounds + 1, s =>
    andThen (s.fetch 1) fun s => if s.moreLength then lengthRounds rounds s else (.done, s)

def readLength (s : Inflow) : Outcome × Inflow :=
  if s.readLen = 1 ∨ s.moreLength then lengthRounds 5 s else (.done, s)

/-- The rest, of which not all may have arrived. -/
def readUpTo (total : Nat) (s : Inflow) : Outcome × Inflow :=
  if s.readLen < total then
    andThen (s.fetch (total - s.readLen)) fun s =>
      if s.readLen < total then (.pending, s) else (.done, s)
  else (.done, s)

/-- The length of the topic. The source asks for one byte more, not fewer, where it has one already. -/
def readTopicLength (fixed : Nat) (s : Inflow) : Outcome × Inflow :=
  if s.readLen < fixed + 2 then
    andThen (s.fetch (s.readLen - fixed + 2)) fun s =>
      if s.readLen < fixed + 2 then (.pending, s) else (.done, s)
  else (.done, s)

/-- What follows the length. -/
def readBody (s : Inflow) : Outcome × Inflow :=
  let (total, fixed) := mqttGetTotalLength s.inBuffer (UInt16.ofNat s.readLen)
  let s := { s with messageLength := total }
  if s.inBuffer.length < total then
    if mqttGetType s.inBuffer = 3 then
      andThen (s.readTopicLength fixed) fun s =>
        -- without the two bytes that were just read
        if s.inBuffer.length < fixed + wordAt s.inBuffer fixed + (if mqttGetQos s.inBuffer > 0 then 2 else 0)
        then (.failed, s)
        else s.readUpTo s.inBuffer.length
    else (.failed, s)
  else s.readUpTo total

/-- `mqtt_message_receive`. -/
def mqttMessageReceive (s : Inflow) : Outcome × Inflow :=
  andThen (andThen (readFirst { s with messageLength := 0 }) readLength) readBody

/-! ## §2 — what a call keeps -/

/-- The connection carries `data`, the first `readLen` bytes of which are in the buffer. -/
structure Carries (s : Inflow) (data : Bytes) : Prop where
  within : s.readLen ≤ s.inBuffer.length
  bytes : s.inBuffer.take s.readLen ++ s.stream = data
  clean : .error ∉ s.arrivals

/-- Reading up to `limit` bytes of it. -/
structure Reads (data : Bytes) (limit : Nat) (s s' : Inflow) : Prop where
  carries : s'.Carries data
  le : s.readLen ≤ s'.readLen
  limit : s'.readLen ≤ limit
  buffer : s'.inBuffer.length = s.inBuffer.length

/-- A part of a call reads, and has `P` when the call goes on. -/
structure Result (data : Bytes) (limit : Nat) (s : Inflow) (P : Inflow → Prop) (r : Outcome × Inflow) :
    Prop where
  reads : Reads data limit s r.2
  fails : r.1 ≠ .failed
  waits : r.1 = .pending → r.2.readLen < limit
  goes : r.1 = .done → P r.2

variable {s s' : Inflow} {data : Bytes} {limit : Nat} {P Q : Inflow → Prop} {r : Outcome × Inflow}

theorem Carries.stay (h : s.Carries data) (hlimit : s.readLen ≤ limit) : Reads data limit s s :=
  ⟨h, Nat.le_refl _, hlimit, rfl⟩

theorem Result.mono (h : Result data limit s P r) (hP : ∀ s', P s' → Q s') : Result data limit s Q r :=
  ⟨h.reads, h.fails, h.waits, fun hdone => hP _ (h.goes hdone)⟩

/-- Only the buffer and the number of bytes in it matter at the start. -/
theorem Result.start {t : Inflow} (h : Result data limit t P r) (hread : t.readLen = s.readLen)
    (hbuffer : t.inBuffer = s.inBuffer) : Result data limit s P r :=
  ⟨⟨h.reads.carries, hread ▸ h.reads.le, h.reads.limit, hbuffer ▸ h.reads.buffer⟩, h.fails, h.waits, h.goes⟩

/-- **One part after the other.** -/
theorem Result.andThen (h : Result data limit s P r) {next : Inflow → Outcome × Inflow}
    (hnext : ∀ s', Reads data limit s s' → P s' → Result data limit s' Q (next s')) :
    Result data limit s Q (andThen r next) := by
  obtain ⟨o, s₁⟩ := r
  cases o with
  | failed => exact absurd rfl h.fails
  | pending => exact ⟨h.reads, h.fails, h.waits, nofun⟩
  | done =>
    obtain ⟨⟨hcarries, hle, hlimit, hbuffer⟩, hfails, hwaits, hgoes⟩ := hnext s₁ h.reads (h.goes rfl)
    exact ⟨⟨hcarries, h.reads.le.trans hle, hlimit, hbuffer.trans h.reads.buffer⟩, hfails, hwaits, hgoes⟩

/-- A byte that is in the buffer. -/
theorem Carries.byteAt (h : s.Carries data) {i : Nat} (hi : i < s.readLen) :
    byteAt s.inBuffer i = EspMqtt.byteAt data i := by
  have hlen : i < (s.inBuffer.take s.readLen).length := by
    rw [List.length_take]
    exact lt_min hi (lt_of_lt_of_le hi h.within)
  rw [EspMqtt.byteAt, EspMqtt.byteAt, ← h.bytes, List.getElem?_append_left hlen, List.getElem?_take, if_pos hi]

theorem Carries.store {bs stream : Bytes} (h : s.Carries data) (hs : s.stream = bs ++ stream)
    (hroom : s.readLen + bs.length ≤ s.inBuffer.length) {arrivals : List Arrival}
    (hclean : .error ∉ arrivals) :
    Carries (Inflow.store { s with stream := stream, arrivals := arrivals } bs) data := by
  have hlength := overlay_length (l := s.inBuffer) hroom
  refine ⟨hroom.trans hlength.ge, ?_, hclean⟩
  have htake : window (overlay s.inBuffer (0 + s.readLen) bs) 0 (s.readLen + bs.length) =
      window s.inBuffer 0 s.readLen ++ bs := window_append (by omega)
  simp only [window, List.drop_zero, Nat.zero_add] at htake
  show (overlay s.inBuffer s.readLen bs).take (s.readLen + bs.length) ++ stream = data
  rw [htake, List.append_assoc, ← hs]
  exact h.bytes

/-- **One read** of at most `len` bytes. -/
theorem Carries.fetch (h : s.Carries data) {len : Nat} (hpos : 0 < len) (hroom : s.readLen + len ≤ limit)
    (hlimit : limit ≤ s.inBuffer.length) :
    Result data limit s (fun s' => s.readLen < s'.readLen ∧ s'.readLen ≤ s.readLen + len ∧
      s'.messageLength = s.messageLength) (s.fetch len) := by
  have hwithin : s.readLen ≤ limit := by omega
  have hclean := h.clean
  unfold Inflow.fetch espTransportRead
  split
  · next heq =>
    -- an error would be among the arrivals
    split at heq <;> simp_all
  · next s₁ heq =>
    -- only the arrivals have changed
    have hsame : Reads data limit s s₁ ∧ s₁.readLen = s.readLen := by
      split at heq
      · simp only [Prod.mk.injEq, true_and] at heq
        rw [← heq]
        exact ⟨h.stay hwithin, rfl⟩
      · simp at heq
      · next n arrivals harrivals =>
        simp only [Prod.mk.injEq, Option.some.injEq] at heq
        obtain ⟨hbs, rfl⟩ := heq
        have hstream : s.stream = s.stream.drop (min n len) := by
          have htake := List.take_append_drop (min n len) s.stream
          rwa [hbs, List.nil_append, eq_comm] at htake
        refine ⟨⟨⟨h.within, ?_, fun hmem => hclean ?_⟩, Nat.le_refl _, hwithin, rfl⟩, rfl⟩
        · show s.inBuffer.take s.readLen ++ s.stream.drop (min n len) = data
          rw [← hstream]
          exact h.bytes
        · rw [harrivals]
          exact List.mem_cons_of_mem _ hmem
    refine ⟨hsame.1, nofun, fun _ => ?_, nofun⟩
    show s₁.readLen < limit
    omega
  · next bs s₁ hne heq =>
    split at heq
    · simp only [Prod.mk.injEq, Option.some.injEq] at heq
      exact absurd heq.1.symm (by simpa using hne)
    · simp at heq
    · next n arrivals harrivals =>
      simp only [Prod.mk.injEq, Option.some.injEq] at heq
      obtain ⟨hbs, rfl⟩ := heq
      have hpos : 0 < bs.length := by
        apply List.length_pos_of_ne_nil
        simpa using hne
      have hle : bs.length ≤ len := by
        rw [← hbs, List.length_take]
        omega
      have hfits : s.readLen + bs.length ≤ s.inBuffer.length := by omega
      have hclean' : .error ∉ arrivals := fun hmem => hclean (by
        rw [harrivals]
        exact List.mem_cons_of_mem _ hmem)
      have hsplit : s.stream = bs ++ s.stream.drop (min n len) := by
        rw [← hbs, List.take_append_drop]
      refine ⟨⟨h.store hsplit hfits hclean', ?_, ?_, overlay_length hfits⟩, nofun, nofun,
        fun _ => ⟨?_, ?_, rfl⟩⟩
      · exact Nat.le_add_right _ _
      · show s.readLen + bs.length ≤ limit
        omega
      · show s.readLen < s.readLen + bs.length
        omega
      · show s.readLen + bs.length ≤ s.readLen + len
        omega

/-! ## §3 — the length -/

theorem byteAt_lt (buffer : Bytes) (i : Nat) : EspMqtt.byteAt buffer i < 256 := UInt8.toNat_lt _

/-- Whether the loop goes on, seen in the data. -/
theorem Carries.moreLength (h : s.Carries data) (hpos : 0 < s.readLen) :
    s.moreLength ↔ s.readLen < 6 ∧ 128 ≤ EspMqtt.byteAt data (s.readLen - 1) := by
  have hlast : s.readLen - 1 < s.readLen := by omega
  unfold Inflow.moreLength
  rw [h.byteAt hlast, ne_eq, and_0x80 _ (byteAt_lt _ _), Nat.not_lt]

/-- **The loop** ends at `e` at the latest, if it does not go on from there. -/
theorem Carries.lengthRounds {e : Nat} (helimit : e ≤ limit)
    (hend : 6 ≤ e ∨ EspMqtt.byteAt data (e - 1) < 128) (rounds : Nat) :
    ∀ {s : Inflow}, s.Carries data → limit ≤ s.inBuffer.length → s.readLen < e → e ≤ s.readLen + rounds →
      Result data limit s (fun s' => s.readLen < s'.readLen ∧ ¬ s'.moreLength) (lengthRounds rounds s) := by
  induction rounds with
  | zero =>
    intro s _ _ hlt hle
    omega
  | succ rounds ih =>
    intro s h hlimit hlt hle
    apply (h.fetch (by decide) (by omega) hlimit).andThen
    rintro s₁ hreads ⟨hgrow, hone, -⟩
    have hlen : s₁.readLen = s.readLen + 1 := by omega
    have hbuffer := hreads.buffer
    by_cases hmore : s₁.moreLength
    · -- it cannot go on at `e`, so `e` is still ahead
      obtain ⟨hlt6, hbig⟩ := (hreads.carries.moreLength (by omega)).mp hmore
      have hahead : s₁.readLen ≠ e := by
        rintro rfl
        omega
      rw [if_pos hmore]
      apply (ih hreads.carries (by omega) (by omega) (by omega)).mono
      rintro s₂ ⟨hgrow₂, hno⟩
      exact ⟨by omega, hno⟩
    · rw [if_neg hmore]
      exact ⟨hreads.carries.stay hreads.limit, nofun, nofun, fun _ => ⟨hgrow, hmore⟩⟩

theorem Carries.readLength {e : Nat} (h : s.Carries data) (hlimit : limit ≤ s.inBuffer.length)
    (hle : s.readLen ≤ limit) (hpos : 1 ≤ s.readLen)
    (hstops : s.readLen = 1 ∨ s.moreLength → s.readLen < e ∧ e ≤ limit ∧ e ≤ s.readLen + 5 ∧
      (6 ≤ e ∨ EspMqtt.byteAt data (e - 1) < 128)) :
    Result data limit s (fun s' => 2 ≤ s'.readLen ∧ ¬ s'.moreLength) s.readLength := by
  unfold Inflow.readLength
  split
  · next henter =>
    obtain ⟨hlt, helimit, hrounds, hend⟩ := hstops henter
    apply (Carries.lengthRounds helimit hend 5 h hlimit hlt hrounds).mono
    rintro s₁ ⟨hgrow, hno⟩
    exact ⟨by omega, hno⟩
  · next hno =>
    refine ⟨h.stay hle, nofun, nofun, fun _ => ⟨?_, fun hmore => hno (.inr hmore)⟩⟩
    have hne : s.readLen ≠ 1 := fun h => hno (.inl h)
    show 2 ≤ s.readLen
    omega

variable {p : Mqtt.Packet} {rest : Bytes}

/-- The bytes of a length: the last one ends it, and no other. -/
theorem lengthBytes_byteAt (k : Nat) : ∀ {n : Nat}, n < 128 ^ (k + 1) →
    ∀ j < (Mqtt.lengthBytes k n).length,
      EspMqtt.byteAt (Mqtt.lengthBytes k n ++ rest) j < 128 ↔ j + 1 = (Mqtt.lengthBytes k n).length := by
  have hlast : ∀ {n : Nat}, n < 128 → ∀ j < 1, EspMqtt.byteAt (UInt8.ofNat n :: rest) j < 128 ↔ j + 1 = 1 := by
    intro n hn j hj
    have hzero : j = 0 := by omega
    rw [hzero, byteAt_of_drop (i := 0) rfl, UInt8.toNat_ofNat']
    omega
  induction k with
  | zero =>
    intro n hn
    rw [Nat.zero_add, Nat.pow_one] at hn
    exact hlast hn
  | succ k ih =>
    intro n hn
    rw [Mqtt.lengthBytes]
    by_cases hlt : n < 128
    · rw [if_pos hlt]
      exact hlast hlt
    · rw [if_neg hlt]
      have hdiv : n / 128 < 128 ^ (k + 1) := by
        apply Nat.div_lt_of_lt_mul
        rwa [Nat.pow_succ, Nat.mul_comm] at hn
      intro j hj
      rw [List.length_cons] at hj ⊢
      have hpos := (Mqtt.length_lengthBytes k (n / 128)).1
      cases j with
      | zero =>
        rw [List.cons_append, byteAt_of_drop (i := 0) rfl, UInt8.toNat_ofNat']
        omega
      | succ j =>
        rw [Nat.add_left_inj]
        exact ih hdiv j (by omega)

/-- The bytes of the fixed header of a packet, behind the first. -/
theorem byteAt_length (hlen : p.body.length < 2 ^ 28) {j : Nat} (hpos : 1 ≤ j) (hj : j < headerSize p) :
    EspMqtt.byteAt (p.encode ++ rest) j < 128 ↔ j + 1 = headerSize p := by
  obtain ⟨j, rfl⟩ : ∃ i, j = i + 1 := ⟨j - 1, by omega⟩
  unfold headerSize at hj ⊢
  rw [encode_append]
  have hbyte : EspMqtt.byteAt (Mqtt.lengthBytes 3 p.body.length ++ (p.body ++ rest)) j < 128 ↔ _ :=
    lengthBytes_byteAt 3 hlen j
    (show j < (Mqtt.lengthBytes 3 p.body.length).length by
      unfold Mqtt.lengthField at hj
      omega)
  unfold Mqtt.lengthField
  rw [show EspMqtt.byteAt (UInt8.ofNat (p.type * 16 + p.flags) ::
      (Mqtt.lengthBytes 3 p.body.length ++ (p.body ++ rest))) (j + 1) =
    EspMqtt.byteAt (Mqtt.lengthBytes 3 p.body.length ++ (p.body ++ rest)) j from rfl, hbyte]
  omega

/-- **Behind the loop the fixed header is there.** -/
theorem Carries.headerSize_le (h : s.Carries (p.encode ++ rest)) (hlen : p.body.length < 2 ^ 28)
    (htwo : 2 ≤ s.readLen) (hno : ¬ s.moreLength) : headerSize p ≤ s.readLen := by
  by_contra hlt
  have hfield := (Mqtt.length_lengthField p.body.length).2
  apply hno
  rw [h.moreLength (by omega)]
  refine ⟨by unfold headerSize at hlt; omega, ?_⟩
  have hbyte : EspMqtt.byteAt (p.encode ++ rest) (s.readLen - 1) < 128 ↔ _ :=
    byteAt_length hlen (by omega) (by omega)
  omega

/-- A call that goes on at `r` bytes of this packet takes the first byte of the next one as well: the packet
is short, and from the last byte read on there is none that ends a length. -/
def Swallows (p : Mqtt.Packet) (r : Nat) : Prop :=
  headerSize p < r ∧ p.encode.length < 6 ∧
    ∀ j < p.encode.length, r - 1 ≤ j → 128 ≤ EspMqtt.byteAt p.encode j

instance (p : Mqtt.Packet) (r : Nat) : Decidable (Swallows p r) := inferInstanceAs (Decidable (_ ∧ _ ∧ _))

theorem byteAt_append {bs : Bytes} {j : Nat} (hj : j < bs.length) :
    EspMqtt.byteAt (bs ++ rest) j = EspMqtt.byteAt bs j := by
  rw [EspMqtt.byteAt, EspMqtt.byteAt, List.getElem?_append_left hj]

/-- **Where the loop ends**, if it is entered at all: within the packet. -/
theorem Carries.stops (h : s.Carries (p.encode ++ rest)) (hlen : p.body.length < 2 ^ 28)
    (hpos : 1 ≤ s.readLen) (hlt : s.readLen < p.encode.length) (hlimit : min 6 p.encode.length ≤ limit)
    (hno : ¬ Swallows p s.readLen) (henter : s.readLen = 1 ∨ s.moreLength) :
    ∃ e, s.readLen < e ∧ e ≤ limit ∧ e ≤ s.readLen + 5 ∧
      (6 ≤ e ∨ EspMqtt.byteAt (p.encode ++ rest) (e - 1) < 128) := by
  have hfield := Mqtt.length_lengthField p.body.length
  have hsize := length_encode p
  have htwo : 2 ≤ headerSize p ∧ headerSize p ≤ 5 := by
    unfold headerSize
    omega
  have hsix : s.readLen < 6 := by
    rcases henter with hone | hmore
    · omega
    · exact ((h.moreLength hpos).mp hmore).1
  rcases Nat.lt_or_ge s.readLen (headerSize p) with hin | hout
  · -- the header itself ends the loop
    refine ⟨headerSize p, hin, by omega, by omega, .inr ?_⟩
    rw [byteAt_length hlen (by omega) (by omega)]
    omega
  · obtain ⟨-, hbig⟩ := (h.moreLength hpos).mp (henter.resolve_left (by omega))
    have hgt : headerSize p < s.readLen := by
      rcases Nat.lt_or_eq_of_le hout with hgt | heq
      · exact hgt
      · have hend : EspMqtt.byteAt (p.encode ++ rest) (s.readLen - 1) < 128 ↔ _ :=
          byteAt_length hlen (by omega) (by omega)
        omega
    by_cases hlong : 6 ≤ p.encode.length
    · exact ⟨6, hsix, by omega, by omega, .inl (Nat.le_refl 6)⟩
    · -- some byte of what is left ends it
      have hex : ∃ j < p.encode.length, s.readLen - 1 ≤ j ∧ EspMqtt.byteAt p.encode j < 128 := by
        by_contra hnone
        apply hno
        refine ⟨hgt, by omega, fun j hj hle => ?_⟩
        by_contra hsmall
        exact hnone ⟨j, hj, hle, by omega⟩
      obtain ⟨j, hj, hle, hsmall⟩ := hex
      rw [← (byteAt_append hj : EspMqtt.byteAt (_ ++ rest) _ = _)] at hsmall
      have hne : j ≠ s.readLen - 1 := by
        rintro rfl
        omega
      exact ⟨j + 1, by omega, by omega, by omega, .inr hsmall⟩

/-! ## §4 — a whole call -/

/-- A peer names a topic, and does not set the flag of a repeated packet where nothing is repeated. -/
def Permitted : Mqtt.Packet → Prop
  | .publish dup qos _ topic _ _ => topic ≠ [] ∧ (qos = 0 → dup = false)
  | _ => True

/-- **The first byte of a packet is accepted.** -/
theorem validHeader_packet (hp : Permitted p) : validHeader (p.type * 16 + p.flags) = true := by
  cases p with
  | publish dup qos retain topic id payload =>
    have hcases : ∀ qos : Fin 3, ∀ dup retain : Bool, (qos = 0 → dup = false) →
        validHeader (3 * 16 + ((if dup then 8 else 0) + 2 * qos.val + if retain then 1 else 0)) = true := by
      decide
    exact hcases qos dup retain hp.2
  | pubrel id => exact (by decide : validHeader (6 * 16 + 2) = true)
  | subscribe id filters => exact (by decide : validHeader (8 * 16 + 2) = true)
  | other kind body =>
    show validHeader (kind.type * 16 + kind.flags) = true
    cases kind <;> decide

theorem Carries.readFirst (h : s.Carries (p.encode ++ rest)) (hp : Permitted p) (hone : 1 ≤ limit)
    (hlimit : limit ≤ s.inBuffer.length) (hle : s.readLen ≤ limit) :
    Result (p.encode ++ rest) limit s (fun s' => 1 ≤ s'.readLen ∧ s'.readLen = max 1 s.readLen) s.readFirst := by
  unfold Inflow.readFirst
  split
  · next hzero =>
    apply (h.fetch (by decide) (by omega) hlimit).andThen
    rintro s₁ hreads ⟨hgrow, hle₁, -⟩
    have hvalid : mqttHasValidMsgHdr s₁.inBuffer 1 = true := by
      unfold mqttHasValidMsgHdr
      rw [if_neg (by decide), hreads.carries.byteAt (by omega), byteAt_encode]
      exact validHeader_packet hp
    rw [if_pos hvalid]
    exact ⟨hreads.carries.stay hreads.limit, nofun, nofun, fun _ => ⟨by show 1 ≤ s₁.readLen; omega, by
      show s₁.readLen = _
      omega⟩⟩
  · exact ⟨h.stay hle, nofun, nofun, fun _ => ⟨by show 1 ≤ s.readLen; omega, by show s.readLen = _; omega⟩⟩

/-- What is read of the fixed header does not depend on what has not been read. -/
theorem lengthLoop_congr {a b : Bytes} (more : Nat) : ∀ {i totlen : Nat},
    (∀ j < i + more, EspMqtt.byteAt a j = EspMqtt.byteAt b j) →
    lengthLoop a more i totlen = lengthLoop b more i totlen := by
  induction more with
  | zero => exact fun _ => rfl
  | succ more ih =>
    intro i totlen h
    rw [lengthLoop, lengthLoop, h i (by omega)]
    split
    · rfl
    · exact ih fun j hj => h j (by omega)

theorem Carries.fixedHeader (h : s.Carries (p.encode ++ rest)) (hlen : p.body.length < 2 ^ 28)
    (hheader : headerSize p ≤ s.readLen) : fixedHeader s.inBuffer s.readLen = (headerSize p, p.body.length) := by
  have hpos : 1 ≤ headerSize p := Nat.le_add_right 1 _
  rw [← (fixedHeader_encode hlen hheader : EspMqtt.fixedHeader (p.encode ++ rest) _ = _)]
  unfold EspMqtt.fixedHeader
  rw [lengthLoop_congr (b := p.encode ++ rest) _ fun j hj => h.byteAt (by omega)]

theorem Carries.mqttGetTotalLength (h : s.Carries (p.encode ++ rest)) (hlen : p.body.length < 2 ^ 28)
    (hheader : headerSize p ≤ s.readLen) (hn : s.readLen < 2 ^ 16) :
    mqttGetTotalLength s.inBuffer (UInt16.ofNat s.readLen) = (p.encode.length, headerSize p) := by
  have hlength : (UInt16.ofNat s.readLen).toNat = s.readLen := UInt16.toNat_ofNat_of_lt' hn
  rw [← (mqttGetTotalLength_encode hlen (hlength ▸ hheader) :
    EspMqtt.mqttGetTotalLength (p.encode ++ rest) _ = _)]
  unfold EspMqtt.mqttGetTotalLength
  rw [hlength, h.fixedHeader hlen hheader, fixedHeader_encode hlen hheader]

/-- What stands in the buffer. -/
theorem Carries.window (h : s.Carries data) {i m : Nat} (hle : i + m ≤ s.readLen) :
    window s.inBuffer i m = Window.window data i m := by
  apply List.ext_getElem?
  intro j
  rw [getElem?_window, getElem?_window, ← h.bytes]
  by_cases hj : j < m
  · have hlen : i + j < (s.inBuffer.take s.readLen).length := by
      have hwithin := h.within
      rw [List.length_take]
      omega
    rw [if_pos hj, if_pos hj, List.getElem?_append_left hlen, List.getElem?_take, if_pos (by omega)]
  · rw [if_neg hj, if_neg hj]

theorem Carries.readUpTo (h : s.Carries data) {total : Nat} (htotal : total ≤ limit)
    (hlimit : limit ≤ s.inBuffer.length) (hle : s.readLen ≤ total) :
    Result data limit s (fun s' => s'.readLen = total ∧ s'.messageLength = s.messageLength)
      (s.readUpTo total) := by
  unfold Inflow.readUpTo
  split
  · apply (h.fetch (by omega) (by omega) hlimit).andThen
    rintro s₁ hreads ⟨-, hle₁, hmessage⟩
    split
    · exact ⟨hreads.carries.stay hreads.limit, nofun, fun _ => by show s₁.readLen < limit; omega, nofun⟩
    · refine ⟨hreads.carries.stay hreads.limit, nofun, nofun, fun _ => ⟨?_, hmessage⟩⟩
      show s₁.readLen = total
      omega
  · refine ⟨h.stay (hle.trans htotal), nofun, nofun, fun _ => ⟨?_, rfl⟩⟩
    show s.readLen = total
    omega

theorem Carries.readTopicLength (h : s.Carries data) {fixed : Nat} (hroom : fixed + 4 ≤ limit)
    (hlimit : limit ≤ s.inBuffer.length) (hfixed : fixed ≤ s.readLen) (hle : s.readLen ≤ limit) :
    Result data limit s (fun s' => fixed + 2 ≤ s'.readLen ∧ s'.messageLength = s.messageLength)
      (s.readTopicLength fixed) := by
  unfold Inflow.readTopicLength
  split
  · apply (h.fetch (by omega) (by omega) hlimit).andThen
    rintro s₁ hreads ⟨-, -, hmessage⟩
    split
    · exact ⟨hreads.carries.stay hreads.limit, nofun, fun _ => by show s₁.readLen < limit; omega, nofun⟩
    · refine ⟨hreads.carries.stay hreads.limit, nofun, nofun, fun _ => ⟨?_, hmessage⟩⟩
      show fixed + 2 ≤ s₁.readLen
      omega
  · refine ⟨h.stay hle, nofun, nofun, fun _ => ⟨?_, rfl⟩⟩
    show fixed + 2 ≤ s.readLen
    omega

/-- How much of a packet stands before its payload. -/
def headSize (p : Mqtt.Packet) : Nat :=
  match p with
  | .publish _ qos _ topic _ _ => headerSize p + 2 + topic.length + if qos = 0 then 0 else 2
  | _ => p.encode.length

/-- A buffer of `n` bytes holds the packet, or at least all but the payload. -/
def Fits (n : Nat) (p : Mqtt.Packet) : Prop := 9 ≤ n ∧ n < 2 ^ 16 ∧ headSize p ≤ n

/-- The packets of the type of a `PUBLISH`. -/
theorem exists_publish (htype : p.type = 3) :
    ∃ dup qos retain topic id payload, p = .publish dup qos retain topic id payload := by
  cases p with
  | publish dup qos retain topic id payload => exact ⟨dup, qos, retain, topic, id, payload, rfl⟩
  | pubrel => exact absurd htype (by decide : ¬ 6 = 3)
  | subscribe => exact absurd htype (by decide : ¬ 8 = 3)
  | other kind =>
    have htype : kind.type = 3 := htype
    cases kind <;> exact absurd htype (by decide)

/-- Where the parts of a `PUBLISH` stand. -/
theorem publish_parts (dup : Bool) (qos : Fin 3) (retain : Bool) (topic : Bytes) (id : UInt16)
    (payload rest : Bytes) (p : Mqtt.Packet) (hp : p = .publish dup qos retain topic id payload) :
    (p.encode ++ rest).drop (headerSize p) =
        Mqtt.word topic.length ++ (topic ++ ((if qos = 0 then [] else Mqtt.word id.toNat) ++ payload ++ rest)) ∧
      (p.encode ++ rest).drop (headerSize p + 2) =
        topic ++ ((if qos = 0 then [] else Mqtt.word id.toNat) ++ payload ++ rest) ∧
      (p.encode ++ rest).drop (headSize p) = payload ++ rest ∧
      p.encode.length = headSize p + payload.length := by
  subst hp
  have hdrop := drop_headerSize (.publish dup qos retain topic id payload) rest
  have hsplit : (Mqtt.Packet.publish dup qos retain topic id payload).body ++ rest =
      Mqtt.word topic.length ++ (topic ++ ((if qos = 0 then [] else Mqtt.word id.toNat) ++ payload ++ rest)) := by
    simp only [Mqtt.Packet.body, Mqtt.text, List.append_assoc]
  rw [hsplit] at hdrop
  have hid : (if qos = 0 then [] else Mqtt.word id.toNat).length = if qos = 0 then 0 else 2 := by
    split <;> rfl
  have htopic := drop_add_of_drop hdrop
  have hrest := drop_add_of_drop htopic
  rw [List.append_assoc] at hrest
  have hpayload := drop_add_of_drop hrest
  refine ⟨hdrop, htopic, ?_, ?_⟩
  · rw [← hpayload, hid]
    rfl
  · rw [length_encode]
    unfold headSize
    simp only [Mqtt.Packet.body, List.length_append, Mqtt.length_text, hid]
    omega

theorem Fits.whole {n : Nat} (h : Fits n p) (htype : p.type ≠ 3) : p.encode.length ≤ n := by
  have hle := h.2.2
  cases p with
  | publish => exact absurd rfl htype
  | pubrel => exact hle
  | subscribe => exact hle
  | other => exact hle

/-- **What follows the length.** -/
theorem Carries.readBody {n : Nat} (h : s.Carries (p.encode ++ rest)) (hp : p.WellFormed) (hfits : Fits n p)
    (hn : s.inBuffer.length = n) (hheader : headerSize p ≤ s.readLen)
    (hle : s.readLen ≤ min n p.encode.length) :
    Result (p.encode ++ rest) (min n p.encode.length) s
      (fun s' => s'.readLen = min n p.encode.length ∧ s'.messageLength = p.encode.length) s.readBody := by
  have hfield := (Mqtt.length_lengthField p.body.length).2
  have htwo : headerSize p ≤ 5 := by
    unfold headerSize
    omega
  have hpos : 1 ≤ headerSize p := Nat.le_add_right 1 _
  have hmin : min n p.encode.length ≤ n := Nat.min_le_left _ _
  have hmessage : Carries { s with messageLength := p.encode.length } (p.encode ++ rest) :=
    ⟨h.within, h.bytes, h.clean⟩
  unfold Inflow.readBody
  have hsmall := hfits.2.1
  rw [h.mqttGetTotalLength hp.remaining hheader (by omega)]
  dsimp only
  have htype : mqttGetType s.inBuffer = p.type := by
    rw [← (mqttGetType_encode : EspMqtt.mqttGetType (p.encode ++ rest) = _), EspMqtt.mqttGetType, EspMqtt.mqttGetType,
      h.byteAt (by omega)]
  split
  · next hlong =>
    have hpublish : p.type = 3 := by
      by_contra hne
      have hwhole := hfits.whole hne
      omega
    rw [htype, if_pos hpublish]
    have hlimit : min n p.encode.length = n := by omega
    have hnine := hfits.1
    rw [hlimit] at hle ⊢
    refine Result.start ?_ rfl rfl (t := { s with messageLength := p.encode.length })
    apply Result.andThen (hmessage.readTopicLength (by omega) (by show n ≤ s.inBuffer.length; omega) hheader hle)
    rintro s₁ hreads ⟨htopic, hmsg⟩
    have hbuffer : s₁.inBuffer.length = n := hreads.buffer.trans hn
    have hgo : ¬ s₁.inBuffer.length < headerSize p + wordAt s₁.inBuffer (headerSize p) +
        (if mqttGetQos s₁.inBuffer > 0 then 2 else 0) := by
      have hqos : mqttGetQos s₁.inBuffer = p.flags / 2 % 4 := by
        rw [← (mqttGetQos_encode : EspMqtt.mqttGetQos (p.encode ++ rest) = _), EspMqtt.mqttGetQos, EspMqtt.mqttGetQos,
          hreads.carries.byteAt (by omega)]
      have hword : wordAt s₁.inBuffer (headerSize p) = wordAt (p.encode ++ rest) (headerSize p) := by
        rw [wordAt, wordAt, hreads.carries.byteAt (by omega), hreads.carries.byteAt (by omega)]
      have hle₂ := hfits.2.2
      obtain ⟨dup, qos, retain, topic, id, payload, rfl⟩ := exists_publish hpublish
      have hdrop := (publish_parts dup qos retain topic id payload rest _ rfl).1
      rw [hbuffer, hword, wordAt_of_drop hp.layout.1 hdrop, hqos,
        ← (mqttGetQos_encode : EspMqtt.mqttGetQos
          ((Mqtt.Packet.publish dup qos retain topic id payload).encode ++ rest) = _), mqttGetQos_publish]
      have hle₂ : headerSize _ + 2 + topic.length + (if qos = 0 then 0 else 2) ≤ n := hle₂
      have hzero : qos.val > 0 ↔ ¬ qos = 0 := by
        rw [Fin.ext_iff]
        exact Nat.pos_iff_ne_zero
      by_cases hq : qos = 0
      · rw [if_pos hq] at hle₂
        rw [if_neg (by rw [hzero]; exact fun h => h hq)]
        omega
      · rw [if_neg hq] at hle₂
        rw [if_pos (hzero.mpr hq)]
        omega
    rw [if_neg hgo, hbuffer]
    apply (hreads.carries.readUpTo (Nat.le_refl n) (by omega) hreads.limit).mono
    rintro s₂ ⟨hend, hmsg₂⟩
    exact ⟨hend, hmsg₂.trans hmsg⟩
  · next hshort =>
    have hlimit : min n p.encode.length = p.encode.length := by
      have hshort : ¬ s.inBuffer.length < p.encode.length := hshort
      omega
    rw [hlimit] at hle ⊢
    refine Result.start ?_ rfl rfl (t := { s with messageLength := p.encode.length })
    exact hmessage.readUpTo (Nat.le_refl _) (by show p.encode.length ≤ s.inBuffer.length; omega) hle

/-- **A call**: unless it swallows, all that it reads is of this packet, and when it is done this is as much
of the packet as the buffer holds. -/
theorem Carries.mqttMessageReceive {n : Nat} (h : s.Carries (p.encode ++ rest)) (hp : p.WellFormed)
    (hperm : Permitted p) (hfits : Fits n p) (hn : s.inBuffer.length = n)
    (hlt : s.readLen < min n p.encode.length) (hno : ¬ Swallows p s.readLen) :
    Result (p.encode ++ rest) (min n p.encode.length) s
      (fun s' => s'.readLen = min n p.encode.length ∧ s'.messageLength = p.encode.length)
      s.mqttMessageReceive := by
  have hfield := Mqtt.length_lengthField p.body.length
  have hsize := length_encode p
  have htwo : 2 ≤ headerSize p := by
    unfold headerSize
    omega
  have hnine := hfits.1
  have hstart : Carries { s with messageLength := 0 } (p.encode ++ rest) := ⟨h.within, h.bytes, h.clean⟩
  unfold Inflow.mqttMessageReceive
  refine Result.start ?_ rfl rfl (t := { s with messageLength := 0 })
  apply Result.andThen (P := fun s' => 2 ≤ s'.readLen ∧ ¬ s'.moreLength)
  · apply Result.andThen (hstart.readFirst hperm (by omega) (by show _ ≤ s.inBuffer.length; omega) hlt.le)
    rintro s₁ hreads ⟨hpos, heq⟩
    have hbuffer : s₁.inBuffer.length = s.inBuffer.length := hreads.buffer
    have heq : s₁.readLen = max 1 s.readLen := heq
    have hno₁ : ¬ Swallows p s₁.readLen := by
      rcases Nat.eq_zero_or_pos s.readLen with hzero | hone
      · rintro ⟨hgt, -⟩
        omega
      · rwa [show s₁.readLen = s.readLen by omega]
    have hstops := hreads.carries.stops hp.remaining hpos (by omega)
      (show min 6 p.encode.length ≤ min n p.encode.length by omega) hno₁
    have hroom : min n p.encode.length ≤ s₁.inBuffer.length := by omega
    by_cases henter : s₁.readLen = 1 ∨ s₁.moreLength
    · obtain ⟨e, he⟩ := hstops henter
      exact hreads.carries.readLength hroom hreads.limit hpos fun _ => he
    · exact hreads.carries.readLength (e := 0) hroom hreads.limit hpos fun h => absurd h henter
  · rintro s₁ hreads ⟨hge, hmore⟩
    have hbuffer : s₁.inBuffer.length = s.inBuffer.length := hreads.buffer
    exact hreads.carries.readBody hp hfits (hbuffer.trans hn)
      (hreads.carries.headerSize_le hp.remaining hge hmore) hreads.limit

/-! ## §5 — a call that swallows -/

/-- Every read meets something, and there are enough of them for the length. -/
def Prompt (arrivals : List Arrival) : Prop :=
  6 ≤ arrivals.length ∧ ∀ a ∈ arrivals, a ≠ .error ∧ a ≠ .upTo 0

instance (arrivals : List Arrival) : Decidable (Prompt arrivals) := inferInstanceAs (Decidable (_ ∧ _))

theorem exists_upTo {a : Arrival} (h : a ≠ .error ∧ a ≠ .upTo 0) : ∃ n, a = .upTo (n + 1) := by
  cases a with
  | error => exact absurd rfl h.1
  | upTo n =>
    cases n with
    | zero => exact absurd rfl h.2
    | succ n => exact ⟨n, rfl⟩

theorem fetch_one {n : Nat} {arrivals : List Arrival} (h : s.arrivals = .upTo (n + 1) :: arrivals) :
    (s.stream = [] → s.fetch 1 = (.pending, { s with arrivals := arrivals })) ∧
      ∀ b bs, s.stream = b :: bs →
        s.fetch 1 = (.done, Inflow.store { s with stream := bs, arrivals := arrivals } [b]) := by
  have hmin : min (n + 1) 1 = 1 := by omega
  constructor
  · intro hstream
    simp only [Inflow.fetch, espTransportRead, h, hmin, hstream, List.take_nil, List.drop_nil]
  · intro b bs hstream
    simp only [Inflow.fetch, espTransportRead, h, hmin, hstream, List.take_succ_cons, List.take_zero,
      List.drop_succ_cons, List.drop_zero]

/-- Past the end of a packet of `total` bytes; or at its end, for want of anything behind it. -/
structure Past (data : Bytes) (total : Nat) (s : Inflow) (r : Outcome × Inflow) : Prop where
  carries : r.2.Carries data
  buffer : r.2.inBuffer.length = s.inBuffer.length
  fails : r.1 ≠ .failed
  waits : r.1 = .pending → total ≤ r.2.readLen
  goes : r.1 = .done → total < r.2.readLen

/-- **The loop goes on past the end** when no byte on the way stops it. -/
theorem Carries.past {total : Nat} (htotal : total < 6) (hlong : total ≤ data.length) (rounds : Nat) :
    ∀ {s : Inflow}, s.Carries data → 6 ≤ s.inBuffer.length → s.readLen < 6 →
      total + 1 ≤ s.readLen + rounds → (∀ j < total, s.readLen ≤ j → 128 ≤ EspMqtt.byteAt data j) →
      rounds ≤ s.arrivals.length →
      (∀ a ∈ s.arrivals, a ≠ .error ∧ a ≠ .upTo 0) → Past data total s (Inflow.lengthRounds rounds s) := by
  induction rounds with
  | zero =>
    intro s h _ _ hle _ _ _
    refine ⟨h, rfl, nofun, nofun, fun _ => ?_⟩
    show total < s.readLen
    omega
  | succ rounds ih =>
    intro s h hroom hsix hle hbytes hcount hprompt
    cases harrivals : s.arrivals with
    | nil =>
      rw [harrivals] at hcount
      exact absurd hcount (by simp)
    | cons a arrivals =>
      rw [harrivals] at hcount hprompt
      obtain ⟨n, rfl⟩ := exists_upTo (hprompt a List.mem_cons_self)
      obtain ⟨hnone, hsome⟩ := fetch_one harrivals
      have hclean : .error ∉ arrivals := fun hmem => (hprompt _ (List.mem_cons_of_mem _ hmem)).1 rfl
      rw [Inflow.lengthRounds]
      cases hstream : s.stream with
      | nil =>
        -- everything that was sent is in the buffer
        rw [hnone hstream]
        refine ⟨⟨h.within, h.bytes, hclean⟩, rfl, nofun, fun _ => ?_, nofun⟩
        have hlength := congrArg List.length h.bytes
        rw [hstream, List.append_nil, List.length_take] at hlength
        show total ≤ s.readLen
        omega
      | cons b bs =>
        have hfits : s.readLen + [b].length ≤ s.inBuffer.length := by
          rw [List.length_singleton]
          omega
        have hstore := h.store hstream hfits hclean
        have hbuffer := overlay_length hfits
        rw [hsome b bs hstream]
        dsimp only [EspMqtt.andThen]
        by_cases hmore : (Inflow.store { s with stream := bs, arrivals := arrivals } [b]).moreLength
        · rw [if_pos hmore]
          have hpast := ih hstore (by
            show 6 ≤ (overlay s.inBuffer s.readLen [b]).length
            omega) hmore.1
            (by show total + 1 ≤ s.readLen + 1 + rounds; omega)
            (fun j hj hle => hbytes j hj (by
              have hle : s.readLen + 1 ≤ j := hle
              omega))
            (by show rounds ≤ arrivals.length; simpa using hcount)
            (fun a ha => hprompt a (List.mem_cons_of_mem _ ha))
          exact ⟨hpast.carries, hpast.buffer.trans hbuffer, hpast.fails, hpast.waits, hpast.goes⟩
        · rw [if_neg hmore]
          refine ⟨hstore, hbuffer, nofun, nofun, fun _ => ?_⟩
          rw [hstore.moreLength (Nat.succ_pos _)] at hmore
          have hmore : ¬ (s.readLen + 1 < 6 ∧ 128 ≤ EspMqtt.byteAt data s.readLen) := hmore
          show total < s.readLen + 1
          by_contra hnot
          exact hmore ⟨by omega, hbytes _ (by omega) (Nat.le_refl _)⟩

/-- **The converse**: a call that swallows goes past the packet, if what it waits for arrives in time. -/
theorem Carries.swallows (h : s.Carries (p.encode ++ rest)) (hp : p.WellFormed) (hroom : 6 ≤ s.inBuffer.length)
    (hsmall : s.inBuffer.length < 2 ^ 16) (hlt : s.readLen < p.encode.length) (hsw : Swallows p s.readLen)
    (hprompt : Prompt s.arrivals) :
    Past (p.encode ++ rest) p.encode.length s s.mqttMessageReceive ∧
      (s.mqttMessageReceive.1 = .done → s.mqttMessageReceive.2.messageLength = p.encode.length) := by
  obtain ⟨hheader, hshort, hbytes⟩ := hsw
  have hstart : Carries { s with messageLength := 0 } (p.encode ++ rest) := ⟨h.within, h.bytes, h.clean⟩
  have hbig : ∀ j < p.encode.length, s.readLen - 1 ≤ j → 128 ≤ EspMqtt.byteAt (p.encode ++ rest) j := by
    intro j hj hle
    rw [byteAt_append hj]
    exact hbytes j hj hle
  have hmore : Inflow.moreLength { s with messageLength := 0 } := by
    rw [hstart.moreLength (by show 0 < s.readLen; omega)]
    exact ⟨by show s.readLen < 6; omega, hbig _ (by show s.readLen - 1 < _; omega) (Nat.le_refl _)⟩
  have hpast := Carries.past hshort (by rw [List.length_append]; omega) 5 hstart hroom
    (by show s.readLen < 6; omega) (by show _ ≤ s.readLen + 5; omega)
    (fun j hj hle => hbig j hj (by
      have hle : s.readLen ≤ j := hle
      omega))
    (by show 5 ≤ s.arrivals.length; have hsix := hprompt.1; omega) hprompt.2
  have hzero : ¬ s.readLen = 0 := by omega
  have hcall : s.mqttMessageReceive =
      EspMqtt.andThen (Inflow.lengthRounds 5 { s with messageLength := 0 }) Inflow.readBody := by
    unfold Inflow.mqttMessageReceive Inflow.readFirst
    rw [if_neg (show ¬ (Inflow.mk s.inBuffer s.readLen 0 s.stream s.arrivals).readLen = 0 from hzero)]
    dsimp only [EspMqtt.andThen]
    unfold Inflow.readLength
    rw [if_pos (.inr hmore)]
  rw [hcall]
  generalize Inflow.lengthRounds 5 { s with messageLength := 0 } = r at hpast
  obtain ⟨o, t⟩ := r
  obtain ⟨hcarries, hbuffer, hfails, hwaits, hgoes⟩ := hpast
  cases o with
  | failed => exact absurd rfl hfails
  | pending => exact ⟨⟨hcarries, hbuffer, nofun, hwaits, nofun⟩, nofun⟩
  | done =>
    -- the body is there, and more than it
    have hgoes : p.encode.length < t.readLen := hgoes rfl
    have hcarries : t.Carries (p.encode ++ rest) := hcarries
    have hbuffer : t.inBuffer.length = s.inBuffer.length := hbuffer
    have hwithin := hcarries.within
    dsimp only [EspMqtt.andThen]
    have hbody : t.readBody = (.done, { t with messageLength := p.encode.length }) := by
      unfold Inflow.readBody
      rw [hcarries.mqttGetTotalLength hp.remaining (by omega) (by omega)]
      dsimp only
      rw [if_neg (by omega)]
      unfold Inflow.readUpTo
      rw [if_neg (by show ¬ t.readLen < _; omega)]
    rw [hbody]
    exact ⟨⟨⟨hcarries.within, hcarries.bytes, hcarries.clean⟩, hbuffer, nofun, nofun, fun _ => hgoes⟩,
      fun _ => rfl⟩

end Inflow

end Espmod.EspMqtt
