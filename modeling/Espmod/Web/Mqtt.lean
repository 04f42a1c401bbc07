/-
# Espmod.Web.Mqtt — `webclient::receivemqtt`

A call reads a packet from the buffer of one port, character by character, and waits while there is
none; `Inbox` is that buffer and what each of the waits brings. Two things go wrong. Behind the packet
the call clears the buffer, so that a packet that came in the same piece is lost; and it takes a packet
identifier out of every `PUBLISH`, also where there is none. `receivemqtt_reads` says that otherwise it
takes the first packet, and only that.
-/
import Espmod.Lib.Mqtt
import Espmod.Web.Client

namespace Espmod.Web

open Espmod.Lib Espmod.Lib.Text

/-! ## §1 — reading -/

/-- The entry that `getind(port)` finds, and the characters that come in during each wait. -/
structure Inbox where
  entry : Option WifiPort
  arrivals : List Bytes
  deriving DecidableEq, Repr

/-- The loop of `webclient::read`: until there is a character, or the port is closed. -/
def waitData (e : WifiPort) (arrivals : List Bytes) : Option (WifiPort × List Bytes) :=
  if e.buffer = [] ∧ e.closed = false then
    match arrivals with
    | [] => none
    | bs :: arrivals => waitData (e.push bs) arrivals
  else some (e, arrivals)

/-- `webclient::readchar`. What is not there is read as -1, which is 255 as a character. -/
def readchar : StateT Inbox Option UInt8 := fun s =>
  match s.entry with
  | none => some (0xff, s)
  | some e =>
    match waitData e s.arrivals with
    | none => none
    | some (e, arrivals) =>
      match e.buffer with
      | [] => some (0xff, ⟨none, arrivals⟩)
      | c :: cs =>
        some (c, ⟨if cs = [] ∧ e.closed then none else some { e with buffer := cs }, arrivals⟩)

/-- `webclient::flush`. -/
def flush : StateT Inbox Option Unit := fun s =>
  match s.entry with
  | none => some ((), s)
  | some e => some ((), { s with entry := if e.closed then none else some { e with buffer := [] } })

/-- `readchar` in a loop. -/
def readchars : Nat → StateT Inbox Option Bytes
  | 0 => pure []
  | n + 1 => do
    let c ← readchar
    let cs ← readchars n
    pure (c :: cs)

/-! ## §2 — a packet -/

/-- What `receivemqtt` returns: its value and its reference arguments. The topic is set for `PUBLISH`
only. -/
structure Received where
  packettype : Nat
  length : Nat
  flags : Nat
  topic : Option Bytes
  packetid : Int
  pub : Bytes
  deriving DecidableEq, Repr

def MQTT_TYPE_PUBLISH : Nat := 3
def MQTT_TYPE_PUBREL : Nat := 6
def MQTT_TYPE_SUBSCRIBE : Nat := 8

/-- The remaining length. -/
def readLength : StateT Inbox Option Nat := do
  let recv ← readchar
  let length := (recv &&& 0x7f).toNat
  if recv > 127 then
    let recv ← readchar
    let length := length + (recv &&& 0x7f).toNat * 128
    if recv > 127 then
      let recv ← readchar
      let length := length + (recv &&& 0x7f).toNat * 128 * 128
      if recv > 127 then
        let recv ← readchar
        pure (length + (recv &&& 0x7f).toNat * 128 * 128 * 128)
      else pure length
    else pure length
  else pure length

/-- `(int)readchar(port) << 8` and the next character. -/
def readWord : StateT Inbox Option Nat := do
  let hi ← readchar
  let lo ← readchar
  pure (hi.toNat <<< 8 ||| lo.toNat)

/-- The `switch` over the packet type: the topic, the packet identifier and the payload. -/
def readVariable (packettype length : Nat) : StateT Inbox Option (Option Bytes × Int × Bytes) :=
  if packettype = MQTT_TYPE_PUBLISH then do
    let topiclength ← readWord
    let topic ← readchars topiclength
    let packetid ← readWord
    let cnt := topiclength + 2 + 2
    let payload ← readchars (length - cnt)
    pure (some (topic ++ [0]), packetid, cstr payload)
  else if packettype = MQTT_TYPE_PUBREL ∨ packettype = MQTT_TYPE_SUBSCRIBE then do
    let packetid ← readWord
    let _ ← readchars (length - 2)
    pure (none, packetid, [])
  else do
    let _ ← readchars length
    pure (none, -1, [])

/-- With a remaining length of 0 or 1 there is nothing to look at. -/
def readRest (packettype length : Nat) : StateT Inbox Option (Option Bytes × Int × Bytes) :=
  if length > 1 then readVariable packettype length else pure (none, -1, [])

/-- **`webclient::receivemqtt`**; `none` while it waits. -/
def receivemqtt : StateT Inbox Option Received := do
  let recv ← readchar
  let packettype := ((recv &&& 0xf0) >>> 4).toNat
  let flags := (recv &&& 0x0f).toNat
  let length ← readLength
  let (topic, packetid, pub) ← readRest packettype length
  flush
  pure ⟨packettype, length, flags, topic, packetid, pub⟩

/-! ## §3 — what is read -/

namespace Inbox

/-- What is in the buffer. -/
def buffer (s : Inbox) : Bytes := s.entry.elim [] WifiPort.buffer

/-- Everything that is in the buffer or will be. -/
def stream (s : Inbox) : Bytes := s.buffer ++ s.arrivals.flatten

/-- Nothing arrives at a port that is closed, or that does not exist. -/
def Live (s : Inbox) : Prop := s.arrivals ≠ [] → ∃ e, s.entry = some e ∧ e.closed = false

/-- A piece ends `n` characters ahead. -/
def Cut (s : Inbox) (n : Nat) : Prop := ∃ k, (s.buffer ++ (s.arrivals.take k).flatten).length = n

theorem cut_zero (s : Inbox) : s.Cut 0 ↔ s.buffer = [] := by
  constructor
  · rintro ⟨k, hk⟩
    exact (List.append_eq_nil_iff.mp (List.length_eq_zero_iff.mp hk)).1
  · exact fun h => ⟨0, by rw [h]; rfl⟩

/-- The stream has `bs` in front, and behind them the inbox is `s'`. -/
structure Gives (s : Inbox) (bs : Bytes) (s' : Inbox) : Prop where
  live : s'.Live
  stream : s.stream = bs ++ s'.stream
  cut : ∀ n, s'.Cut n ↔ s.Cut (bs.length + n)

theorem Gives.trans {s s' s'' : Inbox} {bs cs : Bytes} (h : Gives s bs s') (h' : Gives s' cs s'') :
    Gives s (bs ++ cs) s'' where
  live := h'.live
  stream := by rw [h.stream, h'.stream, List.append_assoc]
  cut := fun n => by rw [h'.cut, h.cut, List.length_append, Nat.add_assoc]

end Inbox

open Inbox

/-- The wait ends with a character that the stream has. -/
theorem waitData_gives {arrivals : List Bytes} : ∀ {e : WifiPort} {c : UInt8} {rest : Bytes},
    (arrivals ≠ [] → e.closed = false) → e.buffer ++ arrivals.flatten = c :: rest →
    ∃ e' arrivals' cs, waitData e arrivals = some (e', arrivals') ∧ e'.buffer = c :: cs ∧
      e'.closed = e.closed ∧ (arrivals' ≠ [] → e.closed = false) ∧ cs ++ arrivals'.flatten = rest ∧
        ∀ n, (∃ k, (cs ++ (arrivals'.take k).flatten).length = n) ↔
          ∃ k, (e.buffer ++ (arrivals.take k).flatten).length = n + 1 := by
  induction arrivals with
  | nil =>
    intro e c rest hopen hstream
    rw [List.flatten_nil, List.append_nil] at hstream
    refine ⟨e, [], rest, ?_, hstream, rfl, hopen, by simp, fun n => ?_⟩
    · unfold waitData
      rw [if_neg fun h => by rw [h.1] at hstream; exact nomatch hstream]
    · simp [hstream]
  | cons bs arrivals ih =>
    intro e c rest hopen hstream
    have hclosed : e.closed = false := hopen (List.cons_ne_nil _ _)
    cases hbuffer : e.buffer with
    | nil =>
      rw [hbuffer, List.flatten_cons, List.nil_append] at hstream
      have hpush : (e.push bs).buffer = bs := by
        unfold WifiPort.push
        rw [hbuffer, List.nil_append]
      obtain ⟨e', arrivals', cs, hwait, hbuffer', hclosed', hopen', hrest, hcut⟩ :=
        ih (e := e.push bs) (fun _ => hclosed) (by rw [hpush]; exact hstream)
      refine ⟨e', arrivals', cs, ?_, hbuffer', hclosed', hopen', hrest, fun n => ?_⟩
      · unfold waitData
        rw [if_pos ⟨hbuffer, hclosed⟩]
        exact hwait
      · rw [hcut, hpush]
        constructor
        · rintro ⟨k, hk⟩
          exact ⟨k + 1, by rw [List.take_succ_cons, List.flatten_cons, List.nil_append]; exact hk⟩
        · rintro ⟨k, hk⟩
          cases k with
          | zero => exact nomatch hk
          | succ k =>
            rw [List.take_succ_cons, List.flatten_cons, List.nil_append] at hk
            exact ⟨k, hk⟩
    | cons d ds =>
      rw [hbuffer, List.cons_append] at hstream
      obtain ⟨rfl, hrest⟩ := List.cons.inj hstream
      refine ⟨e, bs :: arrivals, ds, ?_, hbuffer, rfl, hopen, hrest, fun n => ?_⟩
      · unfold waitData
        rw [if_neg fun h => by rw [h.1] at hbuffer; exact nomatch hbuffer]
      · simp

/-- **One character** of the stream. -/
theorem readchar_gives {s : Inbox} {c : UInt8} {rest : Bytes} (hlive : s.Live)
    (hstream : s.stream = c :: rest) :
    ∃ s', readchar s = some (c, s') ∧ s.Gives [c] s' ∧ s'.stream = rest := by
  obtain ⟨entry, arrivals⟩ := s
  cases entry with
  | none =>
    have hnone : arrivals = [] := by
      by_contra hne
      obtain ⟨e, he, -⟩ := hlive hne
      exact nomatch he
    subst hnone
    exact nomatch hstream
  | some e =>
    have hopen : arrivals ≠ [] → e.closed = false := by
      intro hne
      obtain ⟨e', he, hclosed⟩ := hlive hne
      rwa [Option.some.inj he]
    obtain ⟨e', arrivals', cs, hwait, hbuffer, hclosed, hopen', hrest, hcut⟩ :=
      waitData_gives hopen hstream
    have hread : readchar ⟨some e, arrivals⟩ =
        some (c, ⟨if cs = [] ∧ e'.closed then none else some { e' with buffer := cs }, arrivals'⟩) := by
      unfold readchar
      dsimp only
      rw [hwait]
      dsimp only
      rw [hbuffer]
    generalize hentry : (if cs = [] ∧ e'.closed then none else some { e' with buffer := cs }) = entry
      at hread
    have hcs : (⟨entry, arrivals'⟩ : Inbox).buffer = cs := by
      rw [← hentry]
      unfold Inbox.buffer
      split
      · next h => exact h.1.symm
      · rfl
    have hstream' : (⟨entry, arrivals'⟩ : Inbox).stream = rest := by
      unfold Inbox.stream
      rw [hcs]
      exact hrest
    refine ⟨_, hread, ⟨fun hne => ?_, ?_, fun n => ?_⟩, hstream'⟩
    · have hfalse : e'.closed = false := hclosed.trans (hopen' hne)
      refine ⟨{ e' with buffer := cs }, ?_, hfalse⟩
      show entry = _
      rw [← hentry, if_neg fun h => by rw [hfalse] at h; exact nomatch h.2]
    · rw [hstream, hstream']
      rfl
    · unfold Inbox.Cut
      rw [hcs, List.length_singleton, Nat.add_comm 1 n]
      exact hcut n

section Read

variable {α β : Type} {s s' : Inbox} {rest : Bytes}

/-- What a call does first. -/
theorem run_bind {m : StateT Inbox Option α} {a : α} (hm : m s = some (a, s'))
    (f : α → StateT Inbox Option β) : (m >>= f) s = f a s' := by
  show (m s).bind (fun p => f p.1 p.2) = f a s'
  rw [hm]
  rfl

/-- **A run of characters** of the stream. -/
theorem readchars_gives {bs : Bytes} : ∀ {s : Inbox}, s.Live → s.stream = bs ++ rest →
    ∃ s', readchars bs.length s = some (bs, s') ∧ s.Gives bs s' ∧ s'.stream = rest := by
  induction bs with
  | nil => exact fun {s} hlive hstream => ⟨s, rfl, ⟨hlive, rfl, fun n => by simp⟩, hstream⟩
  | cons c bs ih =>
    intro s hlive hstream
    obtain ⟨s₁, hread, hgives, hstream₁⟩ := readchar_gives hlive hstream
    obtain ⟨s₂, hreads, hgives₂, hstream₂⟩ := ih hgives.live hstream₁
    refine ⟨s₂, ?_, hgives.trans hgives₂, hstream₂⟩
    rw [List.length_cons, readchars, run_bind hread, run_bind hreads]
    rfl

theorem word_ofNat {n : Nat} (hn : n < 2 ^ 16) :
    (UInt8.ofNat (n / 256)).toNat <<< 8 ||| (UInt8.ofNat n).toNat = n := by
  have hhi : (UInt8.ofNat (n / 256)).toNat = n / 256 := by
    rw [UInt8.toNat_ofNat']
    exact Nat.mod_eq_of_lt (by omega)
  have hlo : (UInt8.ofNat n).toNat = n % 2 ^ 8 := UInt8.toNat_ofNat'
  rw [hhi, hlo, ← Nat.shiftLeft_add_eq_or_of_lt (Nat.mod_lt n (by decide)), Nat.shiftLeft_eq]
  omega

/-- A number of two bytes. -/
theorem readWord_gives {n : Nat} (hn : n < 2 ^ 16) (hlive : s.Live)
    (hstream : s.stream = Mqtt.word n ++ rest) :
    ∃ s', readWord s = some (n, s') ∧ s.Gives (Mqtt.word n) s' ∧ s'.stream = rest := by
  obtain ⟨s₁, hhi, hgives₁, hstream₁⟩ := readchar_gives hlive hstream
  obtain ⟨s₂, hlo, hgives₂, hstream₂⟩ := readchar_gives hgives₁.live hstream₁
  refine ⟨s₂, ?_, hgives₁.trans hgives₂, hstream₂⟩
  rw [readWord, run_bind hhi, run_bind hlo, word_ofNat hn]
  rfl

/-- The last byte of a remaining length. -/
theorem last_byte {n : Nat} (hn : n < 128) :
    ¬ UInt8.ofNat n > 127 ∧ (UInt8.ofNat n &&& 0x7f).toNat = n := by
  have hbyte : (UInt8.ofNat n).toNat = n := by
    rw [UInt8.toNat_ofNat']
    exact Nat.mod_eq_of_lt (by omega)
  constructor
  · show ¬ (127 : UInt8) < UInt8.ofNat n
    rw [UInt8.lt_iff_toNat_lt, hbyte]
    show ¬ 127 < n
    omega
  · rw [UInt8.toNat_and, hbyte]
    exact (Nat.and_two_pow_sub_one_eq_mod n 7).trans (Nat.mod_eq_of_lt hn)

/-- Any other byte of it. -/
theorem more_byte (n : Nat) : UInt8.ofNat (n % 128 + 128) > 127 ∧
    (UInt8.ofNat (n % 128 + 128) &&& 0x7f).toNat = n % 128 := by
  have hbyte : (UInt8.ofNat (n % 128 + 128)).toNat = n % 128 + 128 := by
    rw [UInt8.toNat_ofNat']
    exact Nat.mod_eq_of_lt (by omega)
  constructor
  · show (127 : UInt8) < UInt8.ofNat (n % 128 + 128)
    rw [UInt8.lt_iff_toNat_lt, hbyte]
    show 127 < n % 128 + 128
    omega
  · rw [UInt8.toNat_and, hbyte]
    refine (Nat.and_two_pow_sub_one_eq_mod _ 7).trans ?_
    omega

/-- **The remaining length**, of one to four bytes. -/
theorem readLength_gives {n : Nat} (hn : n < 2 ^ 28) (hlive : s.Live)
    (hstream : s.stream = Mqtt.lengthField n ++ rest) :
    ∃ s', readLength s = some (n, s') ∧ s.Gives (Mqtt.lengthField n) s' ∧ s'.stream = rest := by
  unfold Mqtt.lengthField Mqtt.lengthBytes at hstream ⊢
  by_cases h₀ : n < 128
  · rw [if_pos h₀] at hstream ⊢
    obtain ⟨s₁, hread, hgives, hstream₁⟩ := readchar_gives hlive hstream
    refine ⟨s₁, ?_, hgives, hstream₁⟩
    rw [readLength, run_bind hread]
    simp only [if_neg (last_byte h₀).1, (last_byte h₀).2]
    rfl
  rw [if_neg h₀] at hstream ⊢
  obtain ⟨s₁, hread₁, hgives₁, hstream₁⟩ := readchar_gives hlive hstream
  unfold Mqtt.lengthBytes at hstream₁ ⊢
  by_cases h₁ : n / 128 < 128
  · rw [if_pos h₁] at hstream₁ ⊢
    obtain ⟨s₂, hread₂, hgives₂, hstream₂⟩ := readchar_gives hgives₁.live hstream₁
    refine ⟨s₂, ?_, hgives₁.trans hgives₂, hstream₂⟩
    rw [readLength, run_bind hread₁]
    simp only [if_pos (more_byte _).1, (more_byte _).2]
    rw [run_bind hread₂]
    simp only [if_neg (last_byte h₁).1, (last_byte h₁).2]
    refine congrArg (fun v => some (v, s₂)) ?_
    omega
  rw [if_neg h₁] at hstream₁ ⊢
  obtain ⟨s₂, hread₂, hgives₂, hstream₂⟩ := readchar_gives hgives₁.live hstream₁
  unfold Mqtt.lengthBytes at hstream₂ ⊢
  by_cases h₂ : n / 128 / 128 < 128
  · rw [if_pos h₂] at hstream₂ ⊢
    obtain ⟨s₃, hread₃, hgives₃, hstream₃⟩ := readchar_gives hgives₂.live hstream₂
    refine ⟨s₃, ?_, hgives₁.trans (hgives₂.trans hgives₃), hstream₃⟩
    rw [readLength, run_bind hread₁]
    simp only [if_pos (more_byte _).1, (more_byte _).2]
    rw [run_bind hread₂]
    simp only [if_pos (more_byte _).1, (more_byte _).2]
    rw [run_bind hread₃]
    simp only [if_neg (last_byte h₂).1, (last_byte h₂).2]
    refine congrArg (fun v => some (v, s₃)) ?_
    omega
  rw [if_neg h₂] at hstream₂ ⊢
  have h₃ : n / 128 / 128 / 128 < 128 := by omega
  obtain ⟨s₃, hread₃, hgives₃, hstream₃⟩ := readchar_gives hgives₂.live hstream₂
  obtain ⟨s₄, hread₄, hgives₄, hstream₄⟩ := readchar_gives hgives₃.live hstream₃
  refine ⟨s₄, ?_, hgives₁.trans (hgives₂.trans (hgives₃.trans hgives₄)), hstream₄⟩
  rw [readLength, run_bind hread₁]
  simp only [if_pos (more_byte _).1, (more_byte _).2]
  rw [run_bind hread₂]
  simp only [if_pos (more_byte _).1, (more_byte _).2]
  rw [run_bind hread₃]
  simp only [if_pos (more_byte _).1, (more_byte _).2]
  rw [run_bind hread₄, (last_byte h₃).2]
  refine congrArg (fun v => some (v, s₄)) ?_
  omega

/-- The clearing of the buffer leaves what has not come in yet. -/
theorem flush_stream (s : Inbox) :
    ∃ s', flush s = some ((), s') ∧ s'.stream = s.arrivals.flatten := by
  obtain ⟨entry, arrivals⟩ := s
  cases entry with
  | none => exact ⟨_, rfl, rfl⟩
  | some e =>
    refine ⟨_, rfl, ?_⟩
    unfold Inbox.stream Inbox.buffer
    dsimp only
    split <;> rfl

end Read

/-! ## §4 — the first packet -/

/-- What a call that has read the packet returns. -/
structure Answers (p : Mqtt.Packet) (got : Received) : Prop where
  packettype : got.packettype = p.type
  flags : got.flags = p.flags
  length : got.length = p.body.length
  content : match p with
    | .publish _ qos _ topic id payload =>
      got.topic = some (topic ++ [0]) ∧ got.packetid = (if qos = 0 then -1 else (id.toNat : Int)) ∧
        got.pub = cstr payload
    | .pubrel id => got.packetid = id.toNat
    | .subscribe id _ => got.packetid = id.toNat
    | .other _ _ => True

/-- The call takes the packet, and what follows it is still to be read. -/
def Takes (s : Inbox) (p : Mqtt.Packet) (rest : Bytes) : Prop :=
  ∃ got s', receivemqtt s = some (got, s') ∧ s'.stream = rest ∧ Answers p got

/-- A `PUBLISH` without a packet identifier. -/
def qos0 : Mqtt.Packet → Prop
  | .publish _ qos _ _ _ _ => qos.val = 0
  | .pubrel _ => False
  | .subscribe _ _ => False
  | .other _ _ => False

/-- The first byte of a packet. -/
theorem header_byte : ∀ t < 16, ∀ f < 16, ((UInt8.ofNat (t * 16 + f) &&& 0xf0) >>> 4).toNat = t ∧
    (UInt8.ofNat (t * 16 + f) &&& 0x0f).toNat = f := by
  decide

/-- What is returned of the variable header and the payload. -/
def Content (p : Mqtt.Packet) (r : Option Bytes × Int × Bytes) : Prop :=
  match p with
  | .publish _ _ _ topic id payload => r = (some (topic ++ [0]), (id.toNat : Int), cstr payload)
  | .pubrel id => r.2.1 = id.toNat
  | .subscribe id _ => r.2.1 = id.toNat
  | .other _ _ => True

section Packets

variable {s : Inbox} {rest : Bytes}

theorem publish_gives {dup retain : Bool} {qos : Fin 3} {topic payload : Bytes} {id : UInt16}
    (hqos : qos ≠ 0) (hlt : topic.length < 2 ^ 16) (hlive : s.Live)
    (hstream : s.stream = (Mqtt.Packet.publish dup qos retain topic id payload).body ++ rest) :
    ∃ s', readVariable MQTT_TYPE_PUBLISH
          (Mqtt.Packet.publish dup qos retain topic id payload).body.length s =
        some ((some (topic ++ [0]), (id.toNat : Int), cstr payload), s') ∧
      s.Gives (Mqtt.Packet.publish dup qos retain topic id payload).body s' ∧ s'.stream = rest := by
  have hbody : (Mqtt.Packet.publish dup qos retain topic id payload).body =
      Mqtt.word topic.length ++ (topic ++ (Mqtt.word id.toNat ++ payload)) := by
    unfold Mqtt.Packet.body Mqtt.text
    dsimp only
    rw [if_neg hqos, List.append_assoc, List.append_assoc]
  rw [hbody] at hstream ⊢
  simp only [List.append_assoc] at hstream
  obtain ⟨s₁, hread₁, hgives₁, hstream₁⟩ := readWord_gives hlt hlive hstream
  obtain ⟨s₂, hread₂, hgives₂, hstream₂⟩ := readchars_gives hgives₁.live hstream₁
  obtain ⟨s₃, hread₃, hgives₃, hstream₃⟩ := readWord_gives id.toNat_lt hgives₂.live hstream₂
  obtain ⟨s₄, hread₄, hgives₄, hstream₄⟩ := readchars_gives hgives₃.live hstream₃
  refine ⟨s₄, ?_, hgives₁.trans (hgives₂.trans (hgives₃.trans hgives₄)), hstream₄⟩
  have hlength : (Mqtt.word topic.length ++ (topic ++ (Mqtt.word id.toNat ++ payload))).length -
      (topic.length + 2 + 2) = payload.length := by
    simp only [List.length_append, Mqtt.length_word]
    omega
  rw [readVariable, if_pos rfl, run_bind hread₁, run_bind hread₂, run_bind hread₃, hlength,
    run_bind hread₄]
  rfl

/-- A packet that begins with its identifier. -/
theorem identified_gives {type : Nat} {id : UInt16} {bs : Bytes} (htype : type ≠ MQTT_TYPE_PUBLISH)
    (hid : type = MQTT_TYPE_PUBREL ∨ type = MQTT_TYPE_SUBSCRIBE) (hlive : s.Live)
    (hstream : s.stream = (Mqtt.word id.toNat ++ bs) ++ rest) :
    ∃ s', readVariable type (Mqtt.word id.toNat ++ bs).length s =
        some ((none, (id.toNat : Int), []), s') ∧
      s.Gives (Mqtt.word id.toNat ++ bs) s' ∧ s'.stream = rest := by
  rw [List.append_assoc] at hstream
  obtain ⟨s₁, hread₁, hgives₁, hstream₁⟩ := readWord_gives id.toNat_lt hlive hstream
  obtain ⟨s₂, hread₂, hgives₂, hstream₂⟩ := readchars_gives hgives₁.live hstream₁
  refine ⟨s₂, ?_, hgives₁.trans hgives₂, hstream₂⟩
  have hlength : (Mqtt.word id.toNat ++ bs).length - 2 = bs.length := by
    rw [List.length_append, Mqtt.length_word, Nat.add_sub_cancel_left]
  rw [readVariable, if_neg htype, if_pos hid, run_bind hread₁, hlength, run_bind hread₂]
  rfl

/-- **What follows the remaining length is read to its end**, and its content returned. -/
theorem variable_gives {p : Mqtt.Packet} (hp : p.WellFormed) (hqos : ¬ qos0 p) (hlive : s.Live)
    (hstream : s.stream = p.body ++ rest) :
    ∃ r s', readRest p.type p.body.length s = some (r, s') ∧ s.Gives p.body s' ∧ s'.stream = rest ∧
      Content p r := by
  cases p with
  | publish dup qos retain topic id payload =>
    have hqos : qos ≠ 0 := fun h => hqos (congrArg Fin.val h)
    obtain ⟨s', hread, hgives, hstream'⟩ := publish_gives hqos hp.layout.1 hlive hstream
    refine ⟨_, s', ?_, hgives, hstream', rfl⟩
    have hlong : (Mqtt.Packet.publish dup qos retain topic id payload).body.length > 1 := by
      simp only [Mqtt.Packet.body, Mqtt.text, List.length_append, Mqtt.length_word]
      omega
    rw [readRest, if_pos hlong]
    exact hread
  | pubrel id =>
    have hstream : s.stream = (Mqtt.word id.toNat ++ []) ++ rest := by
      rw [List.append_nil]
      exact hstream
    obtain ⟨s', hread, hgives, hstream'⟩ :=
      identified_gives (show 6 ≠ MQTT_TYPE_PUBLISH by decide) (by decide) hlive hstream
    rw [List.append_nil] at hread hgives
    exact ⟨(none, (id.toNat : Int), []), s', hread, hgives, hstream', rfl⟩
  | subscribe id filters =>
    obtain ⟨s', hread, hgives, hstream'⟩ :=
      identified_gives (show 8 ≠ MQTT_TYPE_PUBLISH by decide) (by decide) hlive hstream
    refine ⟨(none, (id.toNat : Int), []), s', ?_, hgives, hstream', rfl⟩
    have hlong : (Mqtt.Packet.subscribe id filters).body.length > 1 := by
      simp only [Mqtt.Packet.body, List.length_append, Mqtt.length_word]
      omega
    rw [readRest, if_pos hlong]
    exact hread
  | other kind body =>
    by_cases hlong : body.length > 1
    · obtain ⟨s', hread, hgives, hstream'⟩ := readchars_gives hlive hstream
      have htype : kind.type ≠ MQTT_TYPE_PUBLISH ∧
          ¬ (kind.type = MQTT_TYPE_PUBREL ∨ kind.type = MQTT_TYPE_SUBSCRIBE) := by
        cases kind <;> decide
      refine ⟨(none, -1, []), s', ?_, hgives, hstream', trivial⟩
      have hread : readchars body.length s = some (body, s') := hread
      show readRest kind.type body.length s = _
      rw [readRest, if_pos hlong, readVariable, if_neg htype.1, if_neg htype.2, run_bind hread]
      rfl
    · -- no packet has a body of one byte
      have hnil : body = [] := by
        have htakes := hp.layout
        refine List.length_eq_zero_iff.mp ?_
        cases kind <;> simp only [Mqtt.Kind.takes] at htakes <;> omega
      subst hnil
      exact ⟨_, s, rfl, ⟨hlive, rfl, fun n => by
        rw [show (Mqtt.Packet.other kind []).body = [] from rfl, List.length_nil, Nat.zero_add]⟩,
        hstream, trivial⟩

/-- **The whole call** on a packet that is no `PUBLISH` without an identifier. -/
theorem receivemqtt_gives {p : Mqtt.Packet} (hp : p.WellFormed) (hqos : ¬ qos0 p) (hlive : s.Live)
    (hstream : s.stream = p.encode ++ rest) :
    ∃ r s₁ s₂, receivemqtt s =
        some (⟨p.type, p.body.length, p.flags, r.1, r.2.1, r.2.2⟩, s₂) ∧ Content p r ∧
      s.Gives p.encode s₁ ∧ s₁.stream = rest ∧ s₂.stream = s₁.arrivals.flatten := by
  rw [Mqtt.Packet.encode, List.cons_append, List.append_assoc] at hstream
  obtain ⟨s₀, hread₀, hgives₀, hstream₀⟩ := readchar_gives hlive hstream
  obtain ⟨s₁, hread₁, hgives₁, hstream₁⟩ := readLength_gives hp.remaining hgives₀.live hstream₀
  obtain ⟨r, s₂, hread₂, hgives₂, hstream₂, hcontent⟩ := variable_gives hp hqos hgives₁.live hstream₁
  obtain ⟨s₃, hread₃, hstream₃⟩ := flush_stream s₂
  obtain ⟨htype, hflags⟩ := header_byte p.type p.type_lt p.flags p.flags_lt
  refine ⟨r, s₂, s₃, ?_, hcontent, hgives₀.trans (hgives₁.trans hgives₂), hstream₂, hstream₃⟩
  rw [receivemqtt, run_bind hread₀, run_bind hread₁]
  dsimp only
  rw [htype, hflags, run_bind hread₂, run_bind hread₃]
  rfl

/-- Two reads of a word give a number. -/
theorem publish_packetid {length : Nat} {r : Option Bytes × Int × Bytes} {s' : Inbox}
    (h : readVariable MQTT_TYPE_PUBLISH length s = some (r, s')) : 0 ≤ r.2.1 := by
  rw [readVariable, if_pos rfl] at h
  obtain ⟨⟨topiclength, s₁⟩, -, h⟩ := Option.bind_eq_some_iff.mp h
  obtain ⟨⟨topic, s₂⟩, -, h⟩ := Option.bind_eq_some_iff.mp h
  obtain ⟨⟨packetid, s₃⟩, -, h⟩ := Option.bind_eq_some_iff.mp h
  obtain ⟨⟨payload, s₄⟩, -, h⟩ := Option.bind_eq_some_iff.mp h
  obtain ⟨rfl, -⟩ := Prod.mk.inj (Option.some.inj h)
  exact Int.natCast_nonneg packetid

/-- **A `PUBLISH` is never answered with -1.** -/
theorem received_packetid {got : Received} {s' : Inbox} (h : receivemqtt s = some (got, s'))
    (htype : got.packettype = MQTT_TYPE_PUBLISH) (hlength : got.length > 1) : 0 ≤ got.packetid := by
  obtain ⟨⟨recv, s₁⟩, -, h⟩ := Option.bind_eq_some_iff.mp h
  obtain ⟨⟨length, s₂⟩, -, h⟩ := Option.bind_eq_some_iff.mp h
  obtain ⟨⟨r, s₃⟩, hr, h⟩ := Option.bind_eq_some_iff.mp h
  obtain ⟨⟨u, s₄⟩, -, h⟩ := Option.bind_eq_some_iff.mp h
  obtain ⟨rfl, -⟩ := Prod.mk.inj (Option.some.inj h)
  dsimp only at htype hlength hr ⊢
  rw [readRest, if_pos hlength, htype] at hr
  exact publish_packetid hr

/-- **The first packet is taken, and only that**, if and only if it is no `PUBLISH` with quality of
service 0 and a piece of what came in ends where it ends. -/
theorem receivemqtt_reads (s : Inbox) (hlive : s.Live) (p : Mqtt.Packet) (hp : p.WellFormed)
    (rest : Bytes) (hstream : s.stream = p.encode ++ rest) :
    Takes s p rest ↔ ¬ qos0 p ∧ s.Cut p.encode.length := by
  by_cases hqos : qos0 p
  · refine ⟨fun ⟨got, s', hread, _, hans⟩ => ?_, fun h => absurd hqos h.1⟩
    cases p with
    | publish dup qos retain topic id payload =>
      have hid := hans.content.2.1
      have hzero : qos = 0 := Fin.ext hqos
      rw [if_pos hzero] at hid
      have hlength : got.length > 1 := by
        rw [hans.length]
        simp only [Mqtt.Packet.body, Mqtt.text, List.length_append, Mqtt.length_word]
        omega
      have hge := received_packetid hread hans.packettype hlength
      omega
    | _ => exact hqos.elim
  · obtain ⟨r, s₁, s₂, hread, hcontent, hgives, hstream₁, hstream₂⟩ :=
      receivemqtt_gives hp hqos hlive hstream
    have hans : Answers p ⟨p.type, p.body.length, p.flags, r.1, r.2.1, r.2.2⟩ := by
      refine ⟨rfl, rfl, rfl, ?_⟩
      cases p with
      | publish dup qos retain topic id payload =>
        obtain rfl : r = _ := hcontent
        have hqos : qos ≠ 0 := fun h => hqos (congrArg Fin.val h)
        exact ⟨rfl, (if_neg hqos).symm, rfl⟩
      | pubrel id => exact hcontent
      | subscribe id filters => exact hcontent
      | other kind body => trivial
    -- what is in the buffer behind the packet is cleared
    have hcleared : s₂.stream = rest ↔ s₁.buffer = [] := by
      rw [hstream₂, ← hstream₁]
      exact List.self_eq_append_left
    have hcut : s₁.buffer = [] ↔ s.Cut p.encode.length := by
      rw [← cut_zero, hgives.cut, Nat.add_zero]
    rw [← hcut, ← hcleared]
    constructor
    · rintro ⟨got, s', hread', hrest, -⟩
      rw [hread, Option.some.injEq, Prod.mk.injEq] at hread'
      exact ⟨hqos, hread'.2 ▸ hrest⟩
    · exact fun h => ⟨_, _, hread, h.2, hans⟩

/-- Two `PINGREQ` in one buffer. -/
def pings : Inbox := ⟨some ⟨80, false, [0xc0, 0, 0xc0, 0]⟩, []⟩

/-- A `PUBLISH` in two pieces, and a `PINGREQ` that comes later. -/
def publishThenPing : Inbox :=
  ⟨some ⟨80, false, [0x32, 9, 0, 3]⟩, [str "t/1" ++ [0, 7] ++ str "hi", [0xc0, 0]]⟩

theorem receivemqtt_reads_publish :
    Takes publishThenPing (.publish false 1 false (str "t/1") 7 (str "hi")) [0xc0, 0] :=
  (receivemqtt_reads publishThenPing (fun _ => ⟨_, rfl, rfl⟩)
    (.publish false 1 false (str "t/1") 7 (str "hi")) ⟨by decide, by decide, by decide⟩
    [0xc0, 0] (by decide)).mpr ⟨fun h : 1 = 0 => absurd h (by decide), 1, by decide⟩

/-- The second of two packets in one buffer is lost. -/
theorem second_lost : ¬ Takes pings (.other .pingreq []) [0xc0, 0] := by
  rintro ⟨got, s', hread, hrest, -⟩
  have hrun : receivemqtt pings = some (⟨12, 0, 0, none, -1, []⟩, ⟨some ⟨80, false, []⟩, []⟩) := by
    decide
  rw [hrun, Option.some.injEq, Prod.mk.injEq] at hread
  rw [← hread.2] at hrest
  exact nomatch hrest

end Packets

end Espmod.Web
