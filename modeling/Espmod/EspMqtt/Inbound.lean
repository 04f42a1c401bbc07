/-
# Espmod.EspMqtt.Inbound — a connection, packet after packet

`mqtt_process_receive` takes a packet whenever one is there and passes it on; this module follows it over a
whole connection. `received_exactly` says when nothing is lost on the way: each packet that the peer sends is
passed on once, in order and whole, with the payload of a `PUBLISH` in consecutive pieces, exactly as long as
no call swallows a byte of the next packet. A payload that stops arriving ends the connection, and what was
passed on of it is its beginning.
-/
import Espmod.EspMqtt.Deliver
import Espmod.Lib.Run

namespace Espmod.EspMqtt

open Espmod.Lib Espmod.Lib.Text Espmod.Lib.Words Espmod.Lib.Window

attribute [local instance] neZero_three

/-! ## §1 — the connection -/

/-- What is passed on of a packet: the packet as it stands in the buffer, or the events of a `PUBLISH`. -/
inductive Report where
  | packet (message : Bytes)
  | data (events : List DataEvent)
  deriving DecidableEq, Repr

structure Session where
  inflow : Inflow
  log : List Report
  /-- The connection has not been aborted. -/
  live : Bool
  deriving DecidableEq, Repr

namespace Session

/-- `mqtt_process_receive`, with what its reads will meet. -/
def mqttProcessReceive (s : Session) (arrivals : List Arrival) : Session :=
  if s.live then
    match Inflow.mqttMessageReceive { s.inflow with arrivals := arrivals } with
    | (.failed, inflow) => { s with inflow := inflow, live := false }
    | (.pending, inflow) => { s with inflow := inflow }
    | (.done, inflow) =>
      if mqttGetType inflow.inBuffer = 3 then
        let (ok, events, inflow) := inflow.deliverPublish
        { inflow := { inflow with readLen := 0 }, log := s.log ++ [.data events], live := ok }
      else
        { s with
          inflow := { inflow with readLen := 0 }
          log := s.log ++ [.packet (inflow.inBuffer.take inflow.messageLength)] }
  else s

/-- A connection on which the peer sends these packets. -/
def start (inBuffer : Bytes) (ps : List Mqtt.Packet) : Session :=
  ⟨⟨inBuffer, 0, 0, ps.flatMap Mqtt.Packet.encode, []⟩, [], true⟩

end Session

/-! ## §2 — what should be passed on -/

/-- A packet that the buffer of `n` bytes is made for. -/
structure Acceptable (n : Nat) (p : Mqtt.Packet) : Prop where
  wellFormed : p.WellFormed
  permitted : Inflow.Permitted p
  fits : Inflow.Fits n p

/-- All of the packet. -/
def Tells : Mqtt.Packet → Report → Prop
  | .publish _ _ _ topic _ payload, .data events => Delivers topic payload events []
  | .publish .., .packet _ => False
  | p, .packet message => message = p.encode
  | _, .data _ => False

/-- The beginning of a `PUBLISH`. -/
def Cut (p : Mqtt.Packet) (r : Report) : Prop :=
  ∃ dup qos retain topic id payload events unread,
    p = .publish dup qos retain topic id payload ∧ r = .data events ∧ Delivers topic payload events unread

/-- The packets `rest` are still to come, the first of them perhaps in part. -/
structure Awaits (n : Nat) (s : Inflow) (rest : List Mqtt.Packet) : Prop where
  buffer : s.inBuffer.length = n
  carries : s.Carries (rest.flatMap Mqtt.Packet.encode)
  idle : rest = [] → s.readLen = 0
  partly : ∀ p, rest.head? = some p → s.readLen < min n p.encode.length

/-- **Nothing is lost**: what was passed on is the packets in front of `rest`, one after the other; on a
connection that was aborted the last one may have been cut. -/
def Intact (n : Nat) (ps : List Mqtt.Packet) (s : Session) : Prop :=
  ∃ taken rest, ps = taken ++ rest ∧
    (s.live = true ∧ List.Forall₂ Tells taken s.log ∧ Awaits n s.inflow rest ∨
      s.live = false ∧ ∃ p log r, rest.head? = some p ∧ s.log = log ++ [r] ∧
        List.Forall₂ Tells taken log ∧ Cut p r)

/-- The next call would swallow. -/
def Swallowing (ps : List Mqtt.Packet) (s : Session) : Prop :=
  s.live = true ∧ ∃ p ∈ ps[s.log.length]?, Inflow.Swallows p s.inflow.readLen

instance (ps : List Mqtt.Packet) (s : Session) : Decidable (Swallowing ps s) :=
  inferInstanceAs (Decidable (_ ∧ ∃ p ∈ ps[s.log.length]?, Inflow.Swallows p s.inflow.readLen))

/-! ## §3 — one call -/

section Calls

variable {n : Nat} {ps : List Mqtt.Packet} {s : Session} {i : Inflow} {p : Mqtt.Packet}
  {rest : List Mqtt.Packet} {arrivals : List Arrival}

theorem length_encode_pos (p : Mqtt.Packet) : 2 ≤ p.encode.length := by
  have hfield := (Mqtt.length_lengthField p.body.length).1
  rw [length_encode]
  unfold headerSize
  omega

/-- At the end of a packet. -/
theorem awaits_of_stream (hn : i.inBuffer.length = n) (hpos : 0 < n)
    (hstream : i.stream = rest.flatMap Mqtt.Packet.encode) (hclean : .error ∉ i.arrivals) :
    Awaits n { i with readLen := 0 } rest where
  buffer := hn
  carries := ⟨Nat.zero_le _, by show [] ++ i.stream = _; exact hstream, hclean⟩
  idle := fun _ => rfl
  partly := by
    intro p _
    have hlen := length_encode_pos p
    show 0 < min n p.encode.length
    omega

/-- With no packet to come, a call has nothing to read. -/
theorem idle_call (h : i.Carries []) (hroom : 1 ≤ i.inBuffer.length) :
    ∃ i', i.mqttMessageReceive = (.pending, i') ∧ i'.Carries [] ∧ i'.inBuffer.length = i.inBuffer.length := by
  have hnone : ∀ {i : Inflow}, i.Carries [] → i.readLen = 0 := by
    intro i h
    have hlength := congrArg List.length h.bytes
    have hwithin := h.within
    rw [List.length_append, List.length_take, List.length_nil] at hlength
    omega
  have hstart : Inflow.Carries { i with messageLength := 0 } [] := ⟨h.within, h.bytes, h.clean⟩
  have hzero : ({ i with messageLength := 0 } : Inflow).readLen = 0 := hnone hstart
  have hfetch := hstart.fetch (show 0 < 1 by decide) (show _ + 1 ≤ 1 by rw [hzero]) hroom
  unfold Inflow.mqttMessageReceive Inflow.readFirst
  rw [if_pos hzero]
  generalize Inflow.fetch { i with messageLength := 0 } 1 = r at hfetch
  obtain ⟨o, i'⟩ := r
  cases o with
  | failed => exact absurd rfl hfetch.fails
  | pending => exact ⟨i', rfl, hfetch.reads.carries, hfetch.reads.buffer⟩
  | done =>
    obtain ⟨hgrow, -⟩ := hfetch.goes rfl
    have hgrow : ({ i with messageLength := 0 } : Inflow).readLen < i'.readLen := hgrow
    have hread := hnone (i := i') hfetch.reads.carries
    omega

theorem Carries.type {bs : Bytes} (h : i.Carries (p.encode ++ bs)) (hpos : 0 < i.readLen) :
    mqttGetType i.inBuffer = p.type := by
  rw [← mqttGetType_encode (p := p), mqttGetType, mqttGetType, h.byteAt hpos]

/-- **A packet that is not a `PUBLISH`** is passed on as it was sent. -/
theorem packet_taken (h : i.Carries (p.encode ++ rest.flatMap Mqtt.Packet.encode))
    (hread : i.readLen = p.encode.length) :
    i.inBuffer.take p.encode.length = p.encode ∧ i.stream = rest.flatMap Mqtt.Packet.encode := by
  have hbytes := h.bytes
  have hlength : (i.inBuffer.take i.readLen).length = p.encode.length :=
    (List.length_take_of_le h.within).trans hread
  rw [hread] at hbytes hlength
  exact List.append_inj hbytes hlength

/-- **A call that does not swallow** loses nothing. -/
theorem process_intact (h : Intact n ps s) (hps : ∀ p ∈ ps, Acceptable n p) (hn : 9 ≤ n)
    (hclean : .error ∉ arrivals) (hno : ¬ Swallowing ps s) : Intact n ps (s.mqttProcessReceive arrivals) := by
  obtain ⟨taken, rest, rfl, ⟨hlive, hlog, hawaits⟩ | ⟨hdead, hcut⟩⟩ := h
  · unfold Session.mqttProcessReceive
    rw [if_pos hlive]
    have hcarries : Inflow.Carries { s.inflow with arrivals := arrivals } (rest.flatMap Mqtt.Packet.encode) :=
      ⟨hawaits.carries.within, hawaits.carries.bytes, hclean⟩
    have hbuffer : ({ s.inflow with arrivals := arrivals } : Inflow).inBuffer.length = n := hawaits.buffer
    cases rest with
    | nil =>
      obtain ⟨i, hcall, hcarries', hbuffer'⟩ := idle_call hcarries (by omega)
      rw [hcall]
      have hread : i.readLen = 0 := by
        have hlength := congrArg List.length hcarries'.bytes
        have hwithin := hcarries'.within
        rw [List.length_append, List.length_take, List.length_nil] at hlength
        omega
      exact ⟨taken, [], rfl, .inl ⟨hlive, hlog, hbuffer'.trans hbuffer, hcarries', fun _ => hread, nofun⟩⟩
    | cons p rest =>
      obtain ⟨hwf, hperm, hfits⟩ := hps p (List.mem_append_right _ List.mem_cons_self)
      have hlt : s.inflow.readLen < min n p.encode.length := hawaits.partly p rfl
      have hsw : ¬ Inflow.Swallows p s.inflow.readLen := by
        intro hsw
        refine hno ⟨hlive, p, ?_, hsw⟩
        rw [← hlog.length_eq, List.getElem?_append_right (Nat.le_refl _), Nat.sub_self]
        rfl
      rw [List.flatMap_cons] at hcarries
      have hresult := hcarries.mqttMessageReceive hwf hperm hfits hbuffer hlt hsw
      generalize Inflow.mqttMessageReceive { s.inflow with arrivals := arrivals } = r at hresult
      obtain ⟨o, i⟩ := r
      have hcarries' : i.Carries (p.encode ++ rest.flatMap Mqtt.Packet.encode) := hresult.reads.carries
      have hbuffer' : i.inBuffer.length = n := hresult.reads.buffer.trans hbuffer
      cases o with
      | failed => exact absurd rfl hresult.fails
      | pending =>
        refine ⟨taken, p :: rest, rfl, .inl ⟨hlive, hlog, hbuffer', ?_, nofun, ?_⟩⟩
        · rw [List.flatMap_cons]
          exact hcarries'
        · rintro _ ⟨rfl⟩
          exact hresult.waits rfl
      | done =>
        obtain ⟨hread, hmessage⟩ := hresult.goes rfl
        have hread : i.readLen = min n p.encode.length := hread
        have hmessage : i.messageLength = p.encode.length := hmessage
        have hlen := length_encode_pos p
        dsimp only
        rw [Carries.type hcarries' (by omega)]
        have hassoc : taken ++ p :: rest = (taken ++ [p]) ++ rest := by
          rw [List.append_assoc, List.singleton_append]
        split
        · next htype =>
          -- the events have all of the payload, or there is no connection any more
          obtain ⟨dup, qos, retain, topic, id, payload, rfl⟩ := Inflow.exists_publish htype
          have harrived : Inflow.Arrived n i _ (rest.flatMap Mqtt.Packet.encode) :=
            ⟨hcarries', hread, hmessage, hbuffer', hwf, hfits⟩
          obtain ⟨ok, events, i', unread, hdeliver, hevents, hstream, hok, hclean', hbuffer''⟩ :=
            harrived.deliverPublish hperm.1
          rw [hdeliver]
          cases ok with
          | true =>
            have hnil := hok.mp rfl
            subst hnil
            refine ⟨taken ++ [_], rest, hassoc, .inl ⟨rfl, ?_, awaits_of_stream hbuffer'' (by omega) hstream
              hclean'⟩⟩
            exact List.rel_append hlog (.cons hevents .nil)
          | false =>
            exact ⟨taken, _, rfl, .inr ⟨rfl, _, s.log, _, rfl, rfl, hlog, dup, qos, retain, topic, id, payload,
              events, unread, rfl, rfl, hevents⟩⟩
        · next htype =>
          have hwhole := hfits.whole htype
          obtain ⟨htake, hstream⟩ := packet_taken hcarries' (by omega)
          refine ⟨taken ++ [p], rest, hassoc, .inl ⟨hlive, ?_, awaits_of_stream hbuffer' (by omega) hstream
            hcarries'.clean⟩⟩
          rw [hmessage, htake]
          refine List.rel_append hlog (.cons ?_ .nil)
          cases p with
          | publish => exact absurd rfl htype
          | _ => rfl
  · unfold Session.mqttProcessReceive
    rw [hdead, if_neg (by decide)]
    exact ⟨taken, rest, rfl, .inr ⟨hdead, hcut⟩⟩

/-- The bytes of a short `PUBLISH` stop the loop. -/
theorem not_publish_of_swallows {r : Nat} (hsw : Inflow.Swallows p r) (hlt : r < p.encode.length)
    (hperm : Inflow.Permitted p) (hwf : p.WellFormed) : p.type ≠ 3 := by
  intro htype
  obtain ⟨hheader, hshort, hbytes⟩ := hsw
  obtain ⟨dup, qos, retain, topic, id, payload, rfl⟩ := Inflow.exists_publish htype
  obtain ⟨hdrop, -, -, hlen⟩ := Inflow.publish_parts dup qos retain topic id payload [] _ rfl
  have hlayout : topic.length < 2 ^ 16 := hwf.layout.1
  have hhead : headerSize (.publish dup qos retain topic id payload) + 2 + topic.length ≤
      Inflow.headSize (.publish dup qos retain topic id payload) := Nat.le_add_right _ _
  have hpos : 0 < topic.length := List.length_pos_iff.mpr hperm.1
  have hfield := (Mqtt.length_lengthField (Mqtt.Packet.publish dup qos retain topic id payload).body.length).1
  have htwo : 2 ≤ headerSize (.publish dup qos retain topic id payload) := by
    unfold headerSize
    omega
  generalize Mqtt.Packet.publish dup qos retain topic id payload = p at *
  -- both bytes of the topic's length are below six
  have hword := wordAt_of_drop hlayout hdrop
  have hsecond : byteAt p.encode (headerSize p + 1) = topic.length := by
    have hcons : (p.encode ++ []).drop (headerSize p) = UInt8.ofNat (topic.length / 256) ::
        (UInt8.ofNat topic.length :: (topic ++ ((if qos = 0 then [] else Mqtt.word id.toNat) ++ payload ++ []))) :=
      hdrop
    rw [← Inflow.byteAt_append (by omega), byteAt_of_drop (drop_succ_of_drop hcons),
      UInt8.toNat_ofNat']
    omega
  have hbig := hbytes (headerSize p + 1) (by omega) (by omega)
  omega

/-- **A call that swallows** loses something, if what it waits for arrives in time. -/
theorem process_swallows (h : Intact n ps s) (hps : ∀ p ∈ ps, Acceptable n p)
    (hprompt : Inflow.Prompt arrivals) (hsw : Swallowing ps s) :
    ¬ Intact n ps (s.mqttProcessReceive arrivals) := by
  obtain ⟨hlive, p, hget, hsw⟩ := hsw
  obtain ⟨taken, rest, rfl, ⟨-, hlog, hawaits⟩ | ⟨hdead, -⟩⟩ := h
  rotate_left
  · rw [hlive] at hdead
    exact absurd hdead (by decide)
  obtain ⟨rest, rfl⟩ : ∃ rest', rest = p :: rest' := by
    rw [← hlog.length_eq, List.getElem?_append_right (Nat.le_refl _), Nat.sub_self] at hget
    cases rest with
    | nil => exact absurd hget (by simp)
    | cons q rest => exact ⟨rest, congrArg (· :: rest) (by simpa using hget)⟩
  obtain ⟨hwf, hperm, hnine, hsmall, -⟩ := hps p (List.mem_append_right _ List.mem_cons_self)
  have hlt : s.inflow.readLen < min n p.encode.length := hawaits.partly p rfl
  have htype := not_publish_of_swallows hsw (by omega) hperm hwf
  have hbuffer := hawaits.buffer
  have hcarries := hawaits.carries
  rw [List.flatMap_cons] at hcarries
  have hclean : .error ∉ arrivals := fun hmem => (hprompt.2 _ hmem).1 rfl
  have hcarries : Inflow.Carries { s.inflow with arrivals := arrivals }
      (p.encode ++ rest.flatMap Mqtt.Packet.encode) := ⟨hcarries.within, hcarries.bytes, hclean⟩
  obtain ⟨hpast, hmessage⟩ := hcarries.swallows hwf (by show 6 ≤ s.inflow.inBuffer.length; omega)
    (by show s.inflow.inBuffer.length < _; omega) (by show s.inflow.readLen < _; omega) hsw hprompt
  unfold Session.mqttProcessReceive
  rw [if_pos hlive]
  generalize Inflow.mqttMessageReceive { s.inflow with arrivals := arrivals } = r at hpast hmessage
  obtain ⟨o, i⟩ := r
  have hcarries' : i.Carries (p.encode ++ rest.flatMap Mqtt.Packet.encode) := hpast.carries
  -- what was passed on says how many packets it can have been
  have hsame : ∀ {taken' rest' : List Mqtt.Packet} {log : List Report}, taken ++ p :: rest = taken' ++ rest' →
      List.Forall₂ Tells taken' log → log.length = s.log.length → rest' = p :: rest := by
    intro taken' rest' log heq hlog' hlen
    have hlength : taken.length = taken'.length := by
      rw [hlog.length_eq, hlog'.length_eq, hlen]
    exact (List.append_inj heq hlength).2.symm
  cases o with
  | failed => exact absurd rfl hpast.fails
  | pending =>
    have hwaits : p.encode.length ≤ i.readLen := hpast.waits rfl
    rintro ⟨taken', rest', heq, ⟨-, hlog', hawaits'⟩ | ⟨hdead, -⟩⟩
    · have hrest := hsame heq hlog' rfl
      have hpartly : i.readLen < min n p.encode.length := hawaits'.partly p (by rw [hrest]; rfl)
      omega
    · have hdead : s.live = false := hdead
      rw [hlive] at hdead
      exact absurd hdead (by decide)
  | done =>
    have hgoes : p.encode.length < i.readLen := hpast.goes rfl
    dsimp only
    rw [if_neg (by rw [Carries.type hcarries' (by omega)]; exact htype)]
    rintro ⟨taken', rest', heq, ⟨-, hlog', hawaits'⟩ | ⟨hdead, -⟩⟩
    · have hlength : taken'.length = (taken ++ [p]).length := by
        rw [hlog'.length_eq, List.length_append, List.length_append, hlog.length_eq]
        rfl
      have hassoc : taken' ++ rest' = (taken ++ [p]) ++ rest := by
        rw [← heq, List.append_assoc, List.singleton_append]
      obtain rfl := (List.append_inj hassoc hlength).2
      -- the rest is shorter than the packets that are still to come
      have hbytes := congrArg List.length hawaits'.carries.bytes
      have hall := congrArg List.length hcarries'.bytes
      have hbytes : ([] ++ i.stream).length = (rest'.flatMap Mqtt.Packet.encode).length := hbytes
      rw [List.nil_append] at hbytes
      rw [List.length_append, List.length_append, List.length_take_of_le hcarries'.within] at hall
      omega
    · have hdead : s.live = false := hdead
      rw [hlive] at hdead
      exact absurd hdead (by decide)

end Calls

/-! ## §4 — a whole connection -/

theorem start_intact {n : Nat} {inBuffer : Bytes} (ps : List Mqtt.Packet) (hbuffer : inBuffer.length = n)
    (hn : 9 ≤ n) : Intact n ps (Session.start inBuffer ps) := by
  refine ⟨[], ps, rfl, .inl ⟨rfl, .nil, hbuffer, ⟨Nat.zero_le _, rfl, nofun⟩, fun _ => rfl, ?_⟩⟩
  intro p _
  have hlen := length_encode_pos p
  show 0 < min n p.encode.length
  omega

/-- **Packets are received exactly** if and only if no call swallows, whatever the pieces in which the packets
arrive. A call that is about to swallow does so only when the bytes it waits for do arrive. -/
theorem received_exactly {n : Nat} (inBuffer : Bytes) (ps : List Mqtt.Packet) (hbuffer : inBuffer.length = n)
    (hn : 9 ≤ n) (hps : ∀ p ∈ ps, Acceptable n p) (calls : List (List Arrival))
    (hcalls : Throughout (fun s arrivals => .error ∉ arrivals ∧ (Swallowing ps s → Inflow.Prompt arrivals))
      Session.mqttProcessReceive (Session.start inBuffer ps) calls) :
    Always (fun _ s => Intact n ps s) Session.mqttProcessReceive [] (Session.start inBuffer ps) calls ↔
      Throughout (fun s _ => ¬ Swallowing ps s) Session.mqttProcessReceive (Session.start inBuffer ps) calls := by
  apply always_iff_throughout (I := fun _ s => Intact n ps s) (fun _ _ h => h) _ _ calls []
    (Session.start inBuffer ps) (start_intact ps hbuffer hn) hcalls
  · intro _ s arrivals h hadm hno
    exact process_intact h hps hn hadm.1 hno
  · intro _ s arrivals h hadm hsw
    exact process_swallows h hps (hadm.2 (not_not.mp hsw)) (not_not.mp hsw)

/-- A `SUBACK` and a `PUBLISH` that is longer than the buffer. -/
def twoPackets : List Mqtt.Packet :=
  [.other .suback [0x80, 0x81, 0x80], .publish false 1 false (str "t/1") 7 (str "hello, everybody")]

/-- They are received when the first piece is the header; when it is one byte more, they are not. -/
theorem received_exactly_pieces :
    Always (fun _ s => Intact 16 twoPackets s) Session.mqttProcessReceive []
        (Session.start (List.replicate 16 0) twoPackets)
        [[.upTo 1, .upTo 1], [.upTo 9], [.upTo 1, .upTo 1, .upTo 9, .upTo 9, .upTo 9]] ∧
      ¬ Always (fun _ s => Intact 16 twoPackets s) Session.mqttProcessReceive []
        (Session.start (List.replicate 16 0) twoPackets)
        [[.upTo 1, .upTo 1, .upTo 1], List.replicate 6 (.upTo 1)] := by
  have hps : ∀ p ∈ twoPackets, Acceptable 16 p := by
    intro p hp
    simp only [twoPackets, List.mem_cons, List.not_mem_nil, or_false] at hp
    rcases hp with rfl | rfl
    · exact ⟨⟨by decide, by show 3 ≤ 3; decide⟩, trivial, by decide, by decide, by decide⟩
    · exact ⟨⟨by decide, by decide, by decide⟩, ⟨by decide, by decide⟩, by decide, by decide, by decide⟩
  constructor
  · apply (received_exactly (List.replicate 16 0) twoPackets rfl (by decide) hps _ (by decide +kernel)).mpr
    decide +kernel
  · intro h
    have hno := (received_exactly (List.replicate 16 0) twoPackets rfl (by decide) hps _
      (by decide +kernel)).mp h
    exact absurd hno (by decide +kernel)

end Espmod.EspMqtt
