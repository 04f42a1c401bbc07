/-
# Espmod.EspMqtt.Custody — what stays in the outbox

A message whose publication has succeeded is in the outbox, as its packet, until a packet answers it or its
thirty seconds are over. Nothing else takes it out, neither the end of a connection, nor what is done about
the other messages, nor the clearing of an outbox that is too large, which only takes messages that are
confirmed.
-/
import Espmod.EspMqtt.Sound

namespace Espmod.EspMqtt

open Espmod.Lib Espmod.Lib.Text

/-! ## §1 — one message -/

/-- `b` is `a`, perhaps in another state and as a repeated message. -/
structure Item.Same (a b : Item) : Prop where
  msgId : b.msgId = a.msgId
  msgQos : b.msgQos = a.msgQos
  tick : b.tick = a.tick
  buffer : b.buffer = a.buffer ∨ a.msgQos = 2 ∧ b.buffer = mqttSetDup a.buffer

theorem mqttSetDup_mqttSetDup (buffer : Bytes) : mqttSetDup (mqttSetDup buffer) = mqttSetDup buffer := by
  cases buffer with
  | nil => rfl
  | cons first rest =>
    show (first ||| 0x08 ||| 0x08) :: rest = (first ||| 0x08) :: rest
    rw [UInt8.or_assoc]
    rfl

namespace Outbox

variable {a : Item} {outbox outbox' : Outbox} {pending : PendingState} {msgId : UInt16}

/-- The message waits for its answer. -/
def Keeps (a : Item) (outbox : Outbox) : Prop := ∃ b ∈ outbox, a.Same b ∧ b.pending ≠ .confirmed

theorem Keeps.append (h : outbox.Keeps a) (new : Outbox) : Outbox.Keeps a (outbox ++ new) := by
  obtain ⟨b, hb, hsame⟩ := h
  exact ⟨b, List.mem_append_left _ hb, hsame⟩

theorem Keeps.cons (first : Item) (h : outbox.Keeps a) : Outbox.Keeps a (first :: outbox) := by
  obtain ⟨b, hb, hsame⟩ := h
  exact ⟨b, List.mem_cons_of_mem _ hb, hsame⟩

/-- The item itself, or one behind it. -/
theorem Keeps.of_cons {first : Item} (h : Outbox.Keeps a (first :: outbox)) :
    (a.Same first ∧ first.pending ≠ .confirmed) ∨ outbox.Keeps a := by
  obtain ⟨b, hb, hsame⟩ := h
  rcases List.mem_cons.mp hb with rfl | hb
  · exact .inl hsame
  · exact .inr ⟨b, hb, hsame⟩

/-- Only its own answer confirms a message. -/
theorem Keeps.setPending (h : outbox.Keeps a) (hne : pending ≠ .confirmed ∨ msgId ≠ a.msgId) :
    (outbox.outboxSetPending msgId pending).Keeps a := by
  induction outbox with
  | nil => exact h
  | cons first outbox ih =>
    rw [outboxSetPending]
    rcases h.of_cons with ⟨hsame, hwaits⟩ | hrest
    · split
      · next hid =>
        rcases hne with hpending | hother
        · exact ⟨_, List.mem_cons_self, ⟨hsame.msgId, hsame.msgQos, hsame.tick, hsame.buffer⟩, hpending⟩
        · exact absurd (hid.symm.trans hsame.msgId) hother
      · exact ⟨first, List.mem_cons_self, hsame, hwaits⟩
    · split
      · exact hrest.cons _
      · exact (ih hrest).cons _

theorem Keeps.delete {msgType : Nat} (h : outbox.Keeps a) (hne : msgId ≠ a.msgId)
    (hdelete : outboxDelete msgId msgType outbox = some outbox') : outbox'.Keeps a := by
  induction outbox generalizing outbox' with
  | nil =>
    rw [outboxDelete] at hdelete
    cases hdelete
  | cons first outbox ih =>
    rw [outboxDelete] at hdelete
    split at hdelete
    · next hfirst =>
      cases hdelete
      rcases h.of_cons with ⟨hsame, -⟩ | hrest
      · exact absurd (hfirst.1.symm.trans hsame.msgId) hne
      · exact hrest
    · obtain ⟨rest, hrest', rfl⟩ := Option.map_eq_some_iff.mp hdelete
      rcases h.of_cons with hfirst | hrest
      · exact ⟨first, List.mem_cons_self, hfirst⟩
      · exact (ih hrest hrest').cons first

theorem Keeps.deleteExpired {tick timeout : Int} (h : outbox.Keeps a) (hle : tick - a.tick ≤ timeout) :
    Outbox.Keeps a (outbox.outboxDeleteExpired tick timeout).1 := by
  obtain ⟨b, hb, hsame, hwaits⟩ := h
  refine ⟨b, List.mem_filter.mpr ⟨hb, ?_⟩, hsame, hwaits⟩
  rw [hsame.tick]
  exact decide_eq_true (Int.not_lt.mpr hle)

/-- What is taken out is confirmed. -/
theorem Keeps.eraseConfirmed (h : outbox.Keeps a) :
    Outbox.Keeps a (outbox.eraseP (·.pending = .confirmed)) := by
  obtain ⟨b, hb, hsame, hwaits⟩ := h
  exact ⟨b, (List.mem_eraseP_of_neg (by simpa using hwaits)).mpr hb, hsame, hwaits⟩

theorem Keeps.cleanupRounds {maxSize : Nat} (rounds : Nat) (h : outbox.Keeps a) :
    (Outbox.cleanupRounds maxSize rounds outbox).Keeps a := by
  induction rounds generalizing outbox with
  | zero => exact h
  | succ rounds ih =>
    rw [Outbox.cleanupRounds]
    split
    · split
      · exact ih h.eraseConfirmed
      · exact h
    · exact h

theorem Keeps.setDup {found : Item} (h : outbox.Keeps a) (hfound : outbox.outboxDequeue pending = some found)
    (hqos : found.msgQos = 2) : (outbox.setDup pending).Keeps a := by
  induction outbox with
  | nil => exact h
  | cons first outbox ih =>
    rw [outboxDequeue, List.find?_cons] at hfound
    rw [Outbox.setDup]
    by_cases hpending : first.pending = pending
    · rw [decide_eq_true hpending] at hfound
      cases hfound
      rw [if_pos hpending]
      rcases h.of_cons with ⟨hsame, hwaits⟩ | hrest
      · refine ⟨_, List.mem_cons_self, ⟨hsame.msgId, hsame.msgQos, hsame.tick, .inr ⟨?_, ?_⟩⟩, hwaits⟩
        · rw [← hsame.msgQos, hqos]
        · rcases hsame.buffer with hbuffer | ⟨-, hbuffer⟩
          · exact congrArg mqttSetDup hbuffer
          · exact (congrArg mqttSetDup hbuffer).trans (mqttSetDup_mqttSetDup _)
      · exact hrest.cons _
    · rw [decide_eq_false hpending] at hfound
      rw [if_neg hpending]
      rcases h.of_cons with hfirst | hrest
      · exact ⟨first, List.mem_cons_self, hfirst⟩
      · exact (ih hrest hfound).cons first

end Outbox

/-! ## §2 — the steps -/

namespace Client

variable {a : Item} {c c' : Client}

@[simp] theorem mqttWriteData_outbox (c : Client) (reply : WriteReply) (bytes : Bytes) :
    (c.mqttWriteData reply bytes).2.outbox = c.outbox := by
  rcases mqttWriteData_cases c reply bytes with ⟨w, -, -, hwrite⟩ | hwrite <;> rw [hwrite]

@[simp] theorem mqttWriteData_count (c : Client) (reply : WriteReply) (bytes : Bytes) :
    (c.mqttWriteData reply bytes).2.pendingMsgCount = c.pendingMsgCount := by
  rcases mqttWriteData_cases c reply bytes with ⟨w, -, -, hwrite⟩ | hwrite <;> rw [hwrite]

/-- The loop only puts items behind the others. -/
theorem sendRounds_outbox (qos : Int) (data : Bytes) (tick : Int) (rounds : Nat) :
    ∀ {c : Client} {replies : List WriteReply} {position remaining : Int} {ok : Bool} {c' : Client},
      sendRounds qos data tick rounds c replies position remaining = some (ok, c') →
      ∃ new, c'.outbox = c.outbox ++ new := by
  induction rounds with
  | zero =>
    intro c replies position remaining ok c' h
    rw [sendRounds] at h
    cases h
  | succ rounds ih =>
    intro c replies position remaining ok c' h
    rw [sendRounds] at h
    have houtbox := mqttWriteData_outbox c (replies.headD .taken) c.connection.message
    generalize c.mqttWriteData (replies.headD .taken) c.connection.message = written at h houtbox
    obtain ⟨ok₁, c₁⟩ := written
    have houtbox : c₁.outbox = c.outbox := houtbox
    cases ok₁ with
    | false =>
      cases h
      exact ⟨[], (List.append_nil c.outbox).symm ▸ houtbox⟩
    | true =>
      dsimp only at h
      split at h
      · obtain ⟨new, hnew⟩ := ih h
        -- the item of the packet, if there is one
        by_cases hplace : c₁.connection.fragmentedMsgDataOffset ≠ 0 ∧ qos > 0
        · rw [if_pos hplace.1, if_pos hplace.2] at hnew
          exact ⟨_, hnew.trans ((congrArg (fun o => o ++ _ ++ new) houtbox).trans (List.append_assoc _ _ _))⟩
        · have hsame : c'.outbox = c₁.outbox ++ new := by
            rw [hnew]
            split
            · next hne => rw [if_neg fun hqos => hplace ⟨hne, hqos⟩]
            · rfl
          exact ⟨new, by rw [hsame, houtbox]⟩
      · cases h
        exact ⟨[], (List.append_nil c.outbox).symm ▸ houtbox⟩

theorem published_keeps {id id' : UInt16} {data : Bytes} {qos tick : Int} {replies : List WriteReply}
    (h : c.outbox.Keeps a) (hpub : c.published id data qos tick replies = some (id', c')) :
    c'.outbox.Keeps a := by
  unfold published at hpub
  split at hpub
  · cases hpub
    exact h
  · split at hpub
    · cases hpub
    · next c₁ hrounds =>
      cases hpub
      obtain ⟨new, hnew⟩ := sendRounds_outbox qos data tick _ hrounds
      rw [hnew]
      exact h.append new
    · next c₁ hrounds =>
      obtain ⟨new, hnew⟩ := sendRounds_outbox qos data tick _ hrounds
      cases hpub
      have hkeeps : c₁.outbox.Keeps a := by
        rw [hnew]
        exact h.append new
      split
      · exact hkeeps.setPending (.inl nofun)
      · exact hkeeps

theorem publish_keeps {draw id : UInt16} {topic data : Bytes} {len qos retain tick : Int}
    {replies : List WriteReply} (h : c.outbox.Keeps a)
    (hpub : c.espMqttClientPublish draw topic data len qos retain tick replies = some (id, c')) :
    c'.outbox.Keeps a := by
  rw [espMqttClientPublish_eq] at hpub
  dsimp only at hpub
  split at hpub
  · cases hpub
  refine published_keeps ?_ hpub
  obtain ⟨_, _, _, new, hprepared, -⟩ := prepared_frame c
    (c.connection.mqttMsgPublish draw 0 topic (payloadOf data len) qos retain) qos tick
  rw [hprepared]
  exact h.append new

theorem request_keeps {made : Connection × UInt16} {tick : Int} {reply : WriteReply} (h : c.outbox.Keeps a) :
    (c.request made tick reply).2.outbox.Keeps a := by
  have hqueued : ∀ c : Client, c.outbox.Keeps a →
      ((c.mqttEnqueue tick).outboxSetPending made.2 .transmitted).outbox.Keeps a := by
    intro c h
    unfold mqttEnqueue
    split
    · exact (h.append _).setPending (.inl nofun)
    · exact h.setPending (.inl nofun)
  unfold request
  dsimp only
  generalize hc₁ : (mqttEnqueue _ tick).outboxSetPending made.2 .transmitted = c₁
  have hkeeps : c₁.outbox.Keeps a := by
    rw [← hc₁]
    exact hqueued _ h
  rw [← mqttWriteData_outbox c₁ reply c₁.connection.message] at hkeeps
  split
  · next c₂ heq =>
    rw [heq] at hkeeps
    exact hkeeps
  · next c₂ heq =>
    rw [heq] at hkeeps
    exact hkeeps

theorem isValidMqttMsg_keeps {msgType : Nat} {msgId : UInt16} (h : c.outbox.Keeps a) (hne : msgId ≠ a.msgId) :
    (c.isValidMqttMsg msgType msgId).2.outbox.Keeps a := by
  unfold isValidMqttMsg
  split
  · exact h
  · split
    · next outbox hdelete => exact h.delete hne hdelete
    · split <;> exact h

/-- `PUBACK`, `PUBREC`, `PUBCOMP`, `SUBACK` and `UNSUBACK`. -/
def answers : List Nat := [4, 5, 7, 9, 11]

/-- An event that takes nothing from a message with this identifier and tick: no answer to it, and no time at
which it has been there for too long. -/
def Spares (msgId : UInt16) (tick : Int) : Event → Prop
  | .receive inBuffer messageLength _ _ _ =>
    mqttGetType inBuffer ∈ answers → mqttGetId inBuffer (UInt16.ofNat messageLength) ≠ msgId
  | .expire now => now - tick ≤ outboxExpiredTimeoutMs
  | _ => True

theorem mqttProcessReceive_keeps {inBuffer : Bytes} {messageLength : Nat} {delivered : Bool} {draw : UInt16}
    {reply : WriteReply} (h : c.outbox.Keeps a) (hspares : mqttGetType inBuffer ∈ answers →
      mqttGetId inBuffer (UInt16.ofNat messageLength) ≠ a.msgId) :
    (c.mqttProcessReceive inBuffer messageLength delivered draw reply).2.outbox.Keeps a := by
  have hrespond : ∀ connection, (c.respond connection reply).2.outbox.Keeps a := by
    intro connection
    unfold respond
    rw [mqttWriteData_outbox]
    exact h
  unfold mqttProcessReceive
  dsimp only
  split
  · next htype => exact isValidMqttMsg_keeps h (hspares (by rw [htype]; decide))
  · next htype => exact isValidMqttMsg_keeps h (hspares (by rw [htype]; decide))
  · split
    · split
      · exact hrespond _
      · split
        · exact hrespond _
        · exact h
    · exact h
  · next htype =>
    have hne := hspares (by rw [htype]; decide)
    have hvalid : Outbox.Keeps a (c.isValidMqttMsg 3 _).2.outbox := isValidMqttMsg_keeps h hne
    split
    · next c₁ heq =>
      rw [heq] at hvalid
      exact hvalid.setPending (.inr hne)
    · next c₁ heq =>
      rw [heq] at hvalid
      exact hvalid
  · next htype =>
    have hne := hspares (by rw [htype]; decide)
    unfold respond
    rw [mqttWriteData_outbox]
    exact h.setPending (.inr hne)
  · exact hrespond _
  · next htype => exact isValidMqttMsg_keeps h (hspares (by rw [htype]; decide))
  · exact h
  · exact h

theorem resend_keeps {pending : PendingState} {reply : WriteReply} (h : c.outbox.Keeps a) :
    (c.resend pending reply).outbox.Keeps a := by
  unfold resend
  split
  · exact h
  · next found hfound =>
    dsimp only
    generalize hdup : (decide (found.msgType = 3 ∧ found.msgQos = 2)) = dup
    have hkeeps : Outbox.Keeps a (if dup then c.outbox.setDup pending else c.outbox) := by
      cases dup with
      | true => exact h.setDup hfound (of_decide_eq_true hdup).2
      | false => exact h
    generalize (if dup then mqttSetDup found.buffer else found.buffer) = bytes
    generalize hc₁ : ({ c with
      pendingMsgId := found.msgId
      pendingMsgType := found.msgType
      pendingPublishQos := found.msgQos
      outbox := if dup then c.outbox.setDup pending else c.outbox } : Client) = c₁
    have hkeeps : c₁.outbox.Keeps a := by
      rw [← hc₁]
      exact hkeeps
    rw [← mqttWriteData_outbox c₁ reply bytes] at hkeeps
    split
    · next c₂ heq =>
      rw [heq] at hkeeps
      exact hkeeps
    · next c₂ heq =>
      rw [heq] at hkeeps
      split
      · exact hkeeps.setPending (.inl nofun)
      · exact hkeeps

/-- **One step** leaves a message that it spares. -/
theorem step_keeps {e : Event} (h : c.outbox.Keeps a) (hspares : Spares a.msgId a.tick e) :
    (c.step e).outbox.Keeps a := by
  have hconnected : (c.connectedStep e).outbox.Keeps a := by
    cases e with
    | receive inBuffer messageLength delivered draw reply =>
      have hkeeps : Outbox.Keeps a (c.mqttProcessReceive inBuffer messageLength delivered draw reply).2.outbox :=
        mqttProcessReceive_keeps h hspares
      rw [connectedStep]
      split
      · next c' heq =>
        rw [heq] at hkeeps
        exact hkeeps
      · next c' heq =>
        rw [heq] at hkeeps
        exact hkeeps
    | resend again reply => exact resend_keeps h
    | keepAlive reply =>
      show (c.keepAlive reply).outbox.Keeps a
      unfold keepAlive
      split
      · exact h
      · have hsame : (c.respond c.connection.mqttMsgPingreq reply).2.outbox.Keeps a := by
          unfold respond
          rw [mqttWriteData_outbox]
          exact h
        split
        · next c' heq =>
          rw [heq] at hsame
          exact hsame
        · next c' heq =>
          rw [heq] at hsame
          exact hsame
    | abort refresh => cases refresh <;> exact h
    | _ => exact h
  have htask : (c.taskStep e).outbox.Keeps a := by
    have hother : (if c.state = .connected then c.connectedStep e else c).outbox.Keeps a := by
      split
      · exact hconnected
      · exact h
    cases e with
    | connect opened info reply answer =>
      show (if c.state = .init then c.connectRound opened info reply answer else c).outbox.Keeps a
      split
      · have hsame : (c.connectRound opened info reply answer).outbox = c.outbox := by
          unfold connectRound espMqttConnect
          cases opened <;> cases reply <;> cases espMqttConnect.answered answer <;> rfl
        rw [hsame]
        exact h
      · exact h
    | expire tick => exact h.deleteExpired hspares
    | cleanup => exact h.cleanupRounds _
    | retry autoReconnect =>
      rw [taskStep]
      split
      · split <;> exact h
      · exact h
    | _ => exact hother
  have htask : (if c.run then c.taskStep e else c).outbox.Keeps a := by
    split
    · exact htask
    · exact h
  cases e with
  | publish draw topic data len qos retain tick replies =>
    rw [step]
    split
    · next id c' hpub => exact publish_keeps h hpub
    · exact h
  | subscribe draw topic qos tick reply =>
    rw [step, espMqttClientSubscribe]
    split
    · exact h
    · exact request_keeps h
  | unsubscribe draw topic tick reply =>
    rw [step, espMqttClientUnsubscribe]
    split
    · exact h
    · exact request_keeps h
  | stop reply =>
    rw [step, espMqttClientStop]
    split
    · show (if c.state = .connected then _ else c).outbox.Keeps a
      split
      · rw [mqttWriteData_outbox]
        exact h
      · exact h
    · exact h
  | finish =>
    rw [step]
    split <;> exact h
  | _ => exact htask

end Client

end Espmod.EspMqtt
