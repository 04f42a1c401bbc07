/-
# Espmod.EspMqtt.Account — the number of messages that wait

`pending_msg_count` should say how many messages of the outbox wait for an answer, and `is_valid_mqtt_msg`
looks for none when it is zero. Every step keeps it at least at the length of the outbox, except for one: an
answer whose message is not in the outbox, but was the last one that was sent. It is counted all the same.
-/
import Espmod.EspMqtt.Conform
import Espmod.EspMqtt.Custody

namespace Espmod.EspMqtt

open Espmod.Lib Espmod.Lib.Text

/-! ## §1 — lengths -/

namespace Outbox

variable {outbox outbox' : Outbox} {msgId : UInt16} {pending : PendingState}

@[simp] theorem length_outboxSetPending (outbox : Outbox) (msgId : UInt16) (pending : PendingState) :
    (outbox.outboxSetPending msgId pending).length = outbox.length := by
  induction outbox with
  | nil => rfl
  | cons first outbox ih =>
    rw [outboxSetPending]
    split
    · rfl
    · exact congrArg Nat.succ ih

@[simp] theorem length_setDup (outbox : Outbox) (pending : PendingState) :
    (outbox.setDup pending).length = outbox.length := by
  induction outbox with
  | nil => rfl
  | cons first outbox ih =>
    rw [setDup]
    split
    · rfl
    · exact congrArg Nat.succ ih

theorem length_outboxDelete {msgType : Nat} (h : outboxDelete msgId msgType outbox = some outbox') :
    outbox'.length + 1 = outbox.length := by
  induction outbox generalizing outbox' with
  | nil =>
    rw [outboxDelete] at h
    cases h
  | cons first outbox ih =>
    rw [outboxDelete] at h
    split at h
    · cases h
      rfl
    · obtain ⟨rest, hrest, rfl⟩ := Option.map_eq_some_iff.mp h
      exact congrArg Nat.succ (ih hrest)

/-- What is deleted is counted. -/
theorem length_outboxDeleteExpired (outbox : Outbox) (tick timeout : Int) :
    (outbox.outboxDeleteExpired tick timeout).1.length + (outbox.outboxDeleteExpired tick timeout).2 =
      outbox.length := by
  unfold outboxDeleteExpired
  rw [← List.countP_eq_length_filter, Nat.add_comm,
    List.length_eq_countP_add_countP (fun item : Item => decide (tick - item.tick > timeout))]
  simp

end Outbox

/-! ## §2 — the steps -/

namespace Client

variable {n k : Nat} {c c' : Client}

/-- How many more are counted than are in the outbox. -/
def surplus (c : Client) : Int := c.pendingMsgCount - c.outbox.length

/-- The count goes along with the outbox. -/
structure Accounts (c c' : Client) : Prop where
  surplus : c.surplus ≤ c'.surplus
  count : 0 ≤ c.pendingMsgCount → 0 ≤ c'.pendingMsgCount

theorem Accounts.trans {c'' : Client} (h : Accounts c c') (h' : Accounts c' c'') : Accounts c c'' :=
  ⟨h.surplus.trans h'.surplus, h'.count ∘ h.count⟩

/-- The outbox and the count are as they were, or there are fewer items. -/
theorem accounts_of_le (hlength : c'.outbox.length ≤ c.outbox.length)
    (hcount : c'.pendingMsgCount = c.pendingMsgCount) : Accounts c c' := by
  refine ⟨?_, hcount ▸ id⟩
  unfold Client.surplus
  omega

/-- The type of message that a packet answers. -/
def requested : Nat → Option Nat
  | 4 | 7 => some 3
  | 9 => some 8
  | 11 => some 10
  | _ => none

/-- An answer to the last message, of which the outbox has no item. -/
def Bare (c : Client) (msgType : Nat) (msgId : UInt16) : Prop :=
  c.pendingMsgCount ≠ 0 ∧ c.outbox.outboxDelete msgId msgType = none ∧ c.pendingMsgType = msgType ∧
    c.pendingMsgId = msgId

theorem isValidMqttMsg_accounts {msgType : Nat} {msgId : UInt16} (h : ¬ c.Bare msgType msgId) :
    Accounts c (c.isValidMqttMsg msgType msgId).2 := by
  unfold isValidMqttMsg
  split
  · exact accounts_of_le (Nat.le_refl _) rfl
  · next hcount =>
    split
    · next outbox hdelete =>
      have hlength := Outbox.length_outboxDelete hdelete
      refine ⟨?_, fun hle => ?_⟩
      · unfold Client.surplus
        dsimp only
        omega
      · dsimp only
        omega
    · next hdelete =>
      split
      · next hsame => exact absurd ⟨hcount, hdelete, hsame⟩ h
      · exact accounts_of_le (Nat.le_refl _) rfl

theorem isValidMqttMsg_bare {msgType : Nat} {msgId : UInt16} (h : c.Bare msgType msgId) :
    (c.isValidMqttMsg msgType msgId).2.surplus = c.surplus - 1 ∧
      (0 ≤ c.pendingMsgCount → 0 ≤ (c.isValidMqttMsg msgType msgId).2.pendingMsgCount) := by
  obtain ⟨hcount, hdelete, hsame⟩ := h
  unfold isValidMqttMsg
  rw [if_neg hcount, hdelete]
  dsimp only
  rw [if_pos hsame]
  refine ⟨?_, fun hle => ?_⟩
  · unfold Client.surplus
    dsimp only
    omega
  · dsimp only
    omega

/-- The answers that count a message down that is not in the outbox. -/
def Unmatched (c : Client) : Event → Prop
  | .receive inBuffer messageLength _ _ _ => c.run = true ∧ c.state = .connected ∧
    ∃ msgType, requested (mqttGetType inBuffer) = some msgType ∧
      c.Bare msgType (mqttGetId inBuffer (UInt16.ofNat messageLength))
  | _ => False

/-- An answer does what `is_valid_mqtt_msg` does. -/
theorem mqttProcessReceive_answer {inBuffer : Bytes} {messageLength : Nat} {delivered : Bool} {draw : UInt16}
    {reply : WriteReply} {msgType : Nat} (h : requested (mqttGetType inBuffer) = some msgType) :
    ∃ c', c.mqttProcessReceive inBuffer messageLength delivered draw reply = (true, c') ∧
      c'.pendingMsgCount =
        (c.isValidMqttMsg msgType (mqttGetId inBuffer (UInt16.ofNat messageLength))).2.pendingMsgCount ∧
      c'.outbox.length =
        (c.isValidMqttMsg msgType (mqttGetId inBuffer (UInt16.ofNat messageLength))).2.outbox.length := by
  unfold mqttProcessReceive
  dsimp only
  generalize mqttGetType inBuffer = type at h
  unfold requested at h
  split at h
  · -- `PUBACK` also marks an item
    cases h
    generalize c.isValidMqttMsg 3 (mqttGetId inBuffer (UInt16.ofNat messageLength)) = valid
    obtain ⟨ok, c'⟩ := valid
    cases ok with
    | true => exact ⟨_, rfl, rfl, Outbox.length_outboxSetPending _ _ _⟩
    | false => exact ⟨_, rfl, rfl, rfl⟩
  all_goals cases h
  all_goals exact ⟨_, rfl, rfl, rfl⟩

theorem mqttProcessReceive_other {inBuffer : Bytes} {messageLength : Nat} {delivered : Bool} {draw : UInt16}
    {reply : WriteReply} (h : requested (mqttGetType inBuffer) = none) :
    Accounts c (c.mqttProcessReceive inBuffer messageLength delivered draw reply).2 := by
  have hrespond : ∀ (c₁ : Client) connection, c₁.outbox.length = c.outbox.length →
      c₁.pendingMsgCount = c.pendingMsgCount → Accounts c (c₁.respond connection reply).2 := by
    intro c₁ connection hlength hcount
    unfold respond
    apply accounts_of_le
    · rw [mqttWriteData_outbox]
      exact hlength.le
    · rw [mqttWriteData_count]
      exact hcount
  have hrefl : Accounts c c := accounts_of_le (Nat.le_refl _) rfl
  unfold mqttProcessReceive
  dsimp only
  split
  · next htype => rw [htype] at h; cases h
  · next htype => rw [htype] at h; cases h
  · split
    · split
      · exact hrespond c _ rfl rfl
      · split
        · exact hrespond c _ rfl rfl
        · exact hrefl
    · exact hrefl
  · next htype => rw [htype] at h; cases h
  · exact hrespond _ _ (Outbox.length_outboxSetPending _ _ _) rfl
  · exact hrespond c _ rfl rfl
  · next htype => rw [htype] at h; cases h
  · exact accounts_of_le (Nat.le_refl _) rfl
  · exact hrefl

theorem request_accounts (made : Connection × UInt16) (tick : Int) (reply : WriteReply) :
    Accounts c (c.request made tick reply).2 := by
  have hqueued : ∀ c₁ : Client, c₁.outbox = c.outbox → c₁.pendingMsgCount = c.pendingMsgCount + 1 →
      Accounts c ((c₁.mqttEnqueue tick).outboxSetPending made.2 .transmitted) := by
    intro c₁ houtbox hcount
    have hlength : ((c₁.mqttEnqueue tick).outboxSetPending made.2 .transmitted).outbox.length =
        (c₁.mqttEnqueue tick).outbox.length := Outbox.length_outboxSetPending _ _ _
    have hle : (c₁.mqttEnqueue tick).outbox.length ≤ c.outbox.length + 1 ∧
        (c₁.mqttEnqueue tick).pendingMsgCount = c.pendingMsgCount + 1 := by
      unfold mqttEnqueue
      split
      · refine ⟨?_, hcount⟩
        show (c₁.outbox ++ [_]).length ≤ _
        rw [List.length_append, houtbox, List.length_singleton]
      · rw [houtbox]
        exact ⟨Nat.le_succ _, hcount⟩
    have hcount' : ((c₁.mqttEnqueue tick).outboxSetPending made.2 .transmitted).pendingMsgCount =
        c.pendingMsgCount + 1 := hle.2
    refine ⟨?_, fun _ => by omega⟩
    unfold Client.surplus
    omega
  unfold request
  dsimp only
  generalize hc₁ : (mqttEnqueue _ tick).outboxSetPending made.2 .transmitted = c₁
  have haccounts : Accounts c c₁ := by
    rw [← hc₁]
    exact hqueued _ rfl rfl
  have hwritten : Accounts c (c₁.mqttWriteData reply c₁.connection.message).2 := by
    refine haccounts.trans (accounts_of_le ?_ (mqttWriteData_count _ _ _))
    rw [mqttWriteData_outbox]
  split
  · next c₂ heq =>
    rw [heq] at hwritten
    exact hwritten
  · next c₂ heq =>
    rw [heq] at hwritten
    exact hwritten

theorem resend_accounts (c : Client) (pending : PendingState) (reply : WriteReply) :
    Accounts c (c.resend pending reply) := by
  unfold resend
  split
  · exact accounts_of_le (Nat.le_refl _) rfl
  · next found hfound =>
    dsimp only
    generalize hc₁ : ({ c with
      pendingMsgId := found.msgId
      pendingMsgType := found.msgType
      pendingPublishQos := found.msgQos
      outbox := if decide (found.msgType = 3 ∧ found.msgQos = 2) then c.outbox.setDup pending
        else c.outbox } : Client) = c₁
    have haccounts : Accounts c c₁ := by
      rw [← hc₁]
      apply accounts_of_le
      · dsimp only
        split
        · exact (Outbox.length_setDup _ _).le
        · exact Nat.le_refl _
      · rfl
    generalize (if decide (found.msgType = 3 ∧ found.msgQos = 2) then mqttSetDup found.buffer
      else found.buffer) = bytes
    have hwritten : Accounts c (c₁.mqttWriteData reply bytes).2 := by
      refine haccounts.trans (accounts_of_le ?_ (mqttWriteData_count _ _ _))
      rw [mqttWriteData_outbox]
    split
    · next c₂ heq =>
      rw [heq] at hwritten
      exact hwritten.trans (accounts_of_le (Nat.le_refl _) rfl)
    · next c₂ heq =>
      rw [heq] at hwritten
      split
      · exact hwritten.trans (accounts_of_le (Outbox.length_outboxSetPending _ _ _).le rfl)
      · exact hwritten

theorem keepAlive_accounts (c : Client) (reply : WriteReply) : Accounts c (c.keepAlive reply) := by
  unfold keepAlive
  split
  · exact accounts_of_le (Nat.le_refl _) rfl
  · have hsame : Accounts c (c.respond c.connection.mqttMsgPingreq reply).2 := by
      unfold respond
      apply accounts_of_le
      · rw [mqttWriteData_outbox]
      · rw [mqttWriteData_count]
    split
    · next c' heq =>
      rw [heq] at hsame
      exact hsame.trans (accounts_of_le (Nat.le_refl _) rfl)
    · next c' heq =>
      rw [heq] at hsame
      exact hsame.trans (accounts_of_le (Nat.le_refl _) rfl)

/-- What has expired is counted down, and not below zero. -/
theorem expire_accounts (c : Client) (tick : Int) : Accounts c (c.expire tick) := by
  have hlength := Outbox.length_outboxDeleteExpired c.outbox tick outboxExpiredTimeoutMs
  refine ⟨?_, fun _ => ?_⟩
  · unfold Client.surplus expire
    dsimp only
    split <;> omega
  · unfold expire
    dsimp only
    split <;> omega

theorem Enlists.accounts {qos tick : Int} {id draw : UInt16} {p : Mqtt.Packet} {new : Outbox}
    (h : Enlists c c' qos tick id draw p new) : Accounts c c' := by
  have hlength : c'.outbox.length = c.outbox.length + new.length := by
    rw [h.outbox]
    split
    · exact List.length_append
    · rw [Outbox.length_outboxSetPending]
      exact List.length_append
  have hcount := h.count
  have hfew := h.few
  refine ⟨?_, fun _ => ?_⟩
  · unfold Client.surplus
    split at hfew <;> split at hcount <;> omega
  · split at hcount <;> omega

/-! ## §3 — every run -/

section Step

variable (hroom : 5 ≤ n) (hn : n < 2 ^ 16) (hk : 3 * k < 2 ^ 30) (h : Sound n k c)
include hroom hn hk h

/-- **Every other step** keeps the account. -/
theorem step_accounts {e : Event} (hadm : c.Admissible e) (hmatched : ¬ c.Unmatched e) :
    Accounts c (c.step e) := by
  have hrefl : Accounts c c := accounts_of_le (Nat.le_refl _) rfl
  have hconnected : c.run = true → c.state = .connected → Accounts c (c.connectedStep e) := by
    intro hrun hstate
    cases e with
    | receive inBuffer messageLength delivered draw reply =>
      rw [connectedStep]
      cases hrequested : requested (mqttGetType inBuffer) with
      | some msgType =>
        obtain ⟨c', hc', hcount, hlength⟩ := mqttProcessReceive_answer (c := c) hrequested
        rw [hc']
        have hvalid := isValidMqttMsg_accounts (c := c)
          fun hbare => hmatched ⟨hrun, hstate, msgType, hrequested, hbare⟩
        exact hvalid.trans (accounts_of_le hlength.le hcount)
      | none =>
        have hother : Accounts c (c.mqttProcessReceive inBuffer messageLength delivered draw reply).2 :=
          mqttProcessReceive_other hrequested
        split
        · next c' heq =>
          rw [heq] at hother
          exact hother
        · next c' heq =>
          rw [heq] at hother
          exact hother.trans (accounts_of_le (Nat.le_refl _) rfl)
    | resend again reply => exact resend_accounts c _ reply
    | keepAlive reply => exact keepAlive_accounts c reply
    | abort refresh => cases refresh <;> exact accounts_of_le (Nat.le_refl _) rfl
    | _ => exact hrefl
  have htask : Accounts c (if c.run then c.taskStep e else c) := by
    split
    · next hrun =>
      have hother : Accounts c (if c.state = .connected then c.connectedStep e else c) := by
        split
        · next hstate => exact hconnected hrun hstate
        · exact hrefl
      cases e with
      | connect opened info reply answer =>
        rw [taskStep]
        split
        · unfold connectRound espMqttConnect
          cases opened <;> cases reply <;> cases espMqttConnect.answered answer <;>
            exact accounts_of_le (Nat.le_refl _) rfl
        · exact hrefl
      | expire tick => exact expire_accounts c tick
      | cleanup => exact accounts_of_le (Outbox.cleanupRounds_sublist _ _ _).length_le rfl
      | retry autoReconnect =>
        rw [taskStep]
        split
        · split <;> exact accounts_of_le (Nat.le_refl _) rfl
        · exact hrefl
      | _ => exact hother
    · exact hrefl
  cases e with
  | publish draw topic data len qos retain tick replies =>
    obtain ⟨id, c', new, hc', -, henlists⟩ := espMqttClientPublish_sound
      hroom hn hk h hadm.1 hadm.2.1 hadm.2.2.2 hadm.2.2.1
    rw [step, hc']
    exact henlists.accounts
  | subscribe draw topic qos tick reply =>
    rw [step, espMqttClientSubscribe]
    split
    · exact hrefl
    · exact request_accounts _ tick reply
  | unsubscribe draw topic tick reply =>
    rw [step, espMqttClientUnsubscribe]
    split
    · exact hrefl
    · exact request_accounts _ tick reply
  | stop reply =>
    rw [step, espMqttClientStop]
    split
    · apply accounts_of_le
      · show (if c.state = .connected then _ else c).outbox.length ≤ _
        split
        · rw [mqttWriteData_outbox]
        · exact Nat.le_refl _
      · show (if c.state = .connected then _ else c).pendingMsgCount = _
        split
        · rw [mqttWriteData_count]
        · rfl
    · exact hrefl
  | finish =>
    rw [step]
    split
    · exact hrefl
    · exact accounts_of_le (Nat.le_refl _) rfl
  | _ => exact htask

omit hroom hn hk h in
/-- An answer of which the outbox has no item. -/
theorem step_unmatched {e : Event} (he : c.Unmatched e) :
    (c.step e).surplus = c.surplus - 1 ∧ (0 ≤ c.pendingMsgCount → 0 ≤ (c.step e).pendingMsgCount) := by
  cases e with
  | receive inBuffer messageLength delivered draw reply =>
    obtain ⟨hrun, hstate, msgType, hrequested, hbare⟩ := he
    obtain ⟨c', hc', hcount, hlength⟩ := mqttProcessReceive_answer (c := c) hrequested
    obtain ⟨hsurplus, hle⟩ := isValidMqttMsg_bare hbare
    have hstep : c.step (.receive inBuffer messageLength delivered draw reply) = c' := by
      show (if c.run then c.taskStep (.receive inBuffer messageLength delivered draw reply) else c) = c'
      rw [if_pos hrun]
      show (if c.state = .connected then
        c.connectedStep (.receive inBuffer messageLength delivered draw reply) else c) = c'
      rw [if_pos hstate, connectedStep, hc']
    rw [hstep]
    refine ⟨?_, fun h => hcount ▸ hle h⟩
    rw [← hsurplus]
    unfold Client.surplus
    rw [hcount, hlength]
  | _ => exact he.elim

end Step

/-- An answer is accepted that leaves a message of the outbox uncounted. -/
def Uncounted (c : Client) (e : Event) : Prop :=
  c.Unmatched e ∧ c.pendingMsgCount = c.outbox.length

/-- **The count covers the outbox** in every state of a run, so that no answer to one of its messages is
overlooked, exactly if no step of the run was such an answer. -/
theorem counted_iff (outBuffer : Bytes) (hroom : 5 ≤ outBuffer.length) (hn : outBuffer.length < 2 ^ 16)
    (es : List Event) (hes : es.length ≤ 2 ^ 28)
    (hadm : Throughout Admissible step (espMqttClientStart outBuffer) es) :
    Always (fun _ c => (c.outbox.length : Int) ≤ c.pendingMsgCount) step [] (espMqttClientStart outBuffer) es ↔
      Throughout (fun c e => ¬ c.Uncounted e) step (espMqttClientStart outBuffer) es := by
  refine always_iff_throughout_of_length (P := fun _ c => (c.outbox.length : Int) ≤ c.pendingMsgCount)
    (I := fun h c => Sound outBuffer.length h.length c ∧ (c.outbox.length : Int) ≤ c.pendingMsgCount)
    (fun _ _ h => h.2) ?_ ?_ es [] _ (by simpa using hes)
    ⟨sound_start outBuffer, Int.le_refl 0⟩ hadm
  · rintro h c e hlt ⟨hsound, hle⟩ hadm hok
    have hstep := step_sound hroom hn (by omega) hsound hadm
    refine ⟨by rwa [List.length_append, List.length_singleton], ?_⟩
    have hsurplus : c.surplus = c.pendingMsgCount - c.outbox.length := rfl
    have hsurplus' : (c.step e).surplus = (c.step e).pendingMsgCount - (c.step e).outbox.length := rfl
    by_cases hmatched : c.Unmatched e
    · have hne : c.pendingMsgCount ≠ c.outbox.length := fun heq => hok ⟨hmatched, heq⟩
      have hless := (step_unmatched hmatched).1
      omega
    · have hmore := (step_accounts hroom hn (by omega) hsound hadm hmatched).surplus
      omega
  · rintro h c e hlt ⟨hsound, hle⟩ hadm hbad hbroken
    obtain ⟨hmatched, heq⟩ := not_not.mp hbad
    have hless := (step_unmatched hmatched).1
    unfold Client.surplus at hless
    omega

/-- After two publications the second is answered twice: no message is counted any more, and the first is still
in the outbox. -/
theorem counted_iff_repeated :
    let start := espMqttClientStart (List.replicate 18 0)
    let es : List Event :=
      [.connect true ⟨str "c", [], [], [], [], 120, 0, false, true⟩ .taken (some [0x20, 2, 0, 0]),
        .publish 1 (str "t") (str "a") 0 1 false 0 [], .publish 2 (str "t") (str "b") 0 1 false 0 [],
        .receive [0x40, 2, 0, 2] 4 true 9 .taken, .receive [0x40, 2, 0, 2] 4 true 9 .taken]
    (Always (fun _ c => (c.outbox.length : Int) ≤ c.pendingMsgCount) step [] start es ↔
      Throughout (fun c e => ¬ c.Uncounted e) step start es) ∧
    (es.foldl step start).pendingMsgCount = 0 ∧ (es.foldl step start).outbox.length = 1 := by
  intro start es
  refine ⟨?_, by decide, by decide⟩
  apply counted_iff (List.replicate 18 0) (by decide) (by decide) es (by decide)
  exact ⟨fun _ => ⟨rfl, by decide⟩, ⟨by decide, by decide, by decide, by decide⟩,
    ⟨by decide, by decide, by decide, by decide⟩,
    (by decide : (9 : UInt16) ≠ 0), (by decide : (9 : UInt16) ≠ 0), trivial⟩

/-! ## §4 — what was published -/

/-- The state behind a run. -/
theorem sound_run (outBuffer : Bytes) (hroom : 5 ≤ outBuffer.length) (hn : outBuffer.length < 2 ^ 16)
    (es : List Event) (hes : es.length < 2 ^ 28)
    (hadm : Throughout Admissible step (espMqttClientStart outBuffer) es) :
    Sound outBuffer.length es.length (es.foldl step (espMqttClientStart outBuffer)) ∧
      0 ≤ (es.foldl step (espMqttClientStart outBuffer)).pendingMsgCount := by
  have hrun := always_of_throughout
    (P := fun h c => h.length < 2 ^ 28 → Sound outBuffer.length h.length c ∧ 0 ≤ c.pendingMsgCount)
    (I := fun h c => h.length < 2 ^ 28 → Sound outBuffer.length h.length c ∧ 0 ≤ c.pendingMsgCount)
    (fun _ _ h => h) ?_ es [] _ (fun _ => ⟨sound_start outBuffer, Int.le_refl 0⟩) hadm
  · exact hrun.last hes
  · intro h c e hI hok hlt
    rw [List.length_append, List.length_singleton] at hlt ⊢
    obtain ⟨hsound, hcount⟩ := hI (by omega)
    refine ⟨step_sound hroom hn (by omega) hsound hok, ?_⟩
    by_cases hmatched : c.Unmatched e
    · exact (step_unmatched hmatched).2 hcount
    · exact (step_accounts hroom hn (by omega) hsound hok hmatched).count hcount

/-- The message of a publication, which may have been repeated. -/
theorem Same.publish {a b : Item} {qos : Fin 3} {retain : Bool} {topic data : Bytes} {id : UInt16}
    (h : a.Same b) (hbuffer : a.buffer = (Mqtt.Packet.publish false qos retain topic id data).encode)
    (hqos : a.msgQos = (qos.val : Nat)) :
    ∃ dup, b.buffer = (Mqtt.Packet.publish dup qos retain topic id data).encode := by
  rcases h.buffer with hsame | ⟨htwo, hdup⟩
  · exact ⟨false, hsame.trans hbuffer⟩
  · have hqos2 : qos = 2 := by
      have hval : ((qos.val : Nat) : Int) = 2 := hqos.symm.trans htwo
      apply Fin.ext
      show qos.val = 2
      omega
    subst hqos2
    exact ⟨true, hdup.trans ((congrArg mqttSetDup hbuffer).trans (setDup_encode _ _ _ _ _))⟩

/-- **A publication that has succeeded** with an identifier stays in the outbox as its packet, and is not
taken for confirmed, whatever comes afterwards: but for an answer with this identifier, and for thirty
seconds. -/
theorem published_kept (outBuffer : Bytes) (hroom : 5 ≤ outBuffer.length) (hn : outBuffer.length < 2 ^ 16)
    (es : List Event) (hes : es.length < 2 ^ 28)
    (hadm : Throughout Admissible step (espMqttClientStart outBuffer) es)
    (draw : UInt16) (topic data : Bytes) (len : Int) (qos : Fin 3) (retain : Bool) (tick : Int)
    (replies : List WriteReply) (id : UInt16) (c' : Client)
    (hevent : (es.foldl step (espMqttClientStart outBuffer)).Admissible
      (.publish draw topic data len qos retain tick replies))
    (hcall : (es.foldl step (espMqttClientStart outBuffer)).espMqttClientPublish draw topic data len
      (qos.val : Nat) (if retain then 1 else 0) tick replies = some (id, c'))
    (hid : id ≠ 0) (es' : List Event)
    (hspares : Throughout (fun _ e => Spares id tick e) step c' es') :
    Always (fun _ c => ∃ item ∈ c.outbox, item.msgId = id ∧ item.pending ≠ .confirmed ∧
      ∃ dup, item.buffer = (Mqtt.Packet.publish dup qos retain topic id (payloadOf data len)).encode)
      step [] c' es' := by
  obtain ⟨hsound, hcount⟩ := sound_run outBuffer hroom hn es hes hadm
  generalize es.foldl step (espMqttClientStart outBuffer) = c at *
  obtain ⟨id', c₁, new, hc₁, -, henlists⟩ := espMqttClientPublish_sound
    hroom hn (by omega) hsound hevent.1 hevent.2.1 hevent.2.2.2 hevent.2.2.1
  obtain ⟨rfl, rfl⟩ : id' = id ∧ c₁ = c' := by
    rw [hc₁] at hcall
    cases hcall
    exact ⟨rfl, rfl⟩
  obtain ⟨a, rfl, hbuffer, hmsgId, hmsgQos, htick, hpending⟩ := henlists.item hid hcount
  obtain ⟨-, rfl⟩ := henlists.drawn hid
  have hkeeps : c₁.outbox.Keeps a := by
    rw [henlists.outbox, if_neg hid]
    have hhere : Outbox.Keeps a (c.outbox ++ [a]) :=
      ⟨a, List.mem_append_right _ (List.mem_singleton.mpr rfl), ⟨rfl, rfl, rfl, .inl rfl⟩, by rw [hpending]; nofun⟩
    exact hhere.setPending (.inl nofun)
  rw [← htick, ← hmsgId] at hspares
  apply always_of_throughout (I := fun _ c => c.outbox.Keeps a) ?_ ?_ es' [] _ hkeeps hspares
  · rintro _ c ⟨b, hb, hsame, hwaits⟩
    exact ⟨b, hb, hsame.msgId.trans hmsgId, hwaits, Same.publish hsame hbuffer hmsgQos⟩
  · exact fun _ c e h hspares => step_keeps h hspares

/-- The connection is lost, and an answer to another message comes on the next one. -/
theorem published_kept_reconnect :
    let connect : Event :=
      .connect true ⟨str "c", [], [], [], [], 120, 0, false, true⟩ .taken (some [0x20, 2, 0, 0])
    let c := step (espMqttClientStart (List.replicate 18 0)) connect
    let publish : Event := .publish 1 (str "t") (str "a") 0 1 false 0 []
    Always (fun _ c => ∃ item ∈ c.outbox, item.msgId = 1 ∧ item.pending ≠ .confirmed ∧
      ∃ dup, item.buffer = (Mqtt.Packet.publish dup 1 false (str "t") 1 (payloadOf (str "a") 0)).encode)
      step [] (c.step publish) [.abort false, .retry true, connect, .receive [0x40, 2, 0, 2] 4 true 9 .taken,
        .expire 30000, .cleanup] := by
  intro connect c publish
  refine published_kept (List.replicate 18 0) (by decide) (by decide) [connect] (by decide)
    ⟨fun _ => ⟨rfl, by decide⟩, trivial⟩ 1 (str "t") (str "a") 0 1 false 0 [] 1 (c.step publish)
    ⟨by decide, by decide, by decide, by decide⟩ (by decide +kernel) (by decide) _ ?_
  exact ⟨trivial, trivial, trivial, fun _ => by decide, (by decide : (30000 : Int) - 0 ≤ 30 * 1000), trivial,
    trivial⟩

end Client

end Espmod.EspMqtt
