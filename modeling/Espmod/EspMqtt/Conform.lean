/-
# Espmod.EspMqtt.Conform — what stands on a connection

Over every run of the client, what a server reads is a `CONNECT` and then well-formed packets that are not, one
after the other without a gap: answers, requests, publications in one piece or in several, and what is sent
again out of the outbox. Only a connection that was aborted may end in the middle of a packet.
-/
import Espmod.EspMqtt.Sound
import Espmod.Lib.Run

namespace Espmod.EspMqtt

open Espmod.Lib Espmod.Lib.Text

namespace Client

variable {n k : Nat} {c : Client}

/-! ## §1 — the steps -/

/-- What a step may bring: an identifier that was drawn is not zero, a topic is a string and with its payload
no longer than a packet can be, only a publication that may be lost is made before the transport has connected
for the first time, and a server accepts a connection after it has got a `CONNECT`. -/
def Admissible (c : Client) : Event → Prop
  | .publish draw topic data len qos _ _ _ =>
    draw ≠ 0 ∧ 0 ∉ topic ∧ topic.length + (payloadOf data len).length + 4 < 2 ^ 28 ∧
      (qos.val ≠ 0 → c.connection.buffer ≠ [])
  | .subscribe draw _ _ _ _ => draw ≠ 0
  | .receive _ _ _ draw _ => draw ≠ 0
  | .connect _ info reply answer =>
    espMqttConnect.answered answer = true → reply = .taken ∧ (c.offer info).message ≠ []
  | _ => True

section Step

variable (hroom : 5 ≤ n) (hn : n < 2 ^ 16)
include hroom hn

theorem connectedStep_sound (h : Sound n k c) (hstate : c.state = .connected) {e : Event}
    (hadm : c.Admissible e) : Sound n (k + 1) (c.connectedStep e) := by
  cases e with
  | receive inBuffer messageLength delivered draw reply =>
    have hsound := mqttProcessReceive_sound hroom hn h hstate hadm inBuffer messageLength
      delivered reply
    rw [connectedStep]
    split
    · next c' heq =>
      rw [heq] at hsound
      exact hsound
    · next c' heq =>
      rw [heq] at hsound
      exact hsound.abort
  | resend again reply => exact (resend_sound h hstate _ reply).mono (Nat.le_succ k)
  | keepAlive reply => exact keepAlive_sound hroom hn h hstate reply
  | abort refresh =>
    show Sound n (k + 1) (if refresh then { c.espMqttAbortConnection with state := .init }
      else c.espMqttAbortConnection)
    split
    · exact withState h.abort (fun h => by cases h) (fun h => by cases h)
    · exact h.abort
  | _ => exact h.mono (Nat.le_succ k)

theorem taskStep_sound (h : Sound n k c) (hrun : c.run = true) {e : Event} (hadm : c.Admissible e) :
    Sound n (k + 1) (c.taskStep e) := by
  have hmono : Sound n (k + 1) c := h.mono (Nat.le_succ k)
  have hsub : ∀ {outbox : Outbox}, outbox.Sublist c.outbox → Sound n (k + 1) { c with outbox := outbox } :=
    fun hsub => hmono.withOutbox fun item hitem => h.holding.outbox item (hsub.subset hitem)
  have hother : Sound n (k + 1) (if c.state = .connected then c.connectedStep e else c) := by
    split
    · next hstate => exact connectedStep_sound hroom hn h hstate hadm
    · exact hmono
  cases e with
  | connect opened info reply answer =>
    show Sound n (k + 1) (if c.state = .init then c.connectRound opened info reply answer else c)
    split
    · next hstate => exact connectRound_sound hroom hn h hstate hrun opened info reply answer hadm
    · exact hmono
  | expire tick => exact (hsub List.filter_sublist).frame rfl
  | cleanup => exact hsub (Outbox.cleanupRounds_sublist _ _ _)
  | retry autoReconnect =>
    show Sound n (k + 1) (if c.state = .waitTimeout then
      if autoReconnect then { c with state := .init } else { c with run := false, state := .unknown } else c)
    split
    · next hstate =>
      split
      · exact withState hmono (fun h => by cases hstate.symm.trans h) (fun h => by cases h)
      · exact stopped hmono
    · exact hmono
  | _ => exact hother

theorem espMqttClientStop_sound (h : Sound n k c) (reply : WriteReply) :
    Sound n (k + 1) (c.espMqttClientStop reply) := by
  unfold espMqttClientStop
  split
  · apply stopped
    split
    · next hstate =>
      obtain ⟨hfive, hword, htotal⟩ := connected_room hroom hn h hstate
      exact respond_sound h hstate (Connection.disconnect_makes hfive hword htotal)
        (by simp [Mqtt.Packet.type, Mqtt.Kind.type]) reply
    · exact h.mono (Nat.le_succ k)
  · exact h.mono (Nat.le_succ k)

/-- **One step.** -/
theorem step_sound (hk : 3 * k < 2 ^ 30) (h : Sound n k c) {e : Event} (hadm : c.Admissible e) :
    Sound n (k + 1) (c.step e) := by
  have hmono : Sound n (k + 1) c := h.mono (Nat.le_succ k)
  have htask : Sound n (k + 1) (if c.run then c.taskStep e else c) := by
    split
    · next hrun => exact taskStep_sound hroom hn h hrun hadm
    · exact hmono
  cases e with
  | publish draw topic data len qos retain tick replies =>
    obtain ⟨id, c', _, hc', hsound, -⟩ := espMqttClientPublish_sound
      hroom hn hk h hadm.1 hadm.2.1 hadm.2.2.2 hadm.2.2.1
    rw [step, hc']
    exact hsound
  | subscribe draw topic qos tick reply =>
    show Sound n (k + 1) (c.espMqttClientSubscribe draw topic (qos.val : Nat) tick reply).2
    unfold espMqttClientSubscribe
    split
    · exact hmono
    · next hstate =>
      have hstate : c.state = .connected := not_not.mp hstate
      obtain ⟨hfive, hword, htotal⟩ := connected_room hroom hn h hstate
      exact request_sound h hstate (Connection.subscribe_makes hfive hword htotal hadm _ qos)
        (by simp [Mqtt.Packet.type]) (by simp [Mqtt.Packet.type]) tick reply
  | unsubscribe draw topic tick reply =>
    show Sound n (k + 1) (c.espMqttClientUnsubscribe draw topic tick reply).2
    unfold espMqttClientUnsubscribe
    split
    · exact hmono
    · next hstate =>
      have hstate : c.state = .connected := not_not.mp hstate
      obtain ⟨hfive, hword, htotal⟩ := connected_room hroom hn h hstate
      exact request_sound h hstate (Connection.unsubscribe_makes hfive hword htotal _)
        (by simp [Mqtt.Packet.type, Mqtt.Kind.type]) (by simp [Mqtt.Packet.type, Mqtt.Kind.type]) tick reply
  | stop reply => exact espMqttClientStop_sound hroom hn h reply
  | finish =>
    show Sound n (k + 1) (if c.run then c else c.espTransportClose)
    split
    · exact hmono
    · next hrun => exact finished hmono hrun
  | _ => exact htask

end Step

/-! ## §2 — every run -/

/-- A client without a connection that has made no step. -/
theorem sound_start (outBuffer : Bytes) : Sound outBuffer.length 0 (espMqttClientStart outBuffer) :=
  ⟨⟨rfl, nofun, fun _ _ => rfl, nofun, nofun, nofun⟩, .inl rfl, nofun⟩

/-- A publication is sent, or given up. -/
def Ends (c : Client) : Event → Prop
  | .publish draw topic data len qos retain tick replies =>
    c.espMqttClientPublish draw topic data len (qos.val : Nat) (if retain then 1 else 0) tick replies ≠ none
  | _ => True

/-- What stands on the connections, and what the next step will do. -/
structure Conforms (c : Client) : Prop where
  sent : ∀ w, c.sent = some w → Dialogue w
  closed : ∀ w ∈ c.closed, Interrupted w
  ends : ∀ e, c.Admissible e → c.Ends e

theorem Sound.conforms {n k : Nat} {c : Client} (hroom : 5 ≤ n) (hn : n < 2 ^ 16) (hk : 3 * k < 2 ^ 30)
    (h : Sound n k c) : c.Conforms := by
  refine ⟨h.holding.dialogue, h.holding.closed, fun e hadm => ?_⟩
  cases e with
  | publish draw topic data len qos retain tick replies =>
    obtain ⟨id, c', _, hc', -⟩ := espMqttClientPublish_sound
      hroom hn hk h hadm.1 hadm.2.1 hadm.2.2.2 hadm.2.2.1
    show c.espMqttClientPublish draw topic data len (qos.val : Nat) (if retain then 1 else 0) tick replies ≠ none
    rw [hc']
    exact nofun
  | _ => trivial

/-- **Every connection is a dialogue.** For as long as the place of the payload has not come around, what is
on the connection is a `CONNECT` and then whole packets, a connection that was closed had the beginning of
this, and every publication comes to an end. -/
theorem connections_conform (outBuffer : Bytes) (hroom : 5 ≤ outBuffer.length)
    (hn : outBuffer.length < 2 ^ 16) (es : List Event)
    (hadm : Throughout Admissible step (espMqttClientStart outBuffer) es) :
    Always (fun h c => h.length < 2 ^ 28 → c.Conforms) step [] (espMqttClientStart outBuffer) es := by
  apply always_of_throughout (I := fun h c => h.length < 2 ^ 28 → Sound outBuffer.length h.length c) ?_ ?_ es
    [] _ (fun _ => sound_start outBuffer) hadm
  · intro h c hsound hlt
    exact Sound.conforms hroom hn (by omega) (hsound hlt)
  · intro h c e hsound hok hlt
    rw [List.length_append, List.length_singleton] at hlt ⊢
    exact step_sound hroom hn (by omega) (hsound (by omega)) hok

/-- With a buffer of eighteen bytes, eleven bytes of payload go out in two pieces, and the packet behind them
begins where they end. -/
theorem connections_conform_pieces :
    let es : List Event :=
      [.connect true ⟨str "c", [], [], [], [], 120, 0, false, true⟩ .taken (some [0x20, 2, 0, 0]),
        .publish 0x1234 (str "t/1") (str "hello world") 0 1 false 0 [], .keepAlive .taken]
    let c := es.foldl step (espMqttClientStart (List.replicate 18 0))
    c.Conforms ∧ c.sent = some ([0x10, 13, 0, 4] ++ str "MQTT" ++ [4, 2, 0, 120, 0, 1] ++ str "c" ++
      ([0x32, 18, 0, 3] ++ str "t/1" ++ [0x12, 0x34] ++ str "hello world") ++ [0xc0, 0]) := by
  intro es c
  refine ⟨?_, by decide⟩
  apply (connections_conform (List.replicate 18 0) (by decide) (by decide) es ?_).last
  · decide
  · exact ⟨fun _ => ⟨rfl, by decide⟩, ⟨by decide, by decide, by decide, by decide⟩, trivial, trivial⟩

end Client

end Espmod.EspMqtt
