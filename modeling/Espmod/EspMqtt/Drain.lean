/-
# Espmod.EspMqtt.Drain — the messages that were not sent yet

A round of the task sends the first message of the outbox that is queued, and then marks a message with its
identifier as sent. Where the identifiers are different this is the same message, and as many rounds as there
are messages that are queued send all of them, in the order in which they were put into the outbox. Nothing
else of the outbox changes.
-/
import Espmod.EspMqtt.Outbound

namespace Espmod.EspMqtt

open Espmod.Lib Espmod.Lib.Text

/-! ## §1 — one item -/

/-- What is written of an item. -/
def Item.resent (item : Item) : Bytes :=
  if decide (item.msgType = 3 ∧ item.msgQos = 2) then mqttSetDup item.buffer else item.buffer

/-- The item once it is written. -/
def Item.transmitted (item : Item) : Item := { item with buffer := item.resent, pending := .transmitted }

theorem Item.resent_ne_nil {item : Item} (h : item.buffer ≠ []) : item.resent ≠ [] := by
  obtain ⟨first, rest, hbuffer⟩ := List.exists_cons_of_ne_nil h
  unfold Item.resent
  rw [hbuffer]
  split <;> exact List.cons_ne_nil _ _

namespace Outbox

variable {outbox pre post : Outbox} {item : Item} {pending : PendingState} {msgId : UInt16}

theorem outboxDequeue_append (hpre : ∀ x ∈ pre, x.pending ≠ pending) (hitem : item.pending = pending) :
    Outbox.outboxDequeue (pre ++ item :: post) pending = some item := by
  unfold outboxDequeue
  rw [List.find?_append, List.find?_cons, decide_eq_true hitem]
  have hnone : List.find? (fun x : Item => decide (x.pending = pending)) pre = none := by
    apply List.find?_eq_none.mpr
    intro x hx
    simpa using hpre x hx
  rw [hnone]
  rfl

theorem setDup_append (hpre : ∀ x ∈ pre, x.pending ≠ pending) (hitem : item.pending = pending) :
    Outbox.setDup pending (pre ++ item :: post) =
      pre ++ { item with buffer := mqttSetDup item.buffer } :: post := by
  induction pre with
  | nil =>
    rw [List.nil_append, setDup, if_pos hitem]
    rfl
  | cons x pre ih =>
    obtain ⟨hx, hpre⟩ := List.forall_mem_cons.mp hpre
    rw [List.cons_append, setDup, if_neg hx, ih hpre]
    rfl

theorem outboxSetPending_append (hpre : ∀ x ∈ pre, x.msgId ≠ msgId) (hitem : item.msgId = msgId) :
    Outbox.outboxSetPending msgId pending (pre ++ item :: post) =
      pre ++ { item with pending := pending } :: post := by
  induction pre with
  | nil =>
    rw [List.nil_append, outboxSetPending, if_pos hitem]
    rfl
  | cons x pre ih =>
    obtain ⟨hx, hpre⟩ := List.forall_mem_cons.mp hpre
    rw [List.cons_append, outboxSetPending, if_neg hx, ih hpre]
    rfl

/-- The first message that is queued. -/
theorem exists_queued {k : Nat} (h : outbox.countP (·.pending = .queued) = k + 1) : ∃ pre item post,
    outbox = pre ++ item :: post ∧ (∀ x ∈ pre, x.pending ≠ .queued) ∧ item.pending = .queued ∧
      post.countP (·.pending = .queued) = k := by
  induction outbox with
  | nil => cases h
  | cons x outbox ih =>
    by_cases hx : x.pending = .queued
    · rw [List.countP_cons_of_pos (by simpa using hx)] at h
      exact ⟨[], x, outbox, rfl, List.forall_mem_nil _, hx, Nat.succ.inj h⟩
    · rw [List.countP_cons_of_neg (by simpa using hx)] at h
      obtain ⟨pre, item, post, rfl, hpre, hitem, hpost⟩ := ih h
      exact ⟨x :: pre, item, post, rfl, List.forall_mem_cons.mpr ⟨hx, hpre⟩, hitem, hpost⟩

/-- The outbox when all of its messages are sent. -/
def transmitted (outbox : Outbox) : Outbox :=
  outbox.map fun item => if item.pending = .queued then item.transmitted else item

theorem transmitted_of_none (h : ∀ x ∈ pre, x.pending ≠ .queued) : pre.transmitted = pre := by
  unfold transmitted
  rw [List.map_congr_left (g := fun x => x) (fun x hx => if_neg (h x hx)), List.map_id']

/-- Messages that are queued, in their order. -/
def queued (outbox : Outbox) : Outbox := outbox.filter (·.pending = .queued)

theorem queued_of_none (h : ∀ x ∈ pre, x.pending ≠ .queued) : pre.queued = [] := by
  apply List.filter_eq_nil_iff.mpr
  intro x hx
  simpa using h x hx

theorem queued_append (hpre : ∀ x ∈ pre, x.pending ≠ .queued) : Outbox.queued (pre ++ item :: post) =
    if item.pending = .queued then item :: post.queued else post.queued := by
  have hnone : List.filter (fun x : Item => decide (x.pending = .queued)) pre = [] := queued_of_none hpre
  unfold queued
  rw [List.filter_append, hnone, List.nil_append, List.filter_cons]
  by_cases h : item.pending = .queued <;> simp [h]

theorem transmitted_append (hpre : ∀ x ∈ pre, x.pending ≠ .queued) :
    Outbox.transmitted (pre ++ item :: post) =
      pre ++ (if item.pending = .queued then item.transmitted else item) :: post.transmitted := by
  have hsame := transmitted_of_none hpre
  unfold transmitted at hsame ⊢
  rw [List.map_append, hsame, List.map_cons]

end Outbox

/-! ## §2 — the rounds -/

namespace Client

variable {c : Client} {pre post : Outbox} {item : Item} {w : Bytes}

/-- **One round** sends the first message that is queued. -/
theorem resend_queued (hsent : c.sent = some w) (houtbox : c.outbox = pre ++ item :: post)
    (hpre : ∀ x ∈ pre, x.pending ≠ .queued) (hitem : item.pending = .queued)
    (hids : ∀ x ∈ pre, x.msgId ≠ item.msgId) (hne : item.buffer ≠ []) :
    c.resend .queued .taken = { c with
      pendingMsgId := item.msgId
      pendingMsgType := item.msgType
      pendingPublishQos := item.msgQos
      outbox := pre ++ item.transmitted :: post
      sent := some (w ++ item.resent) } := by
  have hmarked : (if decide (item.msgType = 3 ∧ item.msgQos = 2) then c.outbox.setDup .queued else c.outbox) =
      pre ++ { item with buffer := item.resent } :: post := by
    unfold Item.resent
    rw [houtbox]
    split
    · exact Outbox.setDup_append hpre hitem
    · rfl
  have hwrite : ∀ {c' : Client}, c'.sent = c.sent →
      c'.mqttWriteData .taken item.resent = (true, { c' with sent := some (w ++ item.resent) }) := by
    intro c' hsame
    unfold mqttWriteData
    rw [hsame, hsent]
    exact if_neg (Item.resent_ne_nil hne)
  have hset : Outbox.outboxSetPending item.msgId .transmitted (pre ++ { item with buffer := item.resent } :: post) =
      pre ++ { item with buffer := item.resent, pending := .transmitted } :: post :=
    Outbox.outboxSetPending_append hids rfl
  have hdequeue : c.outbox.outboxDequeue .queued = some item := by
    rw [houtbox]
    exact Outbox.outboxDequeue_append hpre hitem
  unfold resend
  rw [hdequeue]
  dsimp only
  rw [hmarked, show (if decide (item.msgType = 3 ∧ item.msgQos = 2) then mqttSetDup item.buffer
    else item.buffer) = item.resent from rfl, hwrite]
  · dsimp only
    rw [if_pos rfl]
    unfold outboxSetPending
    dsimp only
    rw [hset]
    rfl
  · rfl

/-- **What is queued is sent**, all of it and in order, by as many rounds as there are messages. The induction
is on their number. -/
theorem queued_sent (c : Client) (w : Bytes) (hrun : c.run = true) (hstate : c.state = .connected)
    (hsent : c.sent = some w) (hids : (c.outbox.map (·.msgId)).Nodup)
    (hne : ∀ item ∈ c.outbox, item.pending = .queued → item.buffer ≠ []) :
    ((List.replicate c.outbox.queued.length (Event.resend false .taken)).foldl step c).sent =
        some (w ++ c.outbox.queued.flatMap Item.resent) ∧
      ((List.replicate c.outbox.queued.length (Event.resend false .taken)).foldl step c).outbox =
        c.outbox.transmitted := by
  have hlength : c.outbox.queued.length = c.outbox.countP (·.pending = .queued) :=
    List.countP_eq_length_filter.symm
  rw [hlength]
  clear hlength
  generalize hk : c.outbox.countP (·.pending = .queued) = k
  induction k generalizing c w with
  | zero =>
    have hnone : ∀ x ∈ c.outbox, x.pending ≠ .queued := by
      simpa using List.countP_eq_zero.mp hk
    rw [Outbox.queued_of_none hnone, Outbox.transmitted_of_none hnone, List.flatMap_nil, List.append_nil]
    exact ⟨hsent, rfl⟩
  | succ k ih =>
    obtain ⟨pre, item, post, houtbox, hpre, hitem, hpost⟩ := Outbox.exists_queued hk
    rw [houtbox, List.map_append, List.map_cons] at hids
    have hfirst : ∀ x ∈ pre, x.msgId ≠ item.msgId := by
      intro x hx
      exact (List.nodup_append.mp hids).2.2 _ (List.mem_map_of_mem hx) _ List.mem_cons_self
    have hround := resend_queued hsent houtbox hpre hitem hfirst
      (hne item (houtbox ▸ List.mem_append_right _ List.mem_cons_self) hitem)
    rw [List.replicate_succ, List.foldl_cons]
    have hstep : c.step (.resend false .taken) = c.resend .queued .taken := by
      show (if c.run then c.taskStep (.resend false .taken) else c) = _
      rw [if_pos hrun]
      show (if c.state = .connected then c.connectedStep (.resend false .taken) else c) = _
      rw [if_pos hstate]
      rfl
    rw [hstep, hround]
    have hno : ¬ item.transmitted.pending = .queued := by
      show ¬ PendingState.transmitted = .queued
      decide
    have hcount : (pre ++ item.transmitted :: post).countP (·.pending = .queued) = k := by
      rw [List.countP_append, List.countP_eq_zero.mpr (by simpa using hpre),
        List.countP_cons_of_neg (by simpa using hno), hpost, Nat.zero_add]
    have hwaits : ∀ x ∈ pre ++ item.transmitted :: post, x.pending = .queued → x.buffer ≠ [] := by
      intro x hx hqueued
      rcases List.mem_append.mp hx with hx | hx
      · exact absurd hqueued (hpre x hx)
      · rcases List.mem_cons.mp hx with rfl | hx
        · exact absurd hqueued hno
        · exact hne x (houtbox ▸ List.mem_append_right _ (List.mem_cons_of_mem _ hx)) hqueued
    have hids' : ((pre ++ item.transmitted :: post).map (·.msgId)).Nodup := by
      rwa [List.map_append, List.map_cons]
    obtain ⟨hsent', houtbox'⟩ := ih { c with
      pendingMsgId := item.msgId
      pendingMsgType := item.msgType
      pendingPublishQos := item.msgQos
      outbox := pre ++ item.transmitted :: post
      sent := some (w ++ item.resent) } (w ++ item.resent) hrun hstate rfl hids' hwaits hcount
    refine ⟨hsent'.trans ?_, houtbox'.trans ?_⟩
    · show some (w ++ item.resent ++ (Outbox.queued (pre ++ item.transmitted :: post)).flatMap Item.resent) = _
      rw [houtbox, Outbox.queued_append hpre, if_neg hno, Outbox.queued_append hpre, if_pos hitem,
        List.flatMap_cons, List.append_assoc]
    · show Outbox.transmitted (pre ++ item.transmitted :: post) = _
      rw [houtbox, Outbox.transmitted_append hpre, if_neg hno, Outbox.transmitted_append hpre, if_pos hitem]

/-- Two messages that were published while there was no connection. -/
theorem queued_sent_offline :
    let connect : Event :=
      .connect true ⟨str "c", [], [], [], [], 120, 0, false, true⟩ .taken (some [0x20, 2, 0, 0])
    let es : List Event :=
      [connect, .abort false, .publish 1 (str "t") (str "a") 0 2 false 0 [],
        .publish 2 (str "t") (str "b") 0 1 false 0 [], .retry true, connect]
    let c := es.foldl step (espMqttClientStart (List.replicate 18 0))
    let rounds := List.replicate c.outbox.queued.length (Event.resend false .taken)
    c.outbox.queued.length = 2 ∧
      (rounds.foldl step c).sent = some (c.connection.message ++ c.outbox.queued.flatMap Item.resent) ∧
      (rounds.foldl step c).outbox = c.outbox.transmitted := by
  intro connect es c rounds
  have hsent : c.sent = some c.connection.message := by decide
  exact ⟨by decide, queued_sent c c.connection.message (by decide) (by decide) hsent (by decide) (by decide)⟩

end Client

end Espmod.EspMqtt
