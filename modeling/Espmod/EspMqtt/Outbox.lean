/-
# Espmod.EspMqtt.Outbox — the messages that wait for an answer

`mqtt_outbox.c` keeps a list of the messages with a quality of service above 0 and of the requests, in the
order in which they were made, each with its bytes and with whether it has been sent. An item is found by its
identifier or by its state, and it is the first such item. Ticks are milliseconds below 2^31.
-/
import Espmod.EspMqtt.Parse

namespace Espmod.EspMqtt

open Espmod.Lib Espmod.Lib.Text

/-! ## §1 — the list -/

/-- `pending_state_t`. -/
inductive PendingState where
  | queued
  | transmitted
  | confirmed
  deriving DecidableEq, Repr

/-- `outbox_item_t`. -/
structure Item where
  buffer : Bytes
  msgId : UInt16
  msgType : Nat
  msgQos : Int
  tick : Int
  pending : PendingState
  deriving DecidableEq, Repr

/-- `outbox_message_t`. -/
structure OutboxMessage where
  data : Bytes
  msgId : UInt16
  msgType : Nat
  msgQos : Int
  remainingData : Bytes
  deriving DecidableEq, Repr

abbrev Outbox := List Item

namespace Outbox

def outboxEnqueue (outbox : Outbox) (message : OutboxMessage) (tick : Int) : Outbox :=
  outbox ++ [{
    buffer := message.data ++ message.remainingData
    msgId := message.msgId
    msgType := message.msgType
    msgQos := message.msgQos
    tick := tick
    pending := .queued }]

/-- `outbox_dequeue`, which takes nothing out. -/
def outboxDequeue (outbox : Outbox) (pending : PendingState) : Option Item :=
  outbox.find? (·.pending = pending)

/-- `outbox_delete`: `none` if there is no such item. -/
def outboxDelete (msgId : UInt16) (msgType : Nat) : Outbox → Option Outbox
  | [] => none
  | item :: outbox =>
    if item.msgId = msgId ∧ 0xff &&& item.msgType = msgType then some outbox
    else (outboxDelete msgId msgType outbox).map (item :: ·)

/-- `outbox_set_pending`, for what `outbox_get` finds. -/
def outboxSetPending (msgId : UInt16) (pending : PendingState) : Outbox → Outbox
  | [] => []
  | item :: outbox =>
    if item.msgId = msgId then { item with pending := pending } :: outbox
    else item :: outboxSetPending msgId pending outbox

/-- `outbox_delete_expired`, and how many there were. -/
def outboxDeleteExpired (outbox : Outbox) (currentTick timeout : Int) : Outbox × Nat :=
  (outbox.filter fun item => ¬ currentTick - item.tick > timeout,
    outbox.countP fun item => currentTick - item.tick > timeout)

def outboxGetSize (outbox : Outbox) : Nat := (outbox.map (·.buffer.length)).sum

/-- `outbox_cleanup`. Each round takes an item out, so there are no more rounds than items. -/
def cleanupRounds (maxSize : Nat) : Nat → Outbox → Outbox
  | 0, outbox => outbox
  | rounds + 1, outbox =>
    if outbox.outboxGetSize > maxSize then
      if (outbox.outboxDequeue .confirmed).isSome then
        cleanupRounds maxSize rounds (outbox.eraseP (·.pending = .confirmed))
      else outbox
    else outbox

def outboxCleanup (outbox : Outbox) (maxSize : Nat) : Outbox := cleanupRounds maxSize outbox.length outbox

/-- `mqtt_set_dup` on the item that `outbox_dequeue` found. -/
def setDup (pending : PendingState) : Outbox → Outbox
  | [] => []
  | item :: outbox =>
    if item.pending = pending then { item with buffer := mqttSetDup item.buffer } :: outbox
    else item :: setDup pending outbox

/-! ## §2 — what the operations keep -/

variable {outbox outbox' : Outbox} {pending : PendingState} {msgId : UInt16}

/-- What is deleted is one item. -/
theorem outboxDelete_sublist {msgType : Nat} (h : outboxDelete msgId msgType outbox = some outbox') :
    outbox'.Sublist outbox := by
  induction outbox generalizing outbox' with
  | nil =>
    rw [outboxDelete] at h
    cases h
  | cons item outbox ih =>
    rw [outboxDelete] at h
    split at h
    · cases h
      exact List.sublist_cons_self _ _
    · obtain ⟨rest, hrest, rfl⟩ := Option.map_eq_some_iff.mp h
      exact (ih hrest).cons_cons item

theorem cleanupRounds_sublist (maxSize rounds : Nat) (outbox : Outbox) :
    (cleanupRounds maxSize rounds outbox).Sublist outbox := by
  induction rounds generalizing outbox with
  | zero => exact List.Sublist.refl _
  | succ rounds ih =>
    rw [cleanupRounds]
    split
    · split
      · exact (ih _).trans List.eraseP_sublist
      · exact List.Sublist.refl _
    · exact List.Sublist.refl _

/-- What the state of an item does not matter to. -/
theorem mem_outboxSetPending {P : Item → Prop} (hP : ∀ item pending, P item → P { item with pending := pending })
    (h : ∀ item ∈ outbox, P item) : ∀ item ∈ outbox.outboxSetPending msgId pending, P item := by
  induction outbox with
  | nil => nofun
  | cons first outbox ih =>
    have hfirst := h first List.mem_cons_self
    have hrest : ∀ item ∈ outbox, P item := fun item hitem => h item (List.mem_cons_of_mem _ hitem)
    rw [outboxSetPending]
    split
    · exact List.forall_mem_cons.mpr ⟨hP _ _ hfirst, hrest⟩
    · exact List.forall_mem_cons.mpr ⟨hfirst, ih hrest⟩

/-- A change of the item that `outbox_dequeue` found. -/
theorem mem_setDup {P : Item → Prop} {found : Item} (hfound : outbox.outboxDequeue pending = some found)
    (hP : P found → P { found with buffer := mqttSetDup found.buffer }) (h : ∀ item ∈ outbox, P item) :
    ∀ item ∈ outbox.setDup pending, P item := by
  induction outbox with
  | nil => nofun
  | cons first outbox ih =>
    have hfirst := h first List.mem_cons_self
    have hrest : ∀ item ∈ outbox, P item := fun item hitem => h item (List.mem_cons_of_mem _ hitem)
    rw [outboxDequeue, List.find?_cons] at hfound
    rw [setDup]
    by_cases hpending : first.pending = pending
    · rw [decide_eq_true hpending] at hfound
      cases hfound
      rw [if_pos hpending]
      exact List.forall_mem_cons.mpr ⟨hP hfirst, hrest⟩
    · rw [decide_eq_false hpending] at hfound
      rw [if_neg hpending]
      exact List.forall_mem_cons.mpr ⟨hfirst, ih hfound hrest⟩

theorem outboxDequeue_mem {found : Item} (h : outbox.outboxDequeue pending = some found) : found ∈ outbox :=
  List.mem_of_find?_eq_some h

end Outbox

end Espmod.EspMqtt
