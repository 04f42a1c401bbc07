/-
# Espmod.Serial.UartProgress — every byte is sent, and its fate is that of the FIFO

The place of a byte in the FIFO of the receiver is decided at one moment, nine and a half bit periods after
its start, by the room there is when that time begins. And the modules never stand still: from any state
their own steps let the time go on (`timePasses`), a sender that has bytes before it begins each of them
within eleven periods of the one before (`sent_in_time`), and so everything that was written is sent.
-/
import Espmod.Serial.UartLink

namespace Espmod.Serial

open Espmod.Lib

namespace Uart

variable {u : Uart}

/-! ## §1 — room -/

/-- What the receiver has found at its FIFO is what was there when the time began. -/
structure Rooms (u : Uart) : Prop where
  begun : ∀ s ∈ u.sent, s.2 ≤ u.now
  looked : ∀ a ∈ u.arrived, a.1.2 ≤ u.now ∧ a.2 = u.room a.1.2
  due : u.rx.due = some u.now → u.room u.now = decide (0 < u.fromFifo.numFree)

theorem rooms_init (level : Bool) (period : Nat) (stopbits : Int) (toSize fromSize : Nat) :
    Rooms (init level period stopbits toSize fromSize) where
  begun := List.forall_mem_nil _
  looked := List.forall_mem_nil _
  due := by
    intro h
    cases level <;> exact absurd h.symm (Option.some_ne_none _)

/-- Steps that leave the receiver, its FIFO and the time alone. -/
theorem Rooms.frame (h : Rooms u) {v : Uart} (hnow : v.now = u.now) (hroom : v.room = u.room)
    (hsent : ∀ s ∈ v.sent, s ∈ u.sent ∨ s.2 = u.now) (harr : v.arrived = u.arrived) (hrx : v.rx = u.rx)
    (hfree : v.fromFifo.numFree = u.fromFifo.numFree) : Rooms v where
  begun := by
    intro s hs
    rw [hnow]
    rcases hsent s hs with hold | hnew
    · exact h.begun s hold
    · exact Nat.le_of_eq hnew
  looked := by
    rw [hnow, hroom, harr]
    exact h.looked
  due := by
    rw [hnow, hroom, hrx, hfree]
    exact h.due

theorem Rooms.produce (h : Rooms u) (msg : BitVec 8) : Rooms (u.produce msg) := by
  unfold Uart.produce
  split
  · exact h
  · exact h.frame rfl rfl (fun _ hs => Or.inl hs) rfl rfl rfl

theorem Rooms.consume (h : Rooms u) : Rooms u.consume := by
  unfold Uart.consume
  split
  · exact h
  · rename_i msg msgs hready
    exact h.frame rfl rfl (fun _ hs => Or.inl hs) rfl rfl (Fifo.numFree_of_read hready)

theorem Rooms.outtake (h : Rooms u) : Rooms u.outtake := by
  unfold Uart.outtake
  split
  · split
    · exact h
    · refine h.frame rfl rfl (fun s hs => ?_) rfl rfl rfl
      rcases List.mem_append.mp hs with hs | hs
      · exact Or.inl hs
      · exact Or.inr (congrArg Prod.snd (List.mem_singleton.mp hs))
  · split
    · split
      · exact h.frame rfl rfl (fun _ hs => Or.inl hs) rfl rfl rfl
      · exact h.frame rfl rfl (fun _ hs => Or.inl hs) rfl rfl rfl
    · exact h
  · split
    · exact h.frame rfl rfl (fun _ hs => Or.inl hs) rfl rfl rfl
    · exact h

/-- The receiver waits for a later time, or for the line. -/
theorem intake_due (hlong : 0 < u.period / 2) : u.intake.rx.due ≠ some u.now := by
  have hnext : ∀ {d : Nat}, 0 < d → some (u.now + d) ≠ some u.now := by
    intro d hd heq
    injection heq with heq
    omega
  unfold Uart.intake
  split
  · split
    · dsimp only
      split <;> exact (Option.some_ne_none _).symm
    · rename_i hrx _
      rw [hrx]
      exact (Option.some_ne_none _).symm
  · split
    · dsimp only
      split
      · exact (Option.some_ne_none _).symm
      · exact hnext hlong
    · rename_i hrx _
      rw [hrx]
      exact (Option.some_ne_none _).symm
  · rename_i due hrx
    split
    · exact hnext (by omega)
    · rename_i hno
      rw [hrx]
      exact fun heq => hno (Option.some.inj heq)
  · rename_i msg cnt due hrx
    split
    · split
      · exact hnext (by omega)
      · split <;> exact (Option.some_ne_none _).symm
    · rename_i hno
      rw [hrx]
      exact fun heq => hno (Option.some.inj heq)

theorem intake_now (u : Uart) : u.intake.now = u.now := by
  unfold Uart.intake
  split <;> split <;> try rfl
  split <;> try rfl
  split <;> rfl

/-- **A look at the FIFO** finds what was there when the time began. -/
theorem Rooms.intake (h : Rooms u) (hlong : 0 < u.period / 2) : Rooms u.intake := by
  have hdue : u.intake.rx.due = some u.intake.now → u.intake.room u.intake.now =
      decide (0 < u.intake.fromFifo.numFree) := by
    rw [intake_now]
    exact fun heq => absurd heq (intake_due hlong)
  suffices hsuff : u.intake.sent = u.sent ∧ u.intake.room = u.room ∧
      ∀ a ∈ u.intake.arrived, a ∈ u.arrived ∨ a.1.2 = u.now ∧ a.2 = u.room u.now by
    obtain ⟨hsent, hroom, harr⟩ := hsuff
    refine ⟨by rw [hsent, intake_now]; exact h.begun, fun a ha => ?_, hdue⟩
    rw [intake_now, hroom]
    rcases harr a ha with hold | ⟨hnow, hflag⟩
    · exact h.looked a hold
    · exact ⟨Nat.le_of_eq hnow, by rw [hflag, hnow]⟩
  unfold Uart.intake
  split
  · split <;> exact ⟨rfl, rfl, fun _ ha => Or.inl ha⟩
  · split <;> exact ⟨rfl, rfl, fun _ ha => Or.inl ha⟩
  · split <;> exact ⟨rfl, rfl, fun _ ha => Or.inl ha⟩
  · -- only behind the last bit is the FIFO looked at, at the time that was due
    rename_i msg cnt due hrx
    split
    · rename_i hnow
      have hroom := h.due (by rw [hrx, ← hnow]; rfl)
      have hnew : ∀ {room : Bool}, room = u.room u.now →
          ∀ a ∈ u.arrived ++ [((msg, u.now), room)], a ∈ u.arrived ∨ a.1.2 = u.now ∧ a.2 = u.room u.now := by
        intro room hflag a ha
        rcases List.mem_append.mp ha with ha | ha
        · exact Or.inl ha
        · rw [List.mem_singleton.mp ha]
          exact Or.inr ⟨rfl, hflag⟩
      split
      · exact ⟨rfl, rfl, fun _ ha => Or.inl ha⟩
      · split
        · rename_i hfull
          refine ⟨rfl, rfl, hnew ?_⟩
          rw [hroom, hfull]
          rfl
        · rename_i hfree
          refine ⟨rfl, rfl, hnew ?_⟩
          rw [hroom, decide_eq_true (Nat.pos_of_ne_zero hfree)]
    · exact ⟨rfl, rfl, fun _ ha => Or.inl ha⟩

theorem Rooms.delta (h : Rooms u) : Rooms u.delta := by
  unfold Uart.delta
  split
  · exact h
  · rename_i hbusy
    exact ⟨h.begun, h.looked, fun hdue => absurd (Or.inr (Or.inl hdue)) hbusy⟩

theorem Rooms.advance (h : Rooms u) (hinv : Inv u) (d : Nat) : Rooms (u.advance d) := by
  unfold Uart.advance
  split
  · exact h
  · rename_i hfree
    push Not at hfree
    have hlater := (hinv.stop d).1
    refine ⟨fun s hs => Nat.le_trans (h.begun s hs) hlater, fun a ha => ?_, fun hdue => ?_⟩
    · -- the room of a time that has gone by stays what it was
      obtain ⟨hpast, hflag⟩ := h.looked a ha
      refine ⟨Nat.le_trans hpast hlater, ?_⟩
      show a.2 = if u.now < a.1.2 ∧ a.1.2 ≤ u.stop d then _ else u.room a.1.2
      rw [if_neg fun hnew => absurd hnew.1 (Nat.not_lt.mpr hpast), hflag]
    · -- and that of the new time is recorded as it begins
      show (if u.now < u.stop d ∧ u.stop d ≤ u.stop d then _ else _) = _
      have hnow : u.now ≠ u.stop d := by
        intro heq
        exact hfree.1 (Or.inr (Or.inl (hdue.trans (congrArg some heq.symm))))
      rw [if_pos ⟨Nat.lt_of_le_of_ne hlater hnow, Nat.le_refl _⟩]

theorem Rooms.step (h : Rooms u) (hinv : Inv u) (e : Event) : Rooms (u.step e) := by
  cases e with
  | produce msg => exact h.produce msg
  | setStop stopbits => exact h.frame rfl rfl (fun _ hs => Or.inl hs) rfl rfl rfl
  | consume => exact h.consume
  | outtake => exact h.outtake
  | intake => exact h.intake hinv.long
  | delta => exact h.delta
  | advance d => exact h.advance hinv d

/-- **What is in the FIFO of the receiver**: of the bytes whose time has come, those for which there was
room; at most one byte is on its way. -/
theorem Rooms.received (h : Rooms u) (hinv : Inv u) : ∃ done rest, u.sent = done ++ rest ∧ rest.length ≤ 1 ∧
    (∀ s ∈ done, u.look s.2 ≤ u.now) ∧ (∀ s ∈ rest, u.now ≤ u.look s.2) ∧
      u.consumed ++ u.fromFifo.content = (done.filter fun s => u.room (u.look s.2)).map Prod.fst := by
  obtain ⟨later, hexpected, hlength, htime⟩ := hinv.onTheWay
  obtain ⟨done, rest, hsent, hdone, hrest⟩ := List.map_eq_append_iff.mp hexpected
  have hmem : ∀ s ∈ done, (s.1, u.look s.2) ∈ u.arrived.map Prod.fst := by
    intro s hs
    rw [← hdone]
    exact List.mem_map.mpr ⟨s, hs, rfl⟩
  refine ⟨done, rest, hsent, ?_, fun s hs => ?_, fun s hs => ?_, ?_⟩
  · rw [← hrest, List.length_map] at hlength
    exact hlength
  · obtain ⟨a, ha, heq⟩ := List.mem_map.mp (hmem s hs)
    have hpast := (h.looked a ha).1
    rw [heq] at hpast
    exact hpast
  · exact htime (s.1, u.look s.2) (by rw [← hrest]; exact List.mem_map.mpr ⟨s, hs, rfl⟩)
  · -- the flag of each arrival is the room at its time
    have hflags : u.arrived.filter Prod.snd = u.arrived.filter fun a => u.room a.1.2 :=
      List.filter_congr fun a ha => (h.looked a ha).2
    have hpairs : (u.arrived.filter fun a => u.room a.1.2).map Prod.fst =
        (u.arrived.map Prod.fst).filter fun x => u.room x.2 := by
      rw [List.filter_map]
      rfl
    rw [hinv.kept]
    unfold Lib.kept
    rw [hflags, hpairs, ← hdone, List.filter_map, List.map_map]
    rfl

/-! ## §2 — the time goes on -/

/-- The sender has nothing to do at this time. -/
def SenderRests (u : Uart) : Prop := u.tx.due ≠ some u.now ∧ (u.tx = .idle → u.toFifo.ready = [])

/-- The sender's turn leaves the time, the receiver and its FIFO alone. -/
theorem outtake_frame (u : Uart) : u.outtake.now = u.now ∧ u.outtake.rx = u.rx ∧
    u.outtake.fromFifo = u.fromFifo ∧ u.outtake.toFifo.fresh = u.toFifo.fresh := by
  unfold Uart.outtake
  split
  · split <;> exact ⟨rfl, rfl, rfl, rfl⟩
  · split
    · split <;> exact ⟨rfl, rfl, rfl, rfl⟩
    · exact ⟨rfl, rfl, rfl, rfl⟩
  · split <;> exact ⟨rfl, rfl, rfl, rfl⟩

theorem SenderRests.outtake (h : SenderRests u) : u.outtake = u := by
  unfold Uart.outtake
  split
  · rename_i htx
    rw [h.2 htx]
  · rename_i msg cnt due htx
    rw [if_neg fun hnow => h.1 (by rw [htx, hnow]; rfl)]
  · rename_i due htx
    rw [if_neg fun hnow => h.1 (by rw [htx, hnow]; rfl)]

/-- Behind the stop bit the sender goes back to its read, and else it waits after its turn. -/
theorem outtake_rests (hp : 0 < u.period) (hstop : u.tx ≠ .stopping u.now) : SenderRests u.outtake := by
  have hnext : ∀ {d : Nat}, 0 < d → some (u.now + d) ≠ some u.now := by
    intro d hd heq
    injection heq with heq
    omega
  unfold Uart.outtake
  split
  · rename_i htx
    split
    · rename_i hready
      exact ⟨by rw [htx]; exact (Option.some_ne_none _).symm, fun _ => hready⟩
    · exact ⟨hnext hp, fun hidle => nomatch hidle⟩
  · rename_i msg cnt due htx
    split
    · split
      · exact ⟨hnext hp, fun hidle => nomatch hidle⟩
      · refine ⟨hnext ?_, fun hidle => nomatch hidle⟩
        have := period_le_stopTime u
        omega
    · rename_i hno
      refine ⟨?_, fun hidle => ?_⟩
      · rw [htx]
        exact fun heq => hno (Option.some.inj heq)
      · rw [htx] at hidle
        cases hidle
  · rename_i due htx
    split
    · rename_i hnow
      exact absurd (htx.trans (congrArg Tx.stopping hnow)) hstop
    · rename_i hno
      refine ⟨?_, fun hidle => ?_⟩
      · rw [htx]
        exact fun heq => hno (Option.some.inj heq)
      · rw [htx] at hidle
        cases hidle

theorem outtake_twice (hp : 0 < u.period) : SenderRests u.outtake.outtake := by
  by_cases hstop : u.tx = .stopping u.now
  · have hidle : u.outtake = { u with tx := .idle } := by
      unfold Uart.outtake
      rw [hstop]
      exact if_pos rfl
    rw [hidle]
    exact outtake_rests hp fun h => nomatch h
  · have hrests := outtake_rests hp hstop
    rw [hrests.outtake]
    exact hrests

/-- The receiver's turn leaves the sender and the line alone, and its FIFO too unless a time has come for
which it waits. -/
theorem intake_frame (u : Uart) : u.intake.tx = u.tx ∧ u.intake.toFifo = u.toFifo ∧ u.intake.line = u.line ∧
    (u.rx.due ≠ some u.now → u.intake.fromFifo = u.fromFifo) := by
  unfold Uart.intake
  split
  · split <;> exact ⟨rfl, rfl, rfl, fun _ => rfl⟩
  · split <;> exact ⟨rfl, rfl, rfl, fun _ => rfl⟩
  · split <;> exact ⟨rfl, rfl, rfl, fun _ => rfl⟩
  · rename_i msg cnt due hrx
    split
    · rename_i hnow
      split
      · exact ⟨rfl, rfl, rfl, fun _ => rfl⟩
      · have hdue : u.rx.due = some u.now := by rw [hrx, ← hnow]; rfl
        split <;> exact ⟨rfl, rfl, rfl, fun hno => absurd hdue hno⟩
    · exact ⟨rfl, rfl, rfl, fun _ => rfl⟩

theorem Inv.woken_intake (h : Inv u) : u.intake.woken = false := by
  have hdeaf : ∀ due, u.rx.due = some due → u.woken = false := by
    intro due hdue
    cases h.way with
    | starting hno _ _ _ _ _ _ _ => rw [hno] at hdue; cases hdue
    | rising hno _ _ _ _ => rw [hno] at hdue; cases hdue
    | ready _ hwoken _ _ _ _ => exact hwoken
    | falling _ hno _ _ _ _ => rw [hno] at hdue; cases hdue
    | receiving _ _ _ hwoken _ _ _ => exact hwoken
  unfold Uart.intake
  split
  · split
    · rfl
    · rename_i hno
      exact Bool.eq_false_iff.mpr hno
  · split
    · rfl
    · rename_i hno
      exact Bool.eq_false_iff.mpr hno
  · rename_i due hrx
    have hwoken := hdeaf due (by rw [hrx]; rfl)
    split <;> exact hwoken
  · rename_i msg cnt due hrx
    have hwoken := hdeaf due (by rw [hrx]; rfl)
    split
    · split
      · exact hwoken
      · split <;> exact hwoken
    · exact hwoken

/-- An evaluation phase: the sender goes back to its read behind a stop bit, and begins with the next byte;
the receiver has its turn. -/
def evaluate (u : Uart) : Uart := u.outtake.outtake.intake

theorem Inv.evaluate (h : Inv u) : Inv u.evaluate := h.outtake.outtake.intake

theorem evaluate_now (u : Uart) : u.evaluate.now = u.now := by
  unfold Uart.evaluate
  rw [intake_now, (outtake_frame _).1, (outtake_frame _).1]

/-- **Nothing is due** after an evaluation phase. -/
theorem Inv.evaluated (h : Inv u) : SenderRests u.evaluate ∧ ¬ u.evaluate.Busy := by
  have hp : 0 < u.period := by
    have := h.long
    omega
  have hinv : Inv u.outtake.outtake := h.outtake.outtake
  have hrests : SenderRests u.evaluate := by
    obtain ⟨htx, hto, -, -⟩ := intake_frame u.outtake.outtake
    have hwaits := outtake_twice hp
    unfold SenderRests Uart.evaluate
    rw [htx, hto, intake_now]
    exact hwaits
  refine ⟨hrests, ?_⟩
  rintro (hwoken | hrx | htx | ⟨hidle, hready⟩)
  · have hno := hinv.woken_intake
    rw [show u.outtake.outtake.intake = u.evaluate from rfl, hwoken] at hno
    cases hno
  · rw [evaluate_now, ← (outtake_frame u).1, ← (outtake_frame u.outtake).1] at hrx
    exact intake_due hinv.long hrx
  · exact hrests.1 htx
  · exact hready (hrests.2 hidle)

/-- The FIFO of the receiver has nothing that waits for an update, nor has that of the sender. -/
def Updated (u : Uart) : Prop :=
  u.toFifo.fresh = [] ∧ u.fromFifo.fresh = [] ∧ u.fromFifo.taken = 0 ∧ u.rx.due ≠ some u.now

theorem delta_of_not_busy (h : ¬ u.Busy) : u.delta.now = u.now ∧ u.delta.rx = u.rx ∧ u.delta.tx = u.tx ∧
    u.delta.toFifo = u.toFifo.update ∧ u.delta.fromFifo = u.fromFifo.update ∧ u.delta.line.Quiet := by
  unfold Uart.delta
  rw [if_neg h]
  exact ⟨rfl, rfl, rfl, rfl, rfl, Signal.quiet_update _⟩

theorem updated_delta (h : ¬ u.Busy) : Updated u.delta := by
  obtain ⟨hnow, hrx, -, hto, hfrom, -⟩ := delta_of_not_busy h
  refine ⟨by rw [hto]; rfl, by rw [hfrom]; rfl, by rw [hfrom]; rfl, ?_⟩
  rw [hrx, hnow]
  exact fun hdue => h (Or.inr (Or.inl hdue))

theorem Updated.evaluate (h : Updated u) : u.evaluate.toFifo.fresh = [] ∧
    u.evaluate.fromFifo = u.fromFifo := by
  obtain ⟨hnow, hrx, hfrom, hfresh⟩ := outtake_frame u
  obtain ⟨hnow', hrx', hfrom', hfresh'⟩ := outtake_frame u.outtake
  obtain ⟨-, hto, -, hkeeps⟩ := intake_frame u.outtake.outtake
  refine ⟨?_, ?_⟩
  · show u.outtake.outtake.intake.toFifo.fresh = []
    rw [hto, hfresh', hfresh, h.1]
  · show u.outtake.outtake.intake.fromFifo = _
    rw [hkeeps, hfrom', hfrom]
    rw [hrx', hrx, hnow', hnow]
    exact h.2.2.2

/-- **Three evaluation phases** and nothing waits for an update any more: a frame that begins takes one
update to come to the line, and another one to wake the receiver. -/
theorem Inv.still (h : Inv u) :
    let v := u.evaluate.delta.evaluate.delta.evaluate
    Inv v ∧ v.now = u.now ∧ ¬ v.Busy ∧ v.Still := by
  intro v
  have hv : v = u.evaluate.delta.evaluate.delta.evaluate := rfl
  have h₁ : Inv u.evaluate.delta := h.evaluate.delta
  have hbusy₀ := h.evaluated.2
  obtain ⟨hrests₁, hbusy₁⟩ := h₁.evaluated
  have hupd := updated_delta hbusy₀
  obtain ⟨hfresh, -⟩ := hupd.evaluate
  have h₂ : Inv u.evaluate.delta.evaluate.delta := h₁.evaluate.delta
  obtain ⟨-, hbusy₂⟩ := h₂.evaluated
  obtain ⟨hnow₂, hrx₂, htx₂, hto₂, hfrom₂, hquiet⟩ := delta_of_not_busy hbusy₁
  have hupd₂ := updated_delta hbusy₁
  -- the sender has had its turn, and nothing has come to its FIFO since
  have hrests₂ : SenderRests u.evaluate.delta.evaluate.delta := by
    refine ⟨by rw [htx₂, hnow₂]; exact hrests₁.1, fun hidle => ?_⟩
    rw [htx₂] at hidle
    rw [hto₂]
    show u.evaluate.delta.evaluate.toFifo.ready ++ u.evaluate.delta.evaluate.toFifo.fresh = []
    rw [hrests₁.2 hidle, hfresh]
    rfl
  have hlast : v = u.evaluate.delta.evaluate.delta.intake := by
    rw [hv]
    unfold Uart.evaluate
    rw [show (u.outtake.outtake.intake).delta.outtake.outtake.intake.delta = u.evaluate.delta.evaluate.delta
      from rfl, hrests₂.outtake, hrests₂.outtake]
  obtain ⟨-, hto, hline, hkeeps⟩ := intake_frame u.evaluate.delta.evaluate.delta
  refine ⟨h₂.evaluate, ?_, hbusy₂, ?_⟩
  · rw [hv, evaluate_now, hnow₂, evaluate_now, (delta_of_not_busy hbusy₀).1, evaluate_now]
  · unfold Uart.Still
    rw [hlast, hline, hto, hkeeps hupd₂.2.2.2]
    exact ⟨hquiet, hupd₂.1, by rw [hto₂]; rfl, hupd₂.2.1, hupd₂.2.2.1⟩

/-- The steps of three evaluation phases, and of the time that follows. -/
def phases : List Event :=
  [.outtake, .outtake, .intake, .delta, .outtake, .outtake, .intake, .delta, .outtake, .outtake, .intake,
    .advance 1]

/-- **The time goes on** by the modules' own steps. -/
theorem Inv.ticks (h : Inv u) : u.now < (phases.foldl Uart.step u).now := by
  obtain ⟨hinv, hnow, hbusy, hstill⟩ := h.still
  set v := u.evaluate.delta.evaluate.delta.evaluate with hv
  show u.now < (v.advance 1).now
  rw [← hnow]
  unfold Uart.advance
  rw [if_neg fun hno => hno.elim hbusy fun hno => hno hstill]
  show v.now < v.stop 1
  have hlater : ∀ due : Option Nat, due ≠ some v.now → (∀ t, due = some t → v.now ≤ t) →
      v.now < due.getD (v.now + 1) := by
    intro due hne hle
    cases due with
    | none => exact Nat.lt_succ_self _
    | some t => exact Nat.lt_of_le_of_ne (hle t rfl) fun heq => hne (congrArg some heq.symm)
  have hrx := hlater v.rx.due (fun hdue => hbusy (Or.inr (Or.inl hdue))) hinv.rxDue
  have htx := hlater v.tx.due (fun hdue => hbusy (Or.inr (Or.inr (Or.inl hdue)))) hinv.txDue
  unfold Uart.stop
  omega

/-- The bit period, what was sent and what was written are those of the other state. -/
structure Agrees (u v : Uart) : Prop where
  period : v.period = u.period
  sent : v.sent = u.sent
  written : v.written = u.written

theorem agrees_refl (u : Uart) : Agrees u u := ⟨rfl, rfl, rfl⟩

theorem agrees_consume (u : Uart) : Agrees u u.consume := by
  unfold Uart.consume
  split
  · exact agrees_refl u
  · exact ⟨rfl, rfl, rfl⟩

theorem agrees_intake (u : Uart) : Agrees u u.intake := by
  unfold Uart.intake
  split <;> split <;> try exact ⟨rfl, rfl, rfl⟩
  split <;> try exact ⟨rfl, rfl, rfl⟩
  split <;> exact ⟨rfl, rfl, rfl⟩

theorem agrees_delta (u : Uart) : Agrees u u.delta := by
  unfold Uart.delta
  split
  · exact agrees_refl u
  · exact ⟨rfl, rfl, rfl⟩

theorem agrees_advance (u : Uart) (d : Nat) : Agrees u (u.advance d) := by
  unfold Uart.advance
  split
  · exact agrees_refl u
  · exact ⟨rfl, rfl, rfl⟩

/-- A byte of the user is added to what was written, if it is taken. -/
theorem produce_history (u : Uart) (msg : BitVec 8) : (u.produce msg).period = u.period ∧
    (u.produce msg).sent = u.sent ∧ u.written <+: (u.produce msg).written := by
  unfold Uart.produce
  split
  · exact ⟨rfl, rfl, List.prefix_refl _⟩
  · exact ⟨rfl, rfl, List.prefix_append _ _⟩

/-- A byte of the sender is added to what was sent. -/
theorem outtake_history (u : Uart) : u.outtake.period = u.period ∧ u.sent <+: u.outtake.sent ∧
    u.outtake.written = u.written := by
  unfold Uart.outtake
  split
  · split
    · exact ⟨rfl, List.prefix_refl _, rfl⟩
    · exact ⟨rfl, List.prefix_append _ _, rfl⟩
  · split
    · split <;> exact ⟨rfl, List.prefix_refl _, rfl⟩
    · exact ⟨rfl, List.prefix_refl _, rfl⟩
  · split <;> exact ⟨rfl, List.prefix_refl _, rfl⟩

/-- The period stays, and what was sent and written is only added to. -/
theorem step_history (u : Uart) (e : Event) : (u.step e).period = u.period ∧ u.sent <+: (u.step e).sent ∧
    u.written <+: (u.step e).written := by
  have hsame : ∀ {v : Uart}, Agrees u v → v.period = u.period ∧ u.sent <+: v.sent ∧ u.written <+: v.written := by
    intro v h
    rw [h.period, h.sent, h.written]
    exact ⟨rfl, List.prefix_refl _, List.prefix_refl _⟩
  cases e with
  | produce msg =>
    obtain ⟨hperiod, hsent, hwritten⟩ := produce_history u msg
    exact ⟨hperiod, hsent ▸ List.prefix_refl _, hwritten⟩
  | setStop stopbits => exact hsame ⟨rfl, rfl, rfl⟩
  | consume => exact hsame (agrees_consume u)
  | outtake =>
    obtain ⟨hperiod, hsent, hwritten⟩ := outtake_history u
    exact ⟨hperiod, hsent, hwritten ▸ List.prefix_refl _⟩
  | intake => exact hsame (agrees_intake u)
  | delta => exact hsame (agrees_delta u)
  | advance d => exact hsame (agrees_advance u d)

/-- What the modules do on their own writes nothing. -/
theorem own_written {e : Event} (h : Own e) : (u.step e).written = u.written := by
  cases e with
  | produce msg => exact h.elim
  | setStop stopbits => rfl
  | consume => exact h.elim
  | outtake => exact (outtake_history u).2.2
  | intake => exact (agrees_intake u).written
  | delta => exact (agrees_delta u).written
  | advance d => exact (agrees_advance u d).written

theorem run_sent (es : List Event) : ∀ u : Uart, u.sent <+: (es.foldl Uart.step u).sent := by
  induction es with
  | nil => exact fun u => List.prefix_refl _
  | cons e es ih => exact fun u => (step_history u e).2.1.trans (ih (u.step e))

theorem own_run_written {es : List Event} (h : ∀ e ∈ es, Own e) :
    (es.foldl Uart.step u).written = u.written := by
  induction es generalizing u with
  | nil => rfl
  | cons e es ih =>
    obtain ⟨hfirst, hrest⟩ := List.forall_mem_cons.mp h
    rw [List.foldl_cons, ih hrest, own_written hfirst]

/-- **Any time comes**, by the modules' own steps. -/
theorem Inv.timePasses (n : Nat) : ∀ {u : Uart}, Inv u →
    ∃ more : List Event, (∀ e ∈ more, Own e) ∧ u.now + n ≤ (more.foldl Uart.step u).now := by
  induction n with
  | zero => exact fun {u} _ => ⟨[], List.forall_mem_nil _, Nat.le_refl u.now⟩
  | succ n ih =>
    intro u h
    obtain ⟨more, hown, hlater⟩ := ih (h.run phases)
    have hphases : ∀ e ∈ phases, Own e := by simp [phases, Own]
    refine ⟨phases ++ more, fun e he => ?_, ?_⟩
    · exact (List.mem_append.mp he).elim (hphases e) (hown e)
    · have htick := h.ticks
      rw [List.foldl_append]
      omega

/-! ## §3 — the sender does not wait -/

/-- The time at which the sender is back at its read, at the latest. -/
def finish (u : Uart) : Nat :=
  match u.tx with
  | .idle => u.now
  | .sending _ cnt due => due + (8 - cnt) * u.period + 2 * u.period
  | .stopping due => due

/-- The time by which it has begun with `N` bytes in all, at eleven periods for each that it has not. -/
def deadline (N : Nat) (u : Uart) : Nat := u.finish + (N - u.sent.length) * (11 * u.period)

theorem stopTime_le (u : Uart) : u.stopTime ≤ 2 * u.period := by
  unfold stopTime
  split
  · omega
  · split <;> omega

theorem Inv.now_le_finish (h : Inv u) : u.now ≤ u.finish := by
  unfold finish
  split
  · exact Nat.le_refl _
  · rename_i msg cnt due htx
    have := h.txDue due (by rw [htx]; rfl)
    omega
  · rename_i due htx
    exact h.txDue due (by rw [htx]; rfl)

/-- Steps that leave the sender and the time alone. -/
theorem deadline_congr {N : Nat} {v : Uart} (htx : v.tx = u.tx) (hnow : v.now = u.now)
    (hperiod : v.period = u.period) (hsent : v.sent = u.sent) : deadline N v = deadline N u := by
  unfold deadline finish
  rw [htx, hnow, hperiod, hsent]

theorem deadline_outtake (N : Nat) (hN : u.sent.length < N) : deadline N u.outtake ≤ deadline N u := by
  have hcases : ∀ {v : Uart}, v.period = u.period → v.sent = u.sent → v.finish ≤ u.finish →
      deadline N v ≤ deadline N u := by
    intro v hperiod hsent hfinish
    unfold deadline
    rw [hperiod, hsent]
    omega
  unfold Uart.outtake
  split
  · -- a byte is begun: one less to come, and eleven periods until it is over
    rename_i htx
    split
    · exact Nat.le_refl _
    · rename_i msg msgs _
      have hfinish : u.finish = u.now := by
        unfold finish
        rw [htx]
      have hless : N - u.sent.length = (N - (u.sent ++ [(msg, u.now)]).length) + 1 := by
        rw [List.length_append, List.length_singleton]
        omega
      unfold deadline
      rw [hfinish, hless, Nat.succ_mul (N - (u.sent ++ [(msg, u.now)]).length)]
      show u.now + u.period + 8 * u.period + 2 * u.period +
        (N - (u.sent ++ [(msg, u.now)]).length) * (11 * u.period) ≤ _
      omega
  · rename_i msg cnt due htx
    split
    · rename_i hnow
      have hfinish : u.finish = due + (8 - cnt) * u.period + 2 * u.period := by
        unfold finish
        rw [htx]
      split
      · rename_i hlt
        refine hcases rfl rfl ?_
        rw [hfinish, show 8 - cnt = (8 - (cnt + 1)) + 1 by omega, Nat.succ_mul]
        show u.now + u.period + (8 - (cnt + 1)) * u.period + 2 * u.period ≤ _
        omega
      · -- the stop bits, two at most
        refine hcases rfl rfl ?_
        have hstop := stopTime_le u
        rw [hfinish]
        show u.now + u.stopTime ≤ _
        omega
    · exact Nat.le_refl _
  · rename_i due htx
    split
    · rename_i hnow
      refine hcases rfl rfl ?_
      have hfinish : u.finish = due := by
        unfold finish
        rw [htx]
      rw [hfinish, hnow]
      exact Nat.le_refl _
    · exact Nat.le_refl _

/-- While bytes wait for it, the time does not pass by an idle sender. -/
theorem Inv.deadline_advance (h : Inv u) (N d : Nat) (hN : u.sent.length < N) (hle : N ≤ u.written.length) :
    deadline N (u.advance d) ≤ deadline N u := by
  have hwait : u.toFifo.content ≠ [] := by
    intro hno
    have hlength := congrArg List.length h.written
    rw [hno, List.append_nil, List.length_map] at hlength
    omega
  unfold Uart.advance
  split
  · exact Nat.le_refl _
  · rename_i hfree
    push Not at hfree
    obtain ⟨hbusy, -, hfresh, -⟩ := hfree
    -- a sender that is idle beside a full FIFO has a turn before the time goes on
    have hsending : u.tx ≠ .idle := by
      intro hidle
      refine hbusy (Or.inr (Or.inr (Or.inr ⟨hidle, fun hready => hwait ?_⟩)))
      unfold Fifo.content
      rw [hready, hfresh]
      rfl
    unfold deadline finish
    dsimp only
    split
    · exact absurd (by assumption) hsending
    · exact Nat.le_refl _
    · exact Nat.le_refl _

/-- **No step puts the deadline off**, as long as the bytes are in the FIFO of the sender. -/
theorem Inv.deadline_step (h : Inv u) (N : Nat) (hN : u.sent.length < N) (hle : N ≤ u.written.length)
    (e : Event) : deadline N (u.step e) ≤ deadline N u := by
  cases e with
  | produce msg =>
    show deadline N (u.produce msg) ≤ _
    unfold Uart.produce
    split
    · exact Nat.le_refl _
    · exact Nat.le_of_eq (deadline_congr rfl rfl rfl rfl)
  | setStop stopbits => exact Nat.le_of_eq (deadline_congr rfl rfl rfl rfl)
  | consume =>
    show deadline N u.consume ≤ _
    unfold Uart.consume
    split
    · exact Nat.le_refl _
    · exact Nat.le_of_eq (deadline_congr rfl rfl rfl rfl)
  | outtake => exact deadline_outtake N hN
  | intake =>
    have hagrees := agrees_intake u
    exact Nat.le_of_eq (deadline_congr (intake_frame u).1 (intake_now u) hagrees.period hagrees.sent)
  | delta =>
    show deadline N u.delta ≤ _
    unfold Uart.delta
    split
    · exact Nat.le_refl _
    · exact Nat.le_of_eq (deadline_congr rfl rfl rfl rfl)
  | advance d => exact h.deadline_advance N d hN hle

/-- **Every byte is sent in time**: in any run, the sender has begun with the first `N` bytes when the
deadline is over. -/
theorem Inv.sent_in_time (N : Nat) (es : List Event) : ∀ {u : Uart}, Inv u → N ≤ u.written.length →
    deadline N u < (es.foldl Uart.step u).now → N ≤ (es.foldl Uart.step u).sent.length := by
  induction es with
  | nil =>
    intro u h _ hlate
    have hnow := h.now_le_finish
    have hlate : deadline N u < u.now := hlate
    unfold deadline at hlate
    omega
  | cons e es ih =>
    intro u h hle hlate
    by_cases hN : u.sent.length < N
    · exact ih (h.step e) (Nat.le_trans hle (step_history u e).2.2.length_le)
        (Nat.lt_of_le_of_lt (h.deadline_step N hN hle e) hlate)
    · exact Nat.le_trans (Nat.le_of_not_lt hN) (run_sent (e :: es) u).length_le

/-- **All that was written is sent and received**, by the modules' own steps. -/
theorem Inv.drains (h : Inv u) (hrooms : Rooms u) : ∃ more : List Event, (∀ e ∈ more, Own e) ∧
    let v := more.foldl Uart.step u
    v.written = u.written ∧ v.toFifo.content = [] ∧ ∀ s ∈ v.sent, v.look s.2 < v.now := by
  -- first everything is sent
  obtain ⟨first, hown₁, hlate₁⟩ := h.timePasses (deadline u.written.length u + 1)
  have hinv₁ : Inv (first.foldl Uart.step u) := h.run first
  have hwritten₁ : (first.foldl Uart.step u).written = u.written := own_run_written hown₁
  have hsent₁ := h.sent_in_time u.written.length first (Nat.le_refl _) (by omega)
  have hrooms₁ : Rooms (first.foldl Uart.step u) := by
    have hboth : Inv (first.foldl Uart.step u) ∧ Rooms (first.foldl Uart.step u) :=
      List.foldlRecOn first Uart.step (motive := fun v => Inv v ∧ Rooms v) ⟨h, hrooms⟩
        fun _ hv e _ => ⟨hv.1.step e, hv.2.step hv.1 e⟩
    exact hboth.2
  set v := first.foldl Uart.step u with hv
  -- then the time of the last byte comes
  obtain ⟨second, hown₂, hlate₂⟩ := hinv₁.timePasses (v.look 0 + 1)
  have hinv₂ : Inv (second.foldl Uart.step v) := hinv₁.run second
  have hwritten₂ : (second.foldl Uart.step v).written = u.written := (own_run_written hown₂).trans hwritten₁
  obtain ⟨more, hmore⟩ := run_sent second v
  have hlength := congrArg List.length hinv₂.written
  rw [hwritten₂, List.length_append, List.length_map, ← hmore, List.length_append] at hlength
  have hperiod : (second.foldl Uart.step v).period = v.period :=
    List.foldlRecOn second Uart.step (motive := fun w => w.period = v.period) rfl
      fun w hw e _ => (step_history w e).1.trans hw
  refine ⟨first ++ second, fun e he => (List.mem_append.mp he).elim (hown₁ e) (hown₂ e), ?_⟩
  rw [List.foldl_append, ← hv]
  refine ⟨hwritten₂, List.eq_nil_of_length_eq_zero (by omega), fun s hs => ?_⟩
  rw [← hmore, List.eq_nil_of_length_eq_zero (show more.length = 0 by omega), List.append_nil] at hs
  have hbegun := hrooms₁.begun s hs
  unfold look at hlate₂ ⊢
  rw [hperiod]
  omega

/-! ## §4 — the link -/

/-- **The link**, at any rate up to 115200, in every run: what was written is what the sender has begun to
send and what waits in its FIFO; what it has begun to send is in the FIFO of the receiver or has been read
from it, unaltered, in order and once, if there was room nine and a half bit periods after its start, and
is not if there was none; only a last byte may be on its way, for no longer than that; and the modules need
nobody's help to send and bring over all that was written. -/
theorem bytes_received (level : Bool) {rate : Nat} (hpos : 0 < rate) (hrate : rate ≤ 115200)
    (stopbits : Int) (toSize fromSize : Nat) (es : List Event) :
    let u := es.foldl Uart.step (init level (setBaud rate) stopbits toSize fromSize)
    u.written = u.sent.map Prod.fst ++ u.toFifo.content ∧
      (∃ done rest, u.sent = done ++ rest ∧ rest.length ≤ 1 ∧ (∀ s ∈ done, u.look s.2 ≤ u.now) ∧
        (∀ s ∈ rest, u.now ≤ u.look s.2) ∧
        u.consumed ++ u.fromFifo.content = (done.filter fun s => u.room (u.look s.2)).map Prod.fst) ∧
      ∃ more : List Event, (∀ e ∈ more, Own e) ∧
        let v := more.foldl Uart.step u
        v.written = u.written ∧ v.toFifo.content = [] ∧ ∀ s ∈ v.sent, v.look s.2 < v.now := by
  intro u
  have hboth : Inv u ∧ Rooms u :=
    List.foldlRecOn es Uart.step (motive := fun v => Inv v ∧ Rooms v)
      ⟨inv_init level (half_setBaud_pos hpos hrate) stopbits toSize fromSize, rooms_init ..⟩
      fun _ hv e _ => ⟨hv.1.step e, hv.2.step hv.1 e⟩
  exact ⟨hboth.1.written, hboth.2.received hboth.1, hboth.1.drains hboth.2⟩

/-- All that is due now, and then the time of the next thread. -/
def round : List Event := [.outtake, .intake, .outtake, .delta, .intake, .delta, .advance 100000]

/-- Two bytes, up to the end of the data bits of the second. -/
def twoBytes : List Event := [Event.produce 0x41, .produce 0x42] ++ (List.replicate 39 round).flatten

/-- A quarter of a bit period later the first byte is read. -/
def lateRead : List Event :=
  ([.outtake, .delta, .advance 2170, .consume, .delta, .advance 100000] : List Event) ++ round

theorem bytes_received_115200 :
    0 < 115200 ∧ 115200 ≤ 115200 ∧
      let u := twoBytes.foldl Uart.step (init false (setBaud 115200) 1 2 1)
      u.sent = [(0x41, 0), (0x42, 86800)] ∧ u.look 86800 = 169260 ∧
      (∃ done rest, u.sent = done ++ rest ∧ rest.length ≤ 1 ∧ (∀ s ∈ done, u.look s.2 ≤ u.now) ∧
        (∀ s ∈ rest, u.now ≤ u.look s.2) ∧
        u.consumed ++ u.fromFifo.content = (done.filter fun s => u.room (u.look s.2)).map Prod.fst) ∧
      ∃ more : List Event, (∀ e ∈ more, Own e) ∧
        let v := more.foldl Uart.step u
        v.written = u.written ∧ v.toFifo.content = [] ∧ ∀ s ∈ v.sent, v.look s.2 < v.now := by
  refine ⟨by decide, by decide, by decide +kernel, by decide +kernel, ?_⟩
  exact (@bytes_received false 115200 (by decide) (by decide) 1 2 1 twoBytes).2

/-- A FIFO for one byte is full when the data bits of the second byte end, and the byte is not lost. -/
theorem room_in_stop_bit :
    let u := twoBytes.foldl Uart.step (init false (setBaud 115200) 1 2 1)
    let v := lateRead.foldl Uart.step u
    u.sent = [(0x41, 0), (0x42, 86800)] ∧ u.now = 86800 + 9 * 8680 ∧ u.fromFifo.numFree = 0 ∧
      v.arrived = [((0x41, 82460), true), ((0x42, 169260), true)] ∧
      v.consumed ++ v.fromFifo.content = [0x41, 0x42] := by
  decide +kernel

end Uart

end Espmod.Serial
