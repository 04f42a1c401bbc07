/-
# Espmod.Ledc.Groups — low-speed channels beside high-speed ones

A low-speed channel should do what the high-speed channel of the same number does when both have the same
registers and their timers count alike. Its thread does (`channel_low`). But `start_of_simulation` spawns
the low-speed threads in a loop that begins with 8, the number of the first of them among all channels,
and ends with the number of low-speed outputs: of eight outputs it spawns none.
-/
import Espmod.Ledc.Channel

namespace Espmod.Ledc

open Espmod.Pcnt (Field rdfield)

/-! ## §1 — histories -/

/-- The registers of a channel and the four counters of its group, in one delta cycle. -/
structure Inputs where
  conf0 : BitVec 32
  conf1 : BitVec 32
  hpoint : BitVec 32
  duty : BitVec 32
  timerCnt : Fin 4 → BitVec 32

/-- All clear, as at the start. -/
def Inputs.zero : Inputs := ⟨0, 0, 0, 0, fun _ => 0⟩

/-- A counter of a group, by its number among all timers. -/
def Inputs.counter (i : Inputs) (ls : Bool) (t : Nat) : BitVec 32 :=
  i.timerCnt ⟨(t - if ls then LEDC_TIMERS / 2 else 0) % 4, Nat.mod_lt _ (by decide)⟩

/-- What the thread of a channel of a group finds when the inputs have changed. -/
def look (ls : Bool) (prev cur : Inputs) : Look where
  conf0 := cur.conf0
  conf1 := cur.conf1
  hpoint := cur.hpoint
  duty := cur.duty
  timerCnt := cur.counter ls
  conf0Ev := cur.conf0 != prev.conf0
  conf1Ev := cur.conf1 != prev.conf1
  hpointEv := cur.hpoint != prev.hpoint
  dutyEv := cur.duty != prev.duty
  timerCntEv t := cur.counter ls t != prev.counter ls t

/-- The numbers of the channels for which `start_of_simulation` spawns a thread, when so many outputs
are connected. -/
def spawned (hsPorts lsPorts : Nat) : List Nat :=
  List.range hsPorts ++ (List.range lsPorts).filter (LEDC_CHANNELS / 2 ≤ ·)

/-- The high-speed outputs of the board. -/
def hsPorts : Nat := 8

/-- The channel with the number `ch` in one delta cycle: only a thread does anything. -/
def react (lsPorts ch : Nat) (prev cur : Inputs) (c : Chan) : Chan :=
  if ch ∈ spawned hsPorts lsPorts then
    let ls := decide (LEDC_CHANNELS / 2 ≤ ch)
    channel ls (look ls prev cur) c
  else c

/-- What there is to see of a channel: its output, the duty that `returnth` stores in `duty_rd`, which
for a low-speed channel is that of the high-speed channel of its number, and its duty-end events. -/
structure Seen where
  out : Bool
  dutyRd : BitVec 32
  ends : Nat
deriving Repr, DecidableEq

/-- Both channels of a number, in one delta cycle after the other. -/
def observe (lsPorts c : Nat) : Inputs → Chan × Chan → List Inputs → List (Seen × Seen)
  | _, _, [] => []
  | prev, (hs, ls), cur :: rest =>
    let hs := react lsPorts c prev cur hs
    let ls := react lsPorts (c + LEDC_CHANNELS / 2) prev cur ls
    (⟨hs.out, hs.dutyR, hs.ends⟩, ⟨ls.out, hs.dutyR, ls.ends⟩) ::
      observe lsPorts c cur (hs, ls) rest

/-- **They behave alike**, whatever the history and whatever the arrays hold at first. -/
def Alike (lsPorts c : Nat) : Prop :=
  ∀ (start : Chan) (history : List Inputs), start.sel = none →
    ∀ seen ∈ observe lsPorts c .zero (start, start) history, seen.1 = seen.2

/-! ## §2 — the threads -/

/-- A thread of a low-speed channel, seen as one of a high-speed channel. -/
def lower (c : Chan) : Chan := { c with sel := c.sel.map (· + LEDC_TIMERS / 2) }

theorem fields_low (ls : Bool) : fields ls = hsch0 := by cases ls <;> rfl

/-- What is computed does not depend on the selected timer. -/
theorem calcPoints_lower (conf1 duty : BitVec 32) (startDither : Bool) (c : Chan) :
    calcPoints true conf1 duty startDither (lower c) =
      lower (calcPoints false conf1 duty startDither c) := by
  unfold calcPoints
  dsimp only
  rw [fields_low, fields_low]
  split
  · split
    · rfl
    · rw [Bool.false_and, if_neg Bool.false_ne_true, if_neg Bool.false_ne_true]
      by_cases h : c.dithcycles - 1 = 0
      · have hlow : (lower c).dithcycles - 1 = 0 := h
        rw [if_pos hlow, if_pos h]
        rfl
      · have hlow : ¬ (lower c).dithcycles - 1 = 0 := h
        rw [if_neg hlow, if_neg h]
        rfl
  · rfl

theorem counter_low (i : Inputs) (t : Nat) :
    i.counter true (t + LEDC_TIMERS / 2) = i.counter false t := by
  refine congrArg i.timerCnt (Fin.ext ?_)
  show (t + 4 - 4) % 4 = (t - 0) % 4
  rw [Nat.add_sub_cancel, Nat.sub_zero]

theorem wakes_lower (prev cur : Inputs) (c : Chan) :
    wakes (look true prev cur) (lower c) = wakes (look false prev cur) c := by
  unfold wakes lower
  cases c.sel with
  | none => rfl
  | some sel =>
    show (_ || (cur.counter true (sel + LEDC_TIMERS / 2) != prev.counter true (sel + LEDC_TIMERS / 2))) =
      (_ || (cur.counter false sel != prev.counter false sel))
    rw [counter_low, counter_low]
    rfl

theorem level_lower (prev cur : Inputs) (sel : Nat) (c : Chan) :
    level (look true prev cur) (sel + LEDC_TIMERS / 2) (lower c) = level (look false prev cur) sel c := by
  unfold level
  rw [show (look true prev cur).timerCnt (sel + LEDC_TIMERS / 2) = (look false prev cur).timerCnt sel from
    counter_low cur sel]
  rfl

theorem idle_lower (prev cur : Inputs) (outen : Bool) (c : Chan) :
    idle true (look true prev cur) outen (lower c) = lower (idle false (look false prev cur) outen c) := by
  unfold idle
  rw [fields_low, fields_low]
  by_cases h : ((look false prev cur).conf0Ev && !outen) = true
  · rw [if_pos h, if_pos (show ((look true prev cur).conf0Ev && !outen) = true from h)]
    rfl
  · rw [if_neg h, if_neg (show ¬ ((look true prev cur).conf0Ev && !outen) = true from h)]

theorem recheck_lower (prev cur : Inputs) (sel : Nat) (c : Chan) :
    recheck true (look true prev cur) (sel + LEDC_TIMERS / 2) (lower c) =
      (lower (recheck false (look false prev cur) sel c).1,
        (recheck false (look false prev cur) sel c).2) := by
  have hcnt : (look true prev cur).timerCnt (sel + LEDC_TIMERS / 2) =
      (look false prev cur).timerCnt sel := counter_low cur sel
  have hconf1 : (look true prev cur).conf1 = (look false prev cur).conf1 := rfl
  have hduty : (look true prev cur).duty = (look false prev cur).duty := rfl
  have hev : ((look true prev cur).dutyEv || (look true prev cur).conf0Ev) =
      ((look false prev cur).dutyEv || (look false prev cur).conf0Ev) := rfl
  unfold recheck
  rw [hcnt, hev, hconf1, hduty]
  split
  · rw [calcPoints_lower]
    rfl
  · split
    · have hcalc := calcPoints_lower (look false prev cur).conf1 (look false prev cur).duty false
        { c with thiscyc := if c.thiscyc + 1 = LEDC_CYCLES then 0 else c.thiscyc + 1 }
      exact congrArg (·, true) hcalc
    · rfl

/-- **The threads of the two groups do the same.** -/
theorem channel_low (prev cur : Inputs) (c : Chan) :
    channel true (look true prev cur) (lower c) = lower (channel false (look false prev cur) c) := by
  unfold channel
  rw [wakes_lower]
  split
  · rw [fields_low, fields_low]
    dsimp only
    rw [show (look true prev cur).conf0 = (look false prev cur).conf0 from rfl]
    generalize (rdfield (look false prev cur).conf0 hsch0.sigOutEn != 0) = outen
    generalize rdfield (look false prev cur).conf0 hsch0.timerSel = sel
    have hidle := idle_lower prev cur outen { c with sel := some sel }
    rw [if_pos rfl, if_neg Bool.false_ne_true, Nat.add_zero]
    rw [show ({ lower c with sel := some (sel + LEDC_TIMERS / 2) } : Chan) =
      lower { c with sel := some sel } from rfl, hidle, recheck_lower]
    generalize recheck false (look false prev cur) sel
      (idle false (look false prev cur) outen { c with sel := some sel }) = r
    obtain ⟨r, again⟩ := r
    dsimp only
    have hev : (look true prev cur).timerCntEv (sel + LEDC_TIMERS / 2) =
        (look false prev cur).timerCntEv sel := by
      show (cur.counter true _ != prev.counter true _) = (cur.counter false sel != prev.counter false sel)
      rw [counter_low, counter_low]
    rw [hev, level_lower]
    split
    · rfl
    · rfl
  · rfl

/-! ## §3 — who has a thread -/

theorem hs_spawned {c : Nat} (hc : c < 8) (lsPorts : Nat) : c ∈ spawned hsPorts lsPorts :=
  List.mem_append_left _ (List.mem_range.mpr hc)

/-- A low-speed channel has a thread when the outputs go beyond its number among all channels. -/
theorem ls_spawned (c lsPorts : Nat) :
    c + LEDC_CHANNELS / 2 ∈ spawned hsPorts lsPorts ↔ 8 + c < lsPorts := by
  unfold spawned hsPorts LEDC_CHANNELS
  rw [List.mem_append, List.mem_range, List.mem_filter, List.mem_range, decide_eq_true_eq]
  omega

theorem react_hs {c : Nat} (hc : c < 8) (lsPorts : Nat) (prev cur : Inputs) (chan : Chan) :
    react lsPorts c prev cur chan = channel false (look false prev cur) chan := by
  have hnot : decide (LEDC_CHANNELS / 2 ≤ c) = false := decide_eq_false (by unfold LEDC_CHANNELS; omega)
  unfold react
  rw [if_pos (hs_spawned hc lsPorts), hnot]

theorem react_ls {c lsPorts : Nat} (hports : 8 + c < lsPorts) (prev cur : Inputs) (chan : Chan) :
    react lsPorts (c + LEDC_CHANNELS / 2) prev cur chan = channel true (look true prev cur) chan := by
  have hyes : decide (LEDC_CHANNELS / 2 ≤ c + LEDC_CHANNELS / 2) = true :=
    decide_eq_true (Nat.le_add_left _ _)
  unfold react
  rw [if_pos ((ls_spawned c lsPorts).mpr hports), hyes]

/-- With a thread, the low-speed channel shows what the other one shows. -/
theorem observe_alike {c lsPorts : Nat} (hc : c < 8) (hports : 8 + c < lsPorts) (history : List Inputs) :
    ∀ (prev : Inputs) (chan : Chan),
      ∀ seen ∈ observe lsPorts c prev (chan, lower chan) history, seen.1 = seen.2 := by
  induction history with
  | nil => exact fun _ _ _ hseen => absurd hseen List.not_mem_nil
  | cons cur rest ih =>
    intro prev chan seen hseen
    have hls := react_ls hports prev cur (lower chan)
    rw [channel_low, ← react_hs hc lsPorts] at hls
    unfold observe at hseen
    dsimp only at hseen
    rw [hls] at hseen
    rcases List.mem_cons.mp hseen with hseen | hseen
    · subst hseen
      rfl
    · exact ih cur _ seen hseen

/-! ## §4 — the result -/

/-- A channel that nobody has used. -/
def idleChan : Chan := ⟨none, 0, 0, 0, 0, 0, false, 0⟩

/-- The output is off, and its idle level high. -/
def idleHigh : Inputs := { Inputs.zero with conf0 := 0x8 }

/-- **A low-speed channel behaves like the high-speed channel of its number exactly when there are more
low-speed outputs than its number among all channels.** -/
theorem alike_iff (c : Fin 8) (lsPorts : Nat) : Alike lsPorts c ↔ 8 + c.val < lsPorts := by
  constructor
  · intro h
    by_contra hports
    have hno : c.val + LEDC_CHANNELS / 2 ∉ spawned hsPorts lsPorts :=
      fun hmem => hports ((ls_spawned c lsPorts).mp hmem)
    -- the high-speed channel goes to its idle level, and the other one stays low
    have hseen := h idleChan [idleHigh] rfl
    unfold observe react at hseen
    rw [if_pos (hs_spawned c.isLt lsPorts), if_neg hno] at hseen
    have hnot : decide (LEDC_CHANNELS / 2 ≤ c.val) = false :=
      decide_eq_false (by unfold LEDC_CHANNELS; omega)
    rw [hnot] at hseen
    have hout := congrArg Seen.out (hseen _ (List.mem_cons_self ..))
    exact absurd hout (by decide)
  · intro hports start history hsel
    have hlow : lower start = start := by
      unfold lower
      rw [hsel]
      show ({ start with sel := none } : Chan) = start
      rw [← hsel]
    have halike := observe_alike c.isLt hports history .zero start
    rwa [hlow] at halike

/-- On the board, with eight low-speed outputs, the channels 0. -/
theorem low_speed_silent :
    observe 8 0 .zero (idleChan, idleChan) [idleHigh] = [(⟨true, 0, 0⟩, ⟨false, 0, 0⟩)] ∧ ¬ Alike 8 0 := by
  have hobs : observe 8 0 .zero (idleChan, idleChan) [idleHigh] =
      [(⟨true, 0, 0⟩, ⟨false, 0, 0⟩)] := by decide
  refine ⟨hobs, fun h => ?_⟩
  have hseen := h idleChan [idleHigh] rfl
  rw [hobs] at hseen
  exact absurd (hseen _ (List.mem_cons_self ..)) (by decide)

end Espmod.Ledc
