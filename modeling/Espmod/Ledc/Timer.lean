/-
# Espmod.Ledc.Timer — the timers of the LED controller

A thread runs for each timer. It waits for its tick and for changes of its configuration and of its
increment, which `updateth` computes from the registers. On a tick it counts up to a limit. Nothing ever
sets the limit: it stays 0, and the counter goes through all 32-bit values whatever the resolution
(`never_counts`).

The thread remembers that it was stopped by a reset or by a pause, but not that it was stopped by an
increment of zero. When the increment is set again nothing starts the tick, until the next reset or pause
(`tick_pending`).
-/
import Mathlib.Algebra.Group.Nat.Defs
import Espmod.Lib.Run
import Espmod.Lib.Signal
import Espmod.Ledc.Channel

namespace Espmod.Ledc

open Espmod.Lib
open Espmod.Pcnt (Field rdfield)

/-! ## §1 — registers -/

def ledcHstimer0Rst : Field := ⟨0x1, 24⟩
def ledcHstimer0Pause : Field := ⟨0x1, 23⟩
def ledcLstimer0Rst : Field := ⟨0x1, 24⟩
def ledcLstimer0Pause : Field := ⟨0x1, 23⟩

/-! The bit fields of `conf` in the struct. -/

def dutyResolution : Field := ⟨0x1F, 0⟩
def clockDivider : Field := ⟨0x3FFFF, 5⟩
def tickSel : Field := ⟨0x1, 25⟩
def lowSpeedUpdate : Field := ⟨0x1, 26⟩

/-- The periods of `clockpacer` that a timer can be given. -/
structure Periods where
  ref : Nat
  apb : Nat
  rtc8m : Nat

/-- `rst`, as the thread of a timer of a group reads it. -/
def rst (ls : Bool) (conf : BitVec 32) : Bool :=
  decide (rdfield conf (if ls then ledcLstimer0Rst else ledcHstimer0Rst) > 0)

/-- `pause`. -/
def pause (ls : Bool) (conf : BitVec 32) : Bool :=
  decide (rdfield conf (if ls then ledcLstimer0Pause else ledcHstimer0Pause) > 0)

/-- `base_period`, for a configuration word. -/
def basePeriod (P : Periods) (ls : Bool) (val : BitVec 32) : Nat :=
  if rdfield val tickSel = 0 then P.ref else if ls then P.rtc8m else P.apb

/-! ## §2 — the thread -/

/-- The configuration word of a timer in the struct, its signals, and its thread. -/
structure Timer where
  val : BitVec 32
  timerConf : Signal (BitVec 32)
  timerinc : Signal Nat
  timerCnt : Signal (BitVec 32)
  timerLim : Signal (BitVec 32)
  /-- when `timer_ev` is due -/
  due : Option Nat
  wasstoped : Bool
  now : Nat
  /-- how often the overflow event was notified -/
  ovf : Nat
deriving DecidableEq

namespace Timer

/-- `initstruct` and `start_of_simulation`. -/
def init : Timer where
  val := 0x1000000
  timerConf := .init 0x1000000
  timerinc := .init 0
  timerCnt := .init 0
  timerLim := .init 0
  due := none
  wasstoped := true
  now := 0
  ovf := 0

/-- `updateth`, for a timer of either group. -/
def updateth (P : Periods) (ls : Bool) (t : Timer) : Timer :=
  let t := { t with timerConf := t.timerConf.write t.val }
  if ls = false ∨ rdfield t.val lowSpeedUpdate ≠ 0 then
    { t with
      timerinc := t.timerinc.write (basePeriod P ls t.val * (rdfield t.val clockDivider >>> 8)) }
  else t

/-- A tick is counted. -/
def count (t : Timer) : Timer :=
  if t.timerCnt.cur < t.timerLim.cur - 1 then
    { t with timerCnt := t.timerCnt.write (t.timerCnt.cur + 1) }
  else { t with timerCnt := t.timerCnt.write 0, ovf := t.ovf + 1 }

/-- `timer`, from one wait to the next; `triggered` tells whether `timer_ev` is. -/
def timer (ls : Bool) (triggered : Bool) (t : Timer) : Timer :=
  if rst ls t.timerConf.cur then
    { t with timerCnt := t.timerCnt.write 0, due := none, wasstoped := true }
  else if pause ls t.timerConf.cur then { t with due := none, wasstoped := true }
  else if t.timerinc.cur = 0 then { t with due := none }
  else if t.wasstoped then { t with due := some (t.now + t.timerinc.cur), wasstoped := false }
  else if triggered then { t.count with due := some (t.now + t.timerinc.cur) }
  else t

/-- No written value of what the thread waits for is still to come. -/
def Settled (t : Timer) : Prop := t.timerConf.Quiet ∧ t.timerinc.Quiet

instance (t : Timer) : Decidable t.Settled := inferInstanceAs (Decidable (_ ∧ _))

/-- The signals after the update phase. -/
def updated (t : Timer) : Timer :=
  { t with
    timerConf := t.timerConf.update
    timerinc := t.timerinc.update
    timerCnt := t.timerCnt.update
    timerLim := t.timerLim.update }

/-- A delta cycle ends, and the thread is woken if one of its signals has changed. -/
def delta (ls : Bool) (t : Timer) : Timer :=
  if t.Settled then t.updated else t.updated.timer ls false

/-- The time of `timer_ev` has come. -/
def expire (ls : Bool) (t : Timer) : Timer :=
  match t.due with
  | none => t
  | some due =>
    if t.Settled ∧ t.timerCnt.Quiet then { t with now := due, due := none }.timer ls true else t

/-- Time passes, but not as far as to the tick. -/
def pass (d : Nat) (t : Timer) : Timer :=
  if t.Settled ∧ t.timerCnt.Quiet ∧ ∀ due ∈ t.due, t.now + d < due then { t with now := t.now + d }
  else t

/-- Firmware stores a configuration word or calls `update`; the configuration or the increment is
written; a delta cycle ends; time passes. -/
inductive Event where
  | store (v : BitVec 32)
  | update
  | conf (v : BitVec 32)
  | inc (n : Nat)
  | delta
  | pass (d : Nat)
  | expire
deriving DecidableEq

def step (P : Periods) (ls : Bool) (t : Timer) : Event → Timer
  | .store v => { t with val := v }
  | .update => t.updateth P ls
  | .conf v => { t with timerConf := t.timerConf.write v }
  | .inc n => { t with timerinc := t.timerinc.write n }
  | .delta => t.delta ls
  | .pass d => t.pass d
  | .expire => t.expire ls

/-! ## §3 — the tick -/

/-- Not in reset, not paused, with an increment. -/
def Runs (ls : Bool) (conf : BitVec 32) (inc : Nat) : Prop :=
  rst ls conf = false ∧ pause ls conf = false ∧ inc ≠ 0

instance (ls : Bool) (conf : BitVec 32) (inc : Nat) : Decidable (Runs ls conf inc) :=
  inferInstanceAs (Decidable (_ ∧ _))

/-- **A tick is pending exactly if the timer runs**, once everything has settled. -/
def Ticks (ls : Bool) (_ : List Event) (t : Timer) : Prop :=
  t.Settled → (t.due ≠ none ↔ Runs ls t.timerConf.cur t.timerinc.cur)

/-- No tick is pending, and neither a reset nor a pause is remembered. -/
def Frozen (t : Timer) : Prop := t.wasstoped = false ∧ t.due = none

/-- **A frozen timer is not set going again.** -/
def Thawed (ls : Bool) (t : Timer) (e : Event) : Prop :=
  e = .delta → Runs ls t.timerConf.next t.timerinc.next → ¬ t.Frozen

/-- What holds in every state of such a run. -/
structure Sound (ls : Bool) (t : Timer) : Prop where
  pending : t.due ≠ none ↔ Runs ls t.timerConf.cur t.timerinc.cur
  stopped : t.wasstoped = true → t.due = none

variable {P : Periods} {ls : Bool} {t : Timer}

theorem sound_init (ls : Bool) : Sound ls init where
  pending := by cases ls <;> decide
  stopped _ := rfl

/-- **The thread**, when there is a tick or something has changed: all it does to the tick. -/
theorem timer_cases (ls triggered : Bool) (t : Timer) :
    (¬ Runs ls t.timerConf.cur t.timerinc.cur ∧ (t.timer ls triggered).due = none ∧
        ((t.timer ls triggered).wasstoped = true ∨ (t.timer ls triggered).wasstoped = t.wasstoped)) ∨
      (Runs ls t.timerConf.cur t.timerinc.cur ∧ (t.wasstoped = true ∨ triggered = true) ∧
        (t.timer ls triggered).due = some (t.now + t.timerinc.cur) ∧
        (t.timer ls triggered).wasstoped = false) ∨
      (Runs ls t.timerConf.cur t.timerinc.cur ∧ t.wasstoped = false ∧ triggered = false ∧
        t.timer ls triggered = t) := by
  unfold timer Runs
  by_cases hrst : rst ls t.timerConf.cur = true
  · rw [if_pos hrst]
    exact Or.inl ⟨fun h => Bool.false_ne_true (h.1.symm.trans hrst), rfl, Or.inl rfl⟩
  rw [if_neg hrst]
  by_cases hpause : pause ls t.timerConf.cur = true
  · rw [if_pos hpause]
    exact Or.inl ⟨fun h => Bool.false_ne_true (h.2.1.symm.trans hpause), rfl, Or.inl rfl⟩
  rw [if_neg hpause]
  by_cases hinc : t.timerinc.cur = 0
  · rw [if_pos hinc]
    exact Or.inl ⟨fun h => h.2.2 hinc, rfl, Or.inr rfl⟩
  rw [if_neg hinc]
  have hruns : rst ls t.timerConf.cur = false ∧ pause ls t.timerConf.cur = false ∧
      t.timerinc.cur ≠ 0 := ⟨Bool.eq_false_iff.mpr hrst, Bool.eq_false_iff.mpr hpause, hinc⟩
  by_cases hwas : t.wasstoped = true
  · rw [if_pos hwas]
    exact Or.inr (Or.inl ⟨hruns, Or.inl hwas, rfl, rfl⟩)
  rw [if_neg hwas]
  cases triggered with
  | true =>
    refine Or.inr (Or.inl ⟨hruns, Or.inr rfl, rfl, ?_⟩)
    show t.count.wasstoped = false
    unfold count
    split <;> exact Bool.eq_false_iff.mpr hwas
  | false => exact Or.inr (Or.inr ⟨hruns, Bool.eq_false_iff.mpr hwas, rfl, rfl⟩)

/-- The thread leaves the configuration and the increment alone. -/
theorem timer_frame (ls triggered : Bool) (t : Timer) :
    (t.timer ls triggered).timerConf = t.timerConf ∧ (t.timer ls triggered).timerinc = t.timerinc ∧
      (t.timer ls triggered).timerLim = t.timerLim := by
  have hcount : t.count.timerConf = t.timerConf ∧ t.count.timerinc = t.timerinc ∧
      t.count.timerLim = t.timerLim := by
    unfold count
    split <;> exact ⟨rfl, rfl, rfl⟩
  unfold timer
  repeat' split
  all_goals first | exact hcount | exact ⟨rfl, rfl, rfl⟩

/-- The thread wakes up: it starts the tick if it has to, and it is never too late for that. -/
theorem Sound.timer {triggered : Bool} (hstopped : t.wasstoped = true → t.due = none)
    (hawake : Runs ls t.timerConf.cur t.timerinc.cur → t.wasstoped = false → triggered = false →
      t.due ≠ none) : Sound ls (t.timer ls triggered) := by
  obtain ⟨hconf, hinc, -⟩ := timer_frame ls triggered t
  rcases timer_cases ls triggered t with ⟨hnot, hdue, -⟩ | ⟨hruns, -, hdue, hwas⟩ |
    ⟨hruns, hwas, htrig, heq⟩
  · refine ⟨?_, fun _ => hdue⟩
    rw [hconf, hinc, hdue]
    exact ⟨fun h => absurd rfl h, fun h => absurd h hnot⟩
  · refine ⟨?_, fun h => absurd h (by rw [hwas]; exact Bool.false_ne_true)⟩
    rw [hconf, hinc, hdue]
    exact ⟨fun _ => hruns, fun _ => Option.some_ne_none _⟩
  · rw [heq]
    exact ⟨⟨fun _ => hruns, fun _ => hawake hruns hwas htrig⟩, hstopped⟩

/-- What leaves the tick, the flag and what the thread reads alone. -/
theorem Sound.of_eq {t' : Timer} (h : Sound ls t) (hdue : t'.due = t.due)
    (hwas : t'.wasstoped = t.wasstoped) (hconf : t'.timerConf.cur = t.timerConf.cur)
    (hinc : t'.timerinc.cur = t.timerinc.cur) : Sound ls t' := by
  constructor
  · rw [hdue, hconf, hinc]
    exact h.pending
  · rw [hdue, hwas]
    exact h.stopped

theorem updateth_frame (P : Periods) (ls : Bool) (t : Timer) :
    (t.updateth P ls).due = t.due ∧ (t.updateth P ls).wasstoped = t.wasstoped ∧
      (t.updateth P ls).timerConf.cur = t.timerConf.cur ∧
      (t.updateth P ls).timerinc.cur = t.timerinc.cur := by
  unfold updateth
  dsimp only
  split <;> exact ⟨rfl, rfl, rfl, rfl⟩

/-- **The end of a delta cycle.** -/
theorem Sound.delta (h : Sound ls t) (hthawed : t.Thawed ls .delta) : Sound ls (t.delta ls) := by
  unfold Timer.delta
  split
  · next hsettled => exact h.of_eq rfl rfl hsettled.1 hsettled.2
  · refine Sound.timer (by exact h.stopped) fun hruns hwas _ hdue => ?_
    exact hthawed rfl hruns ⟨hwas, hdue⟩

/-- **A tick.** -/
theorem Sound.expire (h : Sound ls t) : Sound ls (t.expire ls) := by
  unfold Timer.expire
  split
  · exact h
  · next due hdue =>
    split
    · refine Sound.timer (fun _ => rfl) fun _ _ htrig => ?_
      exact absurd htrig Bool.noConfusion
    · exact h

/-- **One step.** -/
theorem Sound.step (h : Sound ls t) {e : Event} (hthawed : t.Thawed ls e) :
    Sound ls (t.step P ls e) := by
  cases e with
  | store v => exact h.of_eq rfl rfl rfl rfl
  | update =>
    obtain ⟨hdue, hwas, hconf, hinc⟩ := updateth_frame P ls t
    exact h.of_eq hdue hwas hconf hinc
  | conf v => exact h.of_eq rfl rfl rfl rfl
  | inc n => exact h.of_eq rfl rfl rfl rfl
  | delta => exact h.delta hthawed
  | pass d =>
    show Sound ls (t.pass d)
    unfold pass
    split
    · exact h.of_eq rfl rfl rfl rfl
    · exact h
  | expire => exact h.expire

/-- **A frozen timer that should run again stays without a tick.** -/
theorem Sound.lost (h : Sound ls t) {e : Event} (hfrozen : ¬ t.Thawed ls e) (hs : List Event) :
    ¬ Ticks ls hs (t.step P ls e) := by
  unfold Thawed at hfrozen
  push Not at hfrozen
  obtain ⟨rfl, hruns, hwas, hdue⟩ := hfrozen
  have hmoved : ¬ t.Settled := by
    intro hsettled
    rw [hsettled.1, hsettled.2] at hruns
    exact h.pending.mpr hruns hdue
  have hstep : t.step P ls .delta = t.updated.timer ls false := if_neg hmoved
  have hsame : t.updated.timer ls false = t.updated := by
    rcases timer_cases ls false t.updated with ⟨hnot, -⟩ | ⟨-, hcause, -⟩ | ⟨-, -, -, heq⟩
    · exact absurd hruns hnot
    · rcases hcause with hcause | hcause
      · exact absurd (hwas.symm.trans hcause) Bool.noConfusion
      · exact absurd hcause Bool.noConfusion
    · exact heq
  rw [hstep, hsame]
  intro hticks
  exact (hticks ⟨rfl, rfl⟩).mpr hruns hdue

/-- **The tick is pending in every settled state of a run exactly if no frozen timer is set going again
in it.** -/
theorem tick_pending (P : Periods) (ls : Bool) (es : List Event) :
    Always (Ticks ls) (step P ls) [] init es ↔ Throughout (Thawed ls) (step P ls) init es := by
  exact always_iff_of_invariant (P := Ticks ls) (I := fun _ => Sound ls) (fun _ _ h _ => h.pending)
    (fun _ _ _ h hok => h.step hok) (fun hs _ _ h hbad => h.lost hbad _) es [] init (sound_init ls)

/-- A timer starts with an increment, loses it and gets it again. -/
def renewed : List Event := [.conf 0, .inc 10, .delta, .inc 0, .delta, .inc 10, .delta]

theorem tick_lost : ¬ Always (Ticks false) (step ⟨1000, 12, 125⟩ false) [] init renewed := by
  intro h
  have hlast : ((renewed.foldl (step ⟨1000, 12, 125⟩ false) init).timerinc.cur = 10 ∧
      (renewed.foldl (step ⟨1000, 12, 125⟩ false) init).due = none) := by decide
  exact (h.last (by decide)).mpr (by decide) hlast.2

/-! ## §4 — the count -/

/-- Firmware has stored a configuration word and called `update`, and the thread has taken it. -/
def load (P : Periods) (ls : Bool) (v : BitVec 32) (t : Timer) : Timer :=
  [.store v, .update, .delta].foldl (step P ls) t

/-- A tick, and the delta cycle in which its count is to be seen. -/
def tick (P : Periods) (ls : Bool) (t : Timer) : Timer := (t.step P ls .expire).step P ls .delta

/-- So many ticks. -/
def ticks (P : Periods) (ls : Bool) (t : Timer) : Nat → Timer
  | 0 => t
  | k + 1 => (t.ticks P ls k).tick P ls

/-- The configuration word runs a timer: a resolution of one to twenty bits, a divider with an integer
part, no reset and no pause. -/
structure Configures (ls : Bool) (v : BitVec 32) : Prop where
  resolution : 1 ≤ rdfield v dutyResolution ∧ rdfield v dutyResolution ≤ 20
  divider : 256 ≤ rdfield v clockDivider
  rst : rst ls v = false
  pause : pause ls v = false

/-- One tick as it should be: a base period times the integer divider behind the last one, the next
count modulo the resolution, and an overflow event with the count 0. -/
structure Counted (P : Periods) (ls : Bool) (v : BitVec 32) (t t' : Timer) : Prop where
  time : t'.now = t.now + basePeriod P ls v * (rdfield v clockDivider >>> 8)
  count : t'.timerCnt.cur.toNat = (t.timerCnt.cur.toNat + 1) % 2 ^ rdfield v dutyResolution
  ovf : t'.ovf = t.ovf + if t'.timerCnt.cur = 0 then 1 else 0

/-- **The counter counts its resolution**, from some tick on at least. -/
def Counts (P : Periods) (ls : Bool) (v : BitVec 32) (t : Timer) : Prop :=
  ∃ k₀, ∀ k, k₀ ≤ k → Counted P ls v (t.ticks P ls k) (t.ticks P ls (k + 1))

/-- What holds in every state of every run: nothing has set the limit, and a pending tick is that of a
timer that runs. -/
structure Unlimited (ls : Bool) (t : Timer) : Prop where
  lim : t.timerLim = .init 0
  runs : t.due ≠ none → Runs ls t.timerConf.cur t.timerinc.cur ∧ t.wasstoped = false

theorem unlimited_init (ls : Bool) : Unlimited ls init where
  lim := rfl
  runs h := absurd rfl h

theorem Unlimited.of_eq {t' : Timer} (h : Unlimited ls t) (hlim : t'.timerLim = t.timerLim)
    (hdue : t'.due = t.due) (hwas : t'.wasstoped = t.wasstoped)
    (hconf : t'.timerConf.cur = t.timerConf.cur) (hinc : t'.timerinc.cur = t.timerinc.cur) :
    Unlimited ls t' := by
  refine ⟨hlim.trans h.lim, ?_⟩
  rw [hdue, hwas, hconf, hinc]
  exact h.runs

/-- The thread never leaves a tick behind that it should not. -/
theorem Unlimited.timer {triggered : Bool} (hlim : t.timerLim = .init 0) :
    Unlimited ls (t.timer ls triggered) := by
  obtain ⟨hconf, hinc, hsame⟩ := timer_frame ls triggered t
  refine ⟨hsame.trans hlim, fun hdue => ?_⟩
  rw [hconf, hinc]
  rcases timer_cases ls triggered t with ⟨-, hnone, -⟩ | ⟨hruns, -, -, hwas⟩ | ⟨hruns, hwas, -, heq⟩
  · exact absurd hnone hdue
  · exact ⟨hruns, hwas⟩
  · rw [heq]
    exact ⟨hruns, hwas⟩

theorem Unlimited.delta (h : Unlimited ls t) : Unlimited ls (t.delta ls) := by
  have hlim : t.updated.timerLim = .init 0 := by
    show t.timerLim.update = _
    rw [h.lim]
    rfl
  unfold Timer.delta
  split
  · next hsettled =>
    refine ⟨hlim, fun hdue => ?_⟩
    show Runs ls t.timerConf.next t.timerinc.next ∧ _
    rw [hsettled.1, hsettled.2]
    exact h.runs hdue
  · exact Unlimited.timer hlim

theorem Unlimited.step (h : Unlimited ls t) (e : Event) : Unlimited ls (t.step P ls e) := by
  cases e with
  | store v => exact h.of_eq rfl rfl rfl rfl rfl
  | update =>
    obtain ⟨hdue, hwas, hconf, hinc⟩ := updateth_frame P ls t
    refine h.of_eq ?_ hdue hwas hconf hinc
    show (t.updateth P ls).timerLim = t.timerLim
    unfold updateth
    dsimp only
    split <;> rfl
  | conf v => exact h.of_eq rfl rfl rfl rfl rfl
  | inc n => exact h.of_eq rfl rfl rfl rfl rfl
  | delta => exact h.delta
  | pass d =>
    show Unlimited ls (t.pass d)
    unfold pass
    split
    · exact h.of_eq rfl rfl rfl rfl rfl
    · exact h
  | expire =>
    show Unlimited ls (t.expire ls)
    unfold Timer.expire
    split
    · exact h
    · split
      · exact Unlimited.timer h.lim
      · exact h

theorem Unlimited.run (h : Unlimited ls t) (es : List Event) :
    Unlimited ls (es.foldl (Timer.step P ls) t) :=
  List.foldlRecOn es (Timer.step P ls) h fun _ h e _ => h.step e

/-- Nothing is written and still to come. -/
def Still (t : Timer) : Prop := t.Settled ∧ t.timerCnt.Quiet

/-- Without a tick pending nothing happens. -/
theorem tick_stopped (hlim : t.timerLim = .init 0) (hstill : t.Still) (hdue : t.due = none) :
    t.tick P ls = t := by
  have hexpire : t.step P ls .expire = t := by
    show t.expire ls = t
    unfold Timer.expire
    rw [hdue]
  have hdelta : t.step P ls .delta = t := by
    show t.delta ls = t
    unfold Timer.delta
    rw [if_pos hstill.1]
    unfold updated
    rw [hstill.1.1.update_eq, hstill.1.2.update_eq, hstill.2.update_eq, hlim]
    exact (congrArg (fun lim => { t with timerLim := lim }) hlim.symm : _ = { t with timerLim := _ })
  rw [tick, hexpire, hdelta]

/-- **A tick with the limit 0**: the next of all 32-bit values. -/
theorem tick_running (h : Unlimited ls t) (hstill : t.Still) {due : Nat} (hdue : t.due = some due) :
    (t.tick P ls).timerCnt.cur = t.timerCnt.cur + 1 ∧ (t.tick P ls).Still ∧
      (t.tick P ls).due ≠ none := by
  obtain ⟨⟨hrst, hpause, hinc⟩, hwas⟩ := h.runs (by rw [hdue]; exact Option.some_ne_none _)
  let u : Timer := { t with now := due, due := none }
  have htimer : u.timer ls true = { u.count with due := some (due + t.timerinc.cur) } := by
    have hwas : u.wasstoped = false := hwas
    unfold timer
    rw [if_neg (Bool.eq_false_iff.mp hrst), if_neg (Bool.eq_false_iff.mp hpause), if_neg hinc, hwas]
    rfl
  have hexpire : t.step P ls .expire = { u.count with due := some (due + t.timerinc.cur) } := by
    show t.expire ls = _
    unfold Timer.expire
    rw [hdue]
    exact (if_pos hstill).trans htimer
  have hcount : u.count.timerCnt.next = t.timerCnt.cur + 1 ∧ u.count.timerConf = t.timerConf ∧
      u.count.timerinc = t.timerinc := by
    have hlim : u.timerLim = .init 0 := h.lim
    unfold count
    rw [hlim]
    split
    · exact ⟨rfl, rfl, rfl⟩
    · next hend =>
      refine ⟨?_, rfl, rfl⟩
      have hall : t.timerCnt.cur = 0#32 - 1 := by
        have hend : ¬ t.timerCnt.cur < 0#32 - 1 := hend
        bv_omega
      show (0 : BitVec 32) = t.timerCnt.cur + 1
      rw [hall]
      decide
  have hsettled : Settled { u.count with due := some (due + t.timerinc.cur) } := by
    unfold Settled
    dsimp only
    rw [hcount.2.1, hcount.2.2]
    exact hstill.1
  have hdelta : t.tick P ls =
      updated { u.count with due := some (due + t.timerinc.cur) } := by
    rw [tick, hexpire]
    exact if_pos hsettled
  rw [hdelta]
  exact ⟨hcount.1, ⟨⟨rfl, rfl⟩, rfl⟩, Option.some_ne_none _⟩

theorem ticks_stopped (hlim : t.timerLim = .init 0) (hstill : t.Still) (hdue : t.due = none) (k : Nat) :
    t.ticks P ls k = t := by
  induction k with
  | zero => rfl
  | succ k ih => rw [ticks, ih, tick_stopped hlim hstill hdue]

theorem ticks_running (h : Unlimited ls t) (hstill : t.Still) (hdue : t.due ≠ none) (k : Nat) :
    (t.ticks P ls k).timerCnt.cur = t.timerCnt.cur + BitVec.ofNat 32 k ∧ (t.ticks P ls k).Still ∧
      Unlimited ls (t.ticks P ls k) ∧ (t.ticks P ls k).due ≠ none := by
  induction k with
  | zero =>
    refine ⟨?_, hstill, h, hdue⟩
    show t.timerCnt.cur = t.timerCnt.cur + 0#32
    rw [BitVec.add_zero]
  | succ k ih =>
    obtain ⟨hcnt, hstill, hunlimited, hdue⟩ := ih
    obtain ⟨due, hsome⟩ := Option.ne_none_iff_exists'.mp hdue
    obtain ⟨hnext, hstill', hdue'⟩ := tick_running (P := P) hunlimited hstill hsome
    refine ⟨?_, hstill', (hunlimited.step (P := P) .expire).step (P := P) .delta, hdue'⟩
    rw [ticks, hnext, hcnt, BitVec.ofNat_add]
    exact BitVec.add_assoc _ _ _

/-- **A counter that runs reaches every 32-bit value**, again and again. -/
theorem ticks_reach (h : Unlimited ls t) (hstill : t.Still) (hdue : t.due ≠ none) (v : BitVec 32)
    (k₀ : Nat) : ∃ k, k₀ ≤ k ∧ (t.ticks P ls k).timerCnt.cur = v := by
  refine ⟨2 ^ 32 * k₀ + (v - t.timerCnt.cur).toNat, ?_, ?_⟩
  · have hpos : 1 * k₀ ≤ 2 ^ 32 * k₀ := Nat.mul_le_mul_right _ (by decide)
    omega
  · have hwhole : BitVec.ofNat 32 (2 ^ 32 * k₀) = 0#32 := by
      apply BitVec.eq_of_toNat_eq
      rw [BitVec.toNat_ofNat, Nat.mul_mod_right]
      rfl
    rw [(ticks_running h hstill hdue _).1, BitVec.ofNat_add, hwhole, BitVec.zero_add,
      BitVec.ofNat_toNat, BitVec.setWidth_eq, BitVec.add_comm, BitVec.sub_add_cancel]

/-- The counter of a timer whose limit was never set does not count a resolution. -/
theorem Unlimited.not_counts (h : Unlimited ls t) (hstill : t.Still) {v : BitVec 32}
    (hres : 1 ≤ rdfield v dutyResolution ∧ rdfield v dutyResolution ≤ 20) : ¬ Counts P ls v t := by
  rintro ⟨k₀, hcounts⟩
  have hpow : 2 ^ 1 ≤ 2 ^ rdfield v dutyResolution := Nat.pow_le_pow_right (by decide) hres.1
  have hword : 2 ^ rdfield v dutyResolution ≤ 2 ^ 20 := Nat.pow_le_pow_right (by decide) hres.2
  by_cases hdue : t.due = none
  · have hcount := (hcounts k₀ (Nat.le_refl _)).count
    rw [ticks_stopped h.lim hstill hdue, ticks_stopped h.lim hstill hdue] at hcount
    have hlt : t.timerCnt.cur.toNat < 2 ^ rdfield v dutyResolution := by
      rw [hcount]
      exact Nat.mod_lt _ (by omega)
    rcases Nat.lt_or_ge (t.timerCnt.cur.toNat + 1) (2 ^ rdfield v dutyResolution) with hless | hmore
    · rw [Nat.mod_eq_of_lt hless] at hcount
      omega
    · rw [show t.timerCnt.cur.toNat + 1 = 2 ^ rdfield v dutyResolution by omega, Nat.mod_self] at hcount
      omega
  · -- the value behind the last one of the resolution
    obtain ⟨k, hk, hreach⟩ :=
      ticks_reach (P := P) h hstill hdue (BitVec.ofNat 32 (2 ^ rdfield v dutyResolution)) (k₀ + 1)
    obtain ⟨j, rfl⟩ : ∃ j, k = j + 1 := ⟨k - 1, by omega⟩
    have hcount := (hcounts j (by omega)).count
    rw [hreach, BitVec.toNat_ofNat, Nat.mod_eq_of_lt (by omega)] at hcount
    have hlt := Nat.mod_lt ((t.ticks P ls j).timerCnt.cur.toNat + 1)
      (show 2 ^ rdfield v dutyResolution > 0 by omega)
    omega

theorem still_load (P : Periods) (ls : Bool) (v : BitVec 32) (hrst : rst ls v = false) (t : Timer) :
    (t.load P ls v).Still := by
  let u := ({ t with val := v } : Timer).updateth P ls
  have hconf : u.timerConf.next = v := by
    show (updateth P ls { t with val := v }).timerConf.next = v
    unfold updateth
    dsimp only
    split <;> rfl
  show (u.delta ls).Still
  unfold Timer.delta
  split
  · exact ⟨⟨rfl, rfl⟩, rfl⟩
  · obtain ⟨hsame, hinc, -⟩ := timer_frame ls false u.updated
    refine ⟨⟨?_, ?_⟩, ?_⟩
    · rw [hsame]
      rfl
    · rw [hinc]
      rfl
    · have hrun : ¬ rst ls u.updated.timerConf.cur = true := by
        show ¬ rst ls u.timerConf.next = true
        rw [hconf, hrst]
        exact Bool.false_ne_true
      unfold timer
      rw [if_neg hrun]
      repeat' split
      all_goals first | rfl | exact absurd ‹false = true› Bool.false_ne_true

/-- **No timer counts its resolution**, whatever was before and whatever it is configured to. -/
theorem never_counts (P : Periods) (ls : Bool) (es : List Event) (v : BitVec 32)
    (h : Configures ls v) : ¬ Counts P ls v ((es.foldl (step P ls) init).load P ls v) :=
  (((unlimited_init ls).run es).run [.store v, .update, .delta]).not_counts
    (still_load P ls v h.rst _) h.resolution

/-- Ten bits of the reference tick, divided by one. -/
theorem never_counts_tenBits :
    ¬ Counts ⟨1000, 12, 125⟩ false 0x200A (init.load ⟨1000, 12, 125⟩ false 0x200A) :=
  never_counts ⟨1000, 12, 125⟩ false [] 0x200A
    { resolution := by decide, divider := by decide, rst := by decide, pause := by decide }

/-- One bit: the second tick counts to 2, and so on. -/
theorem count_unlimited :
    ¬ Counts ⟨1000, 12, 125⟩ false 0x2001 (init.load ⟨1000, 12, 125⟩ false 0x2001) :=
  ((unlimited_init false).run [.store 0x2001, .update, .delta]).not_counts
    (still_load ⟨1000, 12, 125⟩ false 0x2001 (by decide) init) (by decide)

end Timer

end Espmod.Ledc
