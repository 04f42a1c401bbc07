/-
# Espmod.Ledc.Returns — the raw interrupts of the LED controller

`returnth` waits for any counter, any duty, any interrupt event and for the firmware's clear, and brings
the struct up to date. The raw interrupt register should be a latch: an event sets its bit, and only the
firmware clears it. But `returnth` begins anew with it for each channel, and puts the duty-end event of a
channel at the channel's number instead of eight above. So a bit outlives a wake-up only if its timer
overflows again, and duty-end events are lost, except for that of channel 15, which is taken for channel
7's.

The threads of the channels and timers appear as what they do to `returnth`: a call of `calc_points`, a
counter that goes on, or an overflow, at any time.
-/
import Espmod.Lib.Run
import Espmod.Ledc.Channel

namespace Espmod.Ledc

open Espmod.Lib

/-! ## §1 — the struct and the threads -/

def LEDC_OVF_TIMER_INTR : Nat := 0

def LEDC_DUTYEND_TIMER_INTR : Nat := 8

/-- What `updateth` and `returnth` read and write of the struct `LEDC`. -/
structure LedcDev where
  conf1 : Nat → BitVec 32
  duty : Nat → BitVec 32
  dutyRd : Nat → BitVec 32
  timerValue : Nat → BitVec 32
  intRaw : BitVec 32
  intSt : BitVec 32
  intEna : BitVec 32
  intClr : BitVec 32

/-- The module: the struct, the signals between the threads, and the events of this delta cycle. -/
structure LedcMod where
  dev : LedcDev
  conf1 : Nat → Signal (BitVec 32)
  duty : Nat → Signal (BitVec 32)
  dutyR : Nat → Signal (BitVec 32)
  timerCnt : Nat → Signal (BitVec 32)
  intEna : Signal (BitVec 32)
  intrO : Signal Bool
  chan : Nat → Chan
  /-- the interrupt events that are triggered -/
  intEv : Nat → Bool
  /-- so is `int_clr_ev` -/
  intClrEv : Bool
  /-- `updateth` is due -/
  updating : Bool
  /-- so is `returnth` -/
  returning : Bool

namespace LedcMod

/-- At the start of simulation, with the arrays of the channels as they are. -/
def init (chan : Nat → Chan) : LedcMod where
  dev := ⟨fun _ => 0, fun _ => 0, fun _ => 0, fun _ => 0, 0, 0, 0, 0⟩
  conf1 := fun _ => .init 0
  duty := fun _ => .init 0
  dutyR := fun _ => .init 0
  timerCnt := fun _ => .init 0
  intEna := .init 0
  intrO := .init false
  chan := chan
  intEv := fun _ => false
  intClrEv := false
  updating := false
  returning := false

/-- A function at one more place. -/
def set {α : Type} (f : Nat → α) (i : Nat) (a : α) : Nat → α := fun j => if j = i then a else f j

/-- `updateth`, for the registers that matter here. -/
def updateth (m : LedcMod) : LedcMod :=
  if m.updating then
    let m := { m with
      updating := false
      conf1 := fun ch => (m.conf1 ch).write (m.dev.conf1 ch)
      duty := fun ch => (m.duty ch).write (m.dev.duty ch)
      intEna := m.intEna.write m.dev.intEna }
    if m.dev.intClr ≠ 0 then { m with intClrEv := true, returning := true } else m
  else m

/-- `int_ev[i].notify()`. -/
def notify (i : Nat) (m : LedcMod) : LedcMod := { m with intEv := set m.intEv i true, returning := true }

/-- A call of `calc_points` for a channel, at some point of its sixteen cycles. -/
def recalc (ch : Nat) (startDither : Bool) (thiscyc : Int) (m : LedcMod) : LedcMod :=
  let before := { m.chan ch with thiscyc := thiscyc }
  let after :=
    calcPoints (decide (LEDC_CHANNELS / 2 ≤ ch)) (m.conf1 ch).cur (m.duty ch).cur startDither before
  let m := { m with
    chan := set m.chan ch after
    dutyR := set m.dutyR ch ((m.dutyR ch).write after.dutyR) }
  if after.ends ≠ before.ends then m.notify (ch + LEDC_DUTYEND_TIMER_INTR) else m

/-- A timer writes its counter. -/
def count (tim : Nat) (v : BitVec 32) (m : LedcMod) : LedcMod :=
  { m with timerCnt := set m.timerCnt tim ((m.timerCnt tim).write v) }

/-- A timer's counter comes to its end. -/
def overflow (tim : Nat) (m : LedcMod) : LedcMod := (m.count tim 0).notify (tim + LEDC_OVF_TIMER_INTR)

/-- The first loop of `returnth`, for one channel. -/
def returnChannel (m : LedcMod) (d : LedcDev) (un : Nat) : LedcDev :=
  let d := { d with intRaw := 0 }
  let d :=
    if m.intEv (un + LEDC_DUTYEND_TIMER_INTR) then
      { d with
        intRaw := d.intRaw ||| 1#32 <<< un
        conf1 := set d.conf1 un (d.conf1 un &&& 0x7FFFFFFF) }
    else d
  if un < LEDC_CHANNELS / 2 then { d with dutyRd := set d.dutyRd un ((m.dutyR un).cur &&& 0x1FFFFFF) }
  else { d with dutyRd := set d.dutyRd un ((m.dutyR (un - 8)).cur &&& 0x1FFFFFF) }

/-- The second loop, for one timer of each group. -/
def returnTimer (m : LedcMod) (d : LedcDev) (un : Nat) : LedcDev :=
  let d :=
    if m.intEv (un + LEDC_OVF_TIMER_INTR) then { d with intRaw := d.intRaw ||| 1#32 <<< un } else d
  let d := { d with timerValue := set d.timerValue un ((m.timerCnt un).cur &&& 0xFFFFF) }
  let d :=
    if m.intEv (un + LEDC_OVF_TIMER_INTR + LEDC_TIMERS / 2) then
      { d with intRaw := d.intRaw ||| 1#32 <<< (un + LEDC_TIMERS / 2) }
    else d
  { d with timerValue := set d.timerValue (un + LEDC_TIMERS / 2) ((m.timerCnt un).cur &&& 0xFFFFF) }

/-- `returnth`, after its loops. -/
def returnClear (m : LedcMod) (d : LedcDev) : LedcDev :=
  if m.intClrEv then { d with intRaw := d.intRaw &&& ~~~d.intClr, intClr := 0 } else d

/-- `returnth`, from one wait to the next. -/
def returnth (m : LedcMod) : LedcMod :=
  if m.returning then
    let d := (List.range LEDC_CHANNELS).foldl m.returnChannel m.dev
    let d := (List.range (LEDC_TIMERS / 2)).foldl m.returnTimer d
    let d := m.returnClear d
    let d := { d with intSt := d.intRaw &&& m.intEna.cur }
    { m with dev := d, intrO := m.intrO.write (d.intSt != 0), returning := false }
  else m

/-- A counter or a duty changes with the update phase. -/
def Changing (m : LedcMod) : Prop :=
  (∃ tim ∈ List.range LEDC_TIMERS, (m.timerCnt tim).next ≠ (m.timerCnt tim).cur) ∨
    ∃ ch ∈ List.range LEDC_CHANNELS, (m.dutyR ch).next ≠ (m.dutyR ch).cur

instance (m : LedcMod) : Decidable m.Changing := by
  unfold Changing
  infer_instance

/-- The end of a delta cycle. -/
def delta (m : LedcMod) : LedcMod :=
  if m.updating ∨ m.returning then m
  else
    { m with
      conf1 := fun ch => (m.conf1 ch).update
      duty := fun ch => (m.duty ch).update
      dutyR := fun ch => (m.dutyR ch).update
      timerCnt := fun tim => (m.timerCnt tim).update
      intEna := m.intEna.update
      intrO := m.intrO.update
      intEv := fun _ => false
      intClrEv := false
      returning := m.Changing }

/-- Firmware stores into a register or calls `update`, a channel or a timer does something, a thread
runs, or a delta cycle ends. -/
inductive Event where
  | storeConf1 (ch : Nat) (v : BitVec 32)
  | storeDuty (ch : Nat) (v : BitVec 32)
  | storeIntEna (v : BitVec 32)
  | storeIntClr (v : BitVec 32)
  | update
  | updateth
  | recalc (ch : Fin 16) (startDither : Bool) (thiscyc : Int)
  | count (tim : Fin 8) (v : BitVec 32)
  | overflow (tim : Fin 8)
  | returnth
  | delta

def step (m : LedcMod) : Event → LedcMod
  | .storeConf1 ch v => { m with dev := { m.dev with conf1 := set m.dev.conf1 ch v } }
  | .storeDuty ch v => { m with dev := { m.dev with duty := set m.dev.duty ch v } }
  | .storeIntEna v => { m with dev := { m.dev with intEna := v } }
  | .storeIntClr v => { m with dev := { m.dev with intClr := v } }
  | .update => { m with updating := true }
  | .updateth => m.updateth
  | .recalc ch startDither thiscyc => m.recalc ch startDither thiscyc
  | .count tim v => m.count tim v
  | .overflow tim => m.overflow tim
  | .returnth => m.returnth
  | .delta => m.delta

/-! ## §2 — the specification -/

/-- The module beside the registers it should have. -/
structure Watched where
  m : LedcMod
  intRaw : BitVec 32
  intSt : BitVec 32
  intrO : Bool

/-- The events of this delta cycle, each with its own bit. -/
def eventWord (m : LedcMod) : BitVec 32 :=
  (List.range 24).foldl (fun w k => if m.intEv k then w ||| 1#32 <<< k else w) 0

/-- The bits the firmware clears in this delta cycle. -/
def clearWord (m : LedcMod) : BitVec 32 := if m.intClrEv then m.dev.intClr else 0

namespace Watched

def init (chan : Nat → Chan) : Watched := ⟨.init chan, 0, 0, false⟩

/-- A wake-up of `returnth` sets the bits of its events and clears what the firmware clears; nothing
else happens to the latches. -/
def step (w : Watched) (e : Event) : Watched :=
  match e with
  | .returnth =>
    if w.m.returning then
      let intRaw := (w.intRaw ||| w.m.eventWord) &&& ~~~w.m.clearWord
      let intSt := intRaw &&& w.m.intEna.cur
      ⟨w.m.step e, intRaw, intSt, intSt != 0⟩
    else { w with m := w.m.step e }
  | _ => { w with m := w.m.step e }

/-- **The interrupts latch**: the registers are what they should be, and so is what the line is
driven with. -/
structure Latches (w : Watched) : Prop where
  raw : w.m.dev.intRaw = w.intRaw
  st : w.m.dev.intSt = w.intSt
  line : w.m.intrO.next = w.intrO

/-- What `returnth` finds for a bit: the overflow event of its timer, or, for bit 15, the duty-end event
of channel 15. -/
def found (m : LedcMod) (k : Nat) : Bool := (decide (k < 8) && m.intEv k) || (k == 15 && m.intEv 23)

/-- At a wake-up every bit that is not cleared is found exactly if it is set already or its event is
there. -/
def Kept (w : Watched) : Event → Prop
  | .returnth => w.m.returning = true → ∀ k < 32, w.m.clearWord.getLsbD k = false →
      (w.intRaw.getLsbD k || (decide (k < 24) && w.m.intEv k)) = found w.m k
  | _ => True

/-! ## §3 — bits -/

theorem getLsbD_one {n k : Nat} (hn : n < 32) : (1#32 <<< n).getLsbD k = decide (k = n) := by
  rw [BitVec.getLsbD_shiftLeft]
  by_cases h : k = n
  · subst h
    simp [hn]
  · by_cases hlt : k < n
    · simp [h, hlt]
    · have hne : k - n ≠ 0 := by omega
      simp [h, hne]

/-- A bit that is put into a word if its event is there. -/
theorem getLsbD_orBit (w : BitVec 32) {n k : Nat} (hn : n < 32) (b : Bool) :
    (if b then w ||| 1#32 <<< n else w).getLsbD k = (w.getLsbD k || (decide (k = n) && b)) := by
  cases b with
  | false => simp
  | true => rw [if_pos rfl, BitVec.getLsbD_or, getLsbD_one hn, Bool.and_true]

theorem getLsbD_eventWord (m : LedcMod) (k : Nat) :
    (eventWord m).getLsbD k = (decide (k < 24) && m.intEv k) := by
  have hfold : ∀ (n : Nat), n ≤ 24 → ((List.range n).foldl
      (fun w k => if m.intEv k then w ||| 1#32 <<< k else w) 0).getLsbD k =
        (decide (k < n) && m.intEv k) := by
    intro n
    induction n with
    | zero => intro _; simp
    | succ n ih =>
      intro hn
      rw [List.range_succ, List.foldl_append, List.foldl_cons, List.foldl_nil,
        getLsbD_orBit _ (by omega), ih (by omega)]
      by_cases hkn : k = n
      · subst hkn
        simp
      · have hiff : k < n ↔ k < n + 1 := by omega
        simp [hkn, hiff]
  exact hfold 24 (Nat.le_refl _)

/-! ## §4 — the loops of `returnth` -/

variable {m : LedcMod}

theorem returnChannel_intRaw (d : LedcDev) (un : Nat) :
    (m.returnChannel d un).intRaw =
      if m.intEv (un + LEDC_DUTYEND_TIMER_INTR) then 1#32 <<< un else 0 := by
  unfold returnChannel
  split <;> split <;> simp

theorem returnChannel_intClr (d : LedcDev) (un : Nat) : (m.returnChannel d un).intClr = d.intClr := by
  unfold returnChannel
  split <;> split <;> rfl

/-- Of the channels only the last one counts. -/
theorem channels_intRaw (d : LedcDev) :
    ((List.range LEDC_CHANNELS).foldl m.returnChannel d).intRaw =
      if m.intEv 23 then 1#32 <<< 15 else 0 := by
  show ((List.range (15 + 1)).foldl m.returnChannel d).intRaw = _
  rw [List.range_succ, List.foldl_append, List.foldl_cons, List.foldl_nil, returnChannel_intRaw]
  rfl

theorem channels_intClr (l : List Nat) (d : LedcDev) :
    (l.foldl m.returnChannel d).intClr = d.intClr := by
  induction l generalizing d with
  | nil => rfl
  | cons un l ih => rw [List.foldl_cons, ih, returnChannel_intClr]

theorem getLsbD_returnTimer (d : LedcDev) {un : Nat} (hun : un < 4) (k : Nat) :
    (m.returnTimer d un).intRaw.getLsbD k =
      (d.intRaw.getLsbD k || (decide (k = un) && m.intEv un) ||
        (decide (k = un + 4) && m.intEv (un + 4))) := by
  have hraw : (m.returnTimer d un).intRaw =
      if m.intEv (un + 4) then
        (if m.intEv un then d.intRaw ||| 1#32 <<< un else d.intRaw) ||| 1#32 <<< (un + 4)
      else if m.intEv un then d.intRaw ||| 1#32 <<< un else d.intRaw := by
    unfold returnTimer LEDC_OVF_TIMER_INTR LEDC_TIMERS
    cases m.intEv un <;> cases m.intEv (un + 4) <;> simp
  rw [hraw, getLsbD_orBit _ (by omega), getLsbD_orBit _ (by omega)]

theorem returnTimer_intClr (d : LedcDev) (un : Nat) : (m.returnTimer d un).intClr = d.intClr := by
  unfold returnTimer
  split <;> split <;> rfl

theorem getLsbD_timers (d : LedcDev) (k : Nat) :
    ((List.range (LEDC_TIMERS / 2)).foldl m.returnTimer d).intRaw.getLsbD k =
      (d.intRaw.getLsbD k || (decide (k < 8) && m.intEv k)) := by
  show ([0, 1, 2, 3].foldl m.returnTimer d).intRaw.getLsbD k = _
  simp only [List.foldl_cons, List.foldl_nil]
  rw [getLsbD_returnTimer _ (by decide), getLsbD_returnTimer _ (by decide),
    getLsbD_returnTimer _ (by decide), getLsbD_returnTimer _ (by decide)]
  by_cases hk : k < 8
  · have hcases : k = 0 ∨ k = 1 ∨ k = 2 ∨ k = 3 ∨ k = 4 ∨ k = 5 ∨ k = 6 ∨ k = 7 := by omega
    rcases hcases with rfl | rfl | rfl | rfl | rfl | rfl | rfl | rfl <;> simp
  · have hne : ∀ j, j < 8 → decide (k = j) = false := fun j hj => decide_eq_false (by omega)
    rw [hne 0, hne 1, hne 2, hne 3, hne (0 + 4), hne (1 + 4), hne (2 + 4), hne (3 + 4),
      decide_eq_false hk] <;> simp

theorem timers_intClr (d : LedcDev) :
    ((List.range (LEDC_TIMERS / 2)).foldl m.returnTimer d).intClr = d.intClr := by
  show ([0, 1, 2, 3].foldl m.returnTimer d).intClr = _
  simp only [List.foldl_cons, List.foldl_nil, returnTimer_intClr]

/-- **What a wake-up leaves in the raw register**: what it has found and the firmware does not clear. -/
theorem getLsbD_returnth (hret : m.returning = true) {k : Nat} (hk : k < 32) :
    m.returnth.dev.intRaw.getLsbD k = (found m k && !m.clearWord.getLsbD k) := by
  have hloops : ((List.range (LEDC_TIMERS / 2)).foldl m.returnTimer
      ((List.range LEDC_CHANNELS).foldl m.returnChannel m.dev)).intRaw.getLsbD k = found m k := by
    rw [getLsbD_timers, channels_intRaw]
    unfold found
    cases m.intEv 23 with
    | false => simp
    | true =>
      rw [if_pos rfl, getLsbD_one (by decide), Bool.or_comm, Bool.and_true]
      rfl
  have hclr : ((List.range (LEDC_TIMERS / 2)).foldl m.returnTimer
      ((List.range LEDC_CHANNELS).foldl m.returnChannel m.dev)).intClr = m.dev.intClr := by
    rw [timers_intClr, channels_intClr]
  unfold returnth
  rw [if_pos hret]
  dsimp only
  unfold returnClear clearWord
  split
  · dsimp only
    rw [BitVec.getLsbD_and, BitVec.getLsbD_not, hloops, hclr, decide_eq_true hk, Bool.true_and]
  · rw [hloops]
    simp

/-! ## §5 — the steps -/

variable {w : Watched}

/-- A wake-up is right exactly when it keeps what is set. -/
theorem returnth_raw (hret : w.m.returning = true) :
    (w.step .returnth).m.dev.intRaw = (w.step .returnth).intRaw ↔ w.Kept .returnth := by
  have hspec : (w.step .returnth).intRaw = (w.intRaw ||| w.m.eventWord) &&& ~~~w.m.clearWord := by
    unfold Watched.step
    rw [if_pos hret]
  have hbits : ∀ k, k < 32 → (w.step .returnth).intRaw.getLsbD k =
      ((w.intRaw.getLsbD k || (decide (k < 24) && w.m.intEv k)) && !w.m.clearWord.getLsbD k) := by
    intro k hk
    rw [hspec, BitVec.getLsbD_and, BitVec.getLsbD_or, BitVec.getLsbD_not, getLsbD_eventWord,
      decide_eq_true hk, Bool.true_and]
  have hm : (w.step .returnth).m = w.m.returnth := by
    unfold Watched.step
    rw [if_pos hret]
    rfl
  rw [hm]
  constructor
  · intro heq _ k hk hclr
    have hk' := hbits k hk
    rw [← heq, getLsbD_returnth hret hk, hclr] at hk'
    simpa using hk'.symm
  · intro hkept
    apply BitVec.eq_of_getLsbD_eq
    intro k hk
    rw [getLsbD_returnth hret hk, hbits k hk]
    cases hclr : w.m.clearWord.getLsbD k with
    | true => rw [Bool.not_true, Bool.and_false, Bool.and_false]
    | false => rw [hkept hret k hk hclr]

/-- Nothing else touches the registers. -/
theorem step_frame (m : LedcMod) {e : Event} (he : e ≠ .returnth) :
    (m.step e).dev.intRaw = m.dev.intRaw ∧ (m.step e).dev.intSt = m.dev.intSt ∧
      (m.step e).intrO.next = m.intrO.next := by
  cases e with
  | returnth => exact absurd rfl he
  | storeConf1 => exact ⟨rfl, rfl, rfl⟩
  | storeDuty => exact ⟨rfl, rfl, rfl⟩
  | storeIntEna => exact ⟨rfl, rfl, rfl⟩
  | storeIntClr => exact ⟨rfl, rfl, rfl⟩
  | update => exact ⟨rfl, rfl, rfl⟩
  | count => exact ⟨rfl, rfl, rfl⟩
  | overflow => exact ⟨rfl, rfl, rfl⟩
  | updateth =>
    unfold LedcMod.step LedcMod.updateth
    dsimp only
    split
    · split <;> exact ⟨rfl, rfl, rfl⟩
    · exact ⟨rfl, rfl, rfl⟩
  | recalc =>
    unfold LedcMod.step LedcMod.recalc
    dsimp only
    split <;> exact ⟨rfl, rfl, rfl⟩
  | delta =>
    unfold LedcMod.step LedcMod.delta
    dsimp only
    split <;> exact ⟨rfl, rfl, rfl⟩

theorem Latches.frame (h : w.Latches) {e : Event} (he : e ≠ .returnth) : (w.step e).Latches := by
  obtain ⟨hraw, hst, hline⟩ := step_frame w.m he
  have hstep : w.step e = { w with m := w.m.step e } := by
    cases e with
    | returnth => exact absurd rfl he
    | _ => rfl
  rw [hstep]
  exact ⟨hraw.trans h.raw, hst.trans h.st, hline.trans h.line⟩

/-- The masked register and the line follow the raw one. -/
theorem Latches.wake (h : w.Latches) (hkept : w.Kept .returnth) : (w.step .returnth).Latches := by
  by_cases hret : w.m.returning = true
  · have hraw := (returnth_raw hret).mpr hkept
    have hst : (w.step .returnth).m.dev.intSt = (w.step .returnth).m.dev.intRaw &&& w.m.intEna.cur ∧
        (w.step .returnth).m.intrO.next = ((w.step .returnth).m.dev.intSt != 0) := by
      unfold Watched.step LedcMod.step LedcMod.returnth
      rw [if_pos hret, if_pos hret]
      exact ⟨rfl, rfl⟩
    have hspec : (w.step .returnth).intSt = (w.step .returnth).intRaw &&& w.m.intEna.cur ∧
        (w.step .returnth).intrO = ((w.step .returnth).intSt != 0) := by
      unfold Watched.step
      rw [if_pos hret]
      exact ⟨rfl, rfl⟩
    have hmask : (w.step .returnth).m.dev.intSt = (w.step .returnth).intSt := by
      rw [hst.1, hspec.1, hraw]
    exact ⟨hraw, hmask, by rw [hst.2, hspec.2, hmask]⟩
  · have hno : w.step .returnth = w := by
      unfold Watched.step LedcMod.step LedcMod.returnth
      rw [if_neg hret, if_neg hret]
    rwa [hno]

/-- **The interrupts latch exactly as long as every wake-up keeps what is set and finds what comes**:
for every run, any contents of the arrays at the start, and any order of the threads. -/
theorem latches_agree (chan : Nat → Chan) (es : List Event) :
    Always (fun _ w => w.Latches) Watched.step [] (Watched.init chan) es ↔
      Throughout Kept Watched.step (Watched.init chan) es := by
  refine always_iff_of_invariant (I := fun _ (w : Watched) => w.Latches) (fun _ _ h => h)
    (fun _ w e h hok => ?_) (fun _ w e _ hbad h => ?_) es [] _ ⟨rfl, rfl, rfl⟩
  · by_cases he : e = .returnth
    · subst he
      exact h.wake hok
    · exact h.frame he
  · cases e with
    | returnth => exact hbad fun hret => (returnth_raw hret).mp h.raw hret
    | _ => exact hbad trivial

/-- Timer 0 overflows, and timer 1 counts. -/
def tickAfterOverflow : List Event :=
  [.overflow ⟨0, by decide⟩, .returnth, .delta, .count ⟨1, by decide⟩ 5, .delta, .returnth]

/-- A fade begins on channel 0, and a cycle of it is over. -/
def fadeCycle : List Event :=
  [.storeConf1 0 0x80000000, .update, .updateth, .delta, .recalc ⟨0, by decide⟩ true 0, .delta,
    .recalc ⟨0, by decide⟩ false 1, .returnth]

/-- The overflow is forgotten at the next tick of another timer; the duty-end event is never seen. -/
theorem overflow_lost :
    let chan : Nat → Chan := fun _ => ⟨none, 0, 0, 0, 0, 0, false, 0⟩
    let w := tickAfterOverflow.foldl Watched.step (Watched.init chan)
    let v := fadeCycle.foldl Watched.step (Watched.init chan)
    w.intRaw = 1 ∧ w.m.dev.intRaw = 0 ∧ v.m.intEv 8 = true ∧ v.intRaw = 0x100 ∧ v.m.dev.intRaw = 0 := by
  decide

end Watched

end LedcMod

end Espmod.Ledc
