/-
# Espmod.Ledc.Mirror — what the LED controller shows of its counters

Firmware follows a fade in `duty_rd` and a timer in `value`, which `returnth` copies from the signals
between the threads. The struct has two groups and the signals are flat, and for the second group the
copy subtracts the offset on the wrong side: `duty_r[un-8]` for channel `un`, and `timer_cnt[un]` for a
timer of either group. So the second group mirrors the first. The duty-end events are read at the flat
index, and clear `duty_start` where they should.
-/
import Espmod.Lib.Loop
import Espmod.Ledc.Returns
import Mathlib.Algebra.Group.Nat.Defs

namespace Espmod.Ledc

open Espmod.Lib Espmod.Lib.Loop

namespace LedcMod

/-! ## §1 — the mirror -/

/-- **The mirror**: what an iteration leaves in the struct, against the signals and events it found.
Channels and timers are numbered through the two groups. -/
structure Mirrors (m m' : LedcMod) : Prop where
  duty : ∀ g < 2, ∀ i < 8, m'.dev.dutyRd (8 * g + i) = (m.dutyR (8 * g + i)).cur
  timer : ∀ g < 2, ∀ i < 4, m'.dev.timerValue (4 * g + i) = (m.timerCnt (4 * g + i)).cur
  start : ∀ ch < 16, m'.dev.conf1 ch =
    if m.intEv (ch + LEDC_DUTYEND_TIMER_INTR) then m.dev.conf1 ch &&& 0x7FFFFFFF else m.dev.conf1 ch

/-- The signals of the two groups are alike, and each value fits its field. -/
structure Paired (m : LedcMod) : Prop where
  duty : ∀ i < 8, (m.dutyR (8 + i)).cur = (m.dutyR i).cur
  timer : ∀ i < 4, (m.timerCnt (4 + i)).cur = (m.timerCnt i).cur
  dutyFits : ∀ i < 8, (m.dutyR i).cur.toNat < 2 ^ 25
  timerFits : ∀ i < 4, (m.timerCnt i).cur.toNat < 2 ^ 20

/-! ## §2 — fields -/

/-- A field of `n` bits keeps the words that fit it, and no others. -/
theorem and_field_eq {w mask : BitVec 32} {n : Nat} (hmask : mask.toNat = 2 ^ n - 1) :
    w &&& mask = w ↔ w.toNat < 2 ^ n := by
  have hmod : (w &&& mask).toNat = w.toNat % 2 ^ n := by
    rw [BitVec.toNat_and, hmask, Nat.and_two_pow_sub_one_eq_mod]
  constructor
  · intro h
    rw [← h, hmod]
    exact Nat.mod_lt _ (Nat.two_pow_pos n)
  · intro h
    apply BitVec.eq_of_toNat_eq
    rw [hmod, Nat.mod_eq_of_lt h]

theorem and_duty_eq (w : BitVec 32) : w &&& 0x1FFFFFF = w ↔ w.toNat < 2 ^ 25 :=
  and_field_eq rfl

theorem and_timer_eq (w : BitVec 32) : w &&& 0xFFFFF = w ↔ w.toNat < 2 ^ 20 :=
  and_field_eq rfl

/-! ## §3 — the loops -/

variable {m : LedcMod}

/-- The signal that is copied to a channel's `duty_rd`. -/
def dutySource (ch : Nat) : Nat := if ch < LEDC_CHANNELS / 2 then ch else ch - 8

theorem returnChannel_dutyRd (d : LedcDev) (ch : Nat) :
    (m.returnChannel d ch).dutyRd = set d.dutyRd ch ((m.dutyR (dutySource ch)).cur &&& 0x1FFFFFF) := by
  unfold returnChannel dutySource
  split <;> split <;> rfl

theorem returnChannel_conf1 (d : LedcDev) (ch : Nat) :
    (m.returnChannel d ch).conf1 = set d.conf1 ch
      (if m.intEv (ch + LEDC_DUTYEND_TIMER_INTR) then d.conf1 ch &&& 0x7FFFFFFF else d.conf1 ch) := by
  have hsame : set d.conf1 ch (d.conf1 ch) = d.conf1 := by
    funext k
    unfold set
    split
    next hk => rw [hk]
    next => rfl
  unfold returnChannel
  split <;> split <;> first | rfl | exact hsame.symm

theorem channels_dutyRd (d : LedcDev) {ch : Nat} (hch : ch < 16) :
    ((List.range LEDC_CHANNELS).foldl m.returnChannel d).dutyRd ch =
      (m.dutyR (dutySource ch)).cur &&& 0x1FFFFFF := by
  rw [foldl_stores LedcDev.dutyRd (fun k _ => (m.dutyR (dutySource k)).cur &&& 0x1FFFFFF)
    (fun d k => returnChannel_dutyRd d k)]
  exact if_pos hch

theorem channels_conf1 (d : LedcDev) {ch : Nat} (hch : ch < 16) :
    ((List.range LEDC_CHANNELS).foldl m.returnChannel d).conf1 ch =
      if m.intEv (ch + LEDC_DUTYEND_TIMER_INTR) then d.conf1 ch &&& 0x7FFFFFFF else d.conf1 ch := by
  rw [foldl_stores LedcDev.conf1
    (fun k v => if m.intEv (k + LEDC_DUTYEND_TIMER_INTR) then v &&& 0x7FFFFFFF else v)
    (fun d k => returnChannel_conf1 d k)]
  exact if_pos hch

/-- A timer of the first group is shown in its place and four above. -/
theorem returnTimer_timerValue (d : LedcDev) (un : Nat) :
    (m.returnTimer d un).timerValue =
      set (set d.timerValue un ((m.timerCnt un).cur &&& 0xFFFFF)) (un + 4)
        ((m.timerCnt un).cur &&& 0xFFFFF) := by
  unfold returnTimer
  split <;> split <;> rfl

theorem timers_timerValue (d : LedcDev) {g i : Nat} (hg : g < 2) (hi : i < 4) :
    ((List.range (LEDC_TIMERS / 2)).foldl m.returnTimer d).timerValue (4 * g + i) =
      (m.timerCnt i).cur &&& 0xFFFFF := by
  show ([0, 1, 2, 3].foldl m.returnTimer d).timerValue (4 * g + i) = _
  simp only [List.foldl_cons, List.foldl_nil, returnTimer_timerValue, set]
  -- eight places, of which two show one timer
  have hplace : (4 * g + i = 0 + 4 ∨ 4 * g + i = 0) ∧ i = 0 ∨ (4 * g + i = 1 + 4 ∨ 4 * g + i = 1) ∧ i = 1 ∨
      (4 * g + i = 2 + 4 ∨ 4 * g + i = 2) ∧ i = 2 ∨ (4 * g + i = 3 + 4 ∨ 4 * g + i = 3) ∧ i = 3 := by
    omega
  rcases hplace with ⟨hk | hk, rfl⟩ | ⟨hk | hk, rfl⟩ | ⟨hk | hk, rfl⟩ | ⟨hk | hk, rfl⟩ <;>
    rw [hk] <;> rfl

theorem timers_frame (l : List Nat) (d : LedcDev) :
    (l.foldl m.returnTimer d).dutyRd = d.dutyRd ∧ (l.foldl m.returnTimer d).conf1 = d.conf1 := by
  induction l generalizing d with
  | nil => exact ⟨rfl, rfl⟩
  | cons un l ih =>
    have hone : (m.returnTimer d un).dutyRd = d.dutyRd ∧ (m.returnTimer d un).conf1 = d.conf1 := by
      unfold returnTimer
      split <;> split <;> exact ⟨rfl, rfl⟩
    rw [List.foldl_cons]
    exact ⟨(ih _).1.trans hone.1, (ih _).2.trans hone.2⟩

theorem returnClear_frame (d : LedcDev) :
    (m.returnClear d).dutyRd = d.dutyRd ∧ (m.returnClear d).timerValue = d.timerValue ∧
      (m.returnClear d).conf1 = d.conf1 := by
  unfold returnClear
  split <;> exact ⟨rfl, rfl, rfl⟩

/-! ## §4 — an iteration -/

/-- What an iteration copies, and which `duty_start` it clears. -/
theorem returnth_dutyRd (hret : m.returning = true) {ch : Nat} (hch : ch < 16) :
    m.returnth.dev.dutyRd ch = (m.dutyR (dutySource ch)).cur &&& 0x1FFFFFF := by
  unfold returnth
  rw [if_pos hret]
  dsimp only
  rw [(returnClear_frame _).1, (timers_frame _ _).1, channels_dutyRd _ hch]

theorem returnth_timerValue (hret : m.returning = true) {g i : Nat} (hg : g < 2) (hi : i < 4) :
    m.returnth.dev.timerValue (4 * g + i) = (m.timerCnt i).cur &&& 0xFFFFF := by
  unfold returnth
  rw [if_pos hret]
  dsimp only
  rw [(returnClear_frame _).2.1, timers_timerValue _ hg hi]

theorem returnth_conf1 (hret : m.returning = true) {ch : Nat} (hch : ch < 16) :
    m.returnth.dev.conf1 ch = if m.intEv (ch + LEDC_DUTYEND_TIMER_INTR)
      then m.dev.conf1 ch &&& 0x7FFFFFFF else m.dev.conf1 ch := by
  unfold returnth
  rw [if_pos hret]
  dsimp only
  rw [(returnClear_frame _).2.2, (timers_frame _ _).2, channels_conf1 _ hch]

/-- The first group is shown as it is, and the second as the first. -/
theorem dutySource_group {g i : Nat} (hg : g < 2) (hi : i < 8) : dutySource (8 * g + i) = i := by
  unfold dutySource LEDC_CHANNELS
  split <;> omega

/-- **The struct mirrors the signals exactly when the two groups carry the same values**, of no more
bits than their fields have: for every state in which `returnth` is due. -/
theorem mirrors_returnth (m : LedcMod) (hret : m.returning = true) :
    Mirrors m m.returnth ↔ m.Paired := by
  have hduty : ∀ g < 2, ∀ i < 8, m.returnth.dev.dutyRd (8 * g + i) =
      (m.dutyR i).cur &&& 0x1FFFFFF := by
    intro g hg i hi
    rw [returnth_dutyRd hret (by omega), dutySource_group hg hi]
  constructor
  · intro h
    -- the first group is shown as it is, so no bit of it is lost
    have hfirst : ∀ i < 8, (m.dutyR i).cur &&& 0x1FFFFFF = (m.dutyR i).cur := by
      intro i hi
      have hshown := h.duty 0 (by decide) i hi
      rwa [hduty 0 (by decide) i hi, Nat.mul_zero, Nat.zero_add] at hshown
    have hcount : ∀ i < 4, (m.timerCnt i).cur &&& 0xFFFFF = (m.timerCnt i).cur := by
      intro i hi
      have hshown := h.timer 0 (by decide) i hi
      rwa [returnth_timerValue hret (by decide) hi, Nat.mul_zero, Nat.zero_add] at hshown
    refine ⟨fun i hi => ?_, fun i hi => ?_, fun i hi => ?_, fun i hi => ?_⟩
    · have hshown := h.duty 1 (by decide) i hi
      rw [hduty 1 (by decide) i hi, hfirst i hi] at hshown
      exact hshown.symm
    · have hshown := h.timer 1 (by decide) i hi
      rw [returnth_timerValue hret (by decide) hi, hcount i hi] at hshown
      exact hshown.symm
    · exact (and_duty_eq _).mp (hfirst i hi)
    · exact (and_timer_eq _).mp (hcount i hi)
  · intro h
    refine ⟨fun g hg i hi => ?_, fun g hg i hi => ?_, fun ch hch => returnth_conf1 hret hch⟩
    · rw [hduty g hg i hi, (and_duty_eq _).mpr (h.dutyFits i hi)]
      -- the second group is shown as the first, which is the same
      have hgroup : g = 0 ∨ g = 1 := by omega
      rcases hgroup with rfl | rfl
      · rw [Nat.mul_zero, Nat.zero_add]
      · exact (h.duty i hi).symm
    · rw [returnth_timerValue hret hg hi, (and_timer_eq _).mpr (h.timerFits i hi)]
      have hgroup : g = 0 ∨ g = 1 := by omega
      rcases hgroup with rfl | rfl
      · rw [Nat.mul_zero, Nat.zero_add]
      · exact (h.timer i hi).symm

/-- A state in which `returnth` is due: channels 0 and 8 at duty `a` and `b`, timers 0 and 4 at `c` and
`d`, and nothing else. -/
def counted (a b c d : BitVec 32) : LedcMod :=
  { init (fun _ => ⟨none, 0, 0, 0, 0, 0, false, 0⟩) with
    dutyR := fun ch => .init (if ch = 0 then a else if ch = 8 then b else 0)
    timerCnt := fun tim => .init (if tim = 0 then c else if tim = 4 then d else 0)
    returning := true }

/-- With both groups at the same counts the struct mirrors them. -/
theorem mirrors_alike :
    (counted 5 5 7 7).returning = true ∧ Mirrors (counted 5 5 7 7) (counted 5 5 7 7).returnth := by
  refine ⟨rfl, (mirrors_returnth (counted 5 5 7 7) rfl).mpr ⟨?_, ?_, ?_, ?_⟩⟩ <;> decide

/-- Channel 8 is shown with the duty of channel 0, and timer 4 with the count of timer 0. -/
theorem second_group_lost :
    (counted 5 9 7 3).returnth.dev.dutyRd 8 = 5 ∧ (counted 5 9 7 3).returnth.dev.timerValue 4 = 7 ∧
      ¬ Mirrors (counted 5 9 7 3) (counted 5 9 7 3).returnth := by
  refine ⟨by decide, by decide, fun h => ?_⟩
  exact absurd (h.duty 1 (by decide) 0 (by decide)) (by decide)

end LedcMod

end Espmod.Ledc
