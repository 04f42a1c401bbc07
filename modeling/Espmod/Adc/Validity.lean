/-
# Espmod.Adc.Validity — conversions that are valid, and waits that end

A converter refuses a result that is not there yet or that has been disturbed: `corrupted` is set by a
power switch, and by a change of the width or of the attenuation while the converter is busy. The
second converter counts as busy as long as the WiFi is initialised. `getraw` then refuses as it should, and
`wait_eoc` waits for an end time that may be over: the difference of the two times wraps, and so does the
time that the simulator makes of it, so that the wait is over at once.

Here times are the counts of picoseconds that the simulator keeps in 64 bits. A conversion that would end
beyond them is taken for one that is over.
-/
import Espmod.Adc.Converter
import Espmod.Lib.Run
import Mathlib.Algebra.Group.Nat.Defs

namespace Espmod.Adc

open Espmod.Lib

/-! ## §1 — the other operations of a converter -/

/-- `adc_bits_width_t`. -/
inductive AdcBitsWidth where
  | bit9
  | bit10
  | bit11
  | bit12
deriving Repr, DecidableEq

/-- `getadcwidth`. -/
def AdcBitsWidth.bits : AdcBitsWidth → Nat
  | bit9 => 9
  | bit10 => 10
  | bit11 => 11
  | bit12 => 12

namespace Converter

/-- `set_width`. -/
def setWidth (blocked : Bool) (now w : Nat) (a : Converter) : Converter :=
  { a with corrupted := a.corrupted || a.busy blocked now, width := w }

/-- `set_atten`. -/
def setAtten (blocked : Bool) (now channel : Nat) (atten : AdcAtten) (a : Converter) : Converter :=
  { a with
    corrupted := a.corrupted || a.busy blocked now && decide (a.runningonchannel = channel)
    atten := fun c => if c = channel then atten else a.atten c }

/-- `switchon`. -/
def switchon (on : Bool) (a : Converter) : Converter :=
  { a with corrupted := true, endtime := 0, powerOn := on }

end Converter

theorem channels_pos (u : AdcUnit) : 0 < u.channels := by
  cases u <;> exact Nat.succ_pos _

/-! ## §2 — a converter in 64-bit time -/

/-- The values of an `sc_time`. -/
def timeRange : Nat := 2 ^ 64

/-- `sc_time(500, SC_NS) * (width + 4)`. -/
def conversionTime (width : Nat) : Nat := 500000 * (width + 4)

/-- A conversion that was started: its channel, when it is over, and whether something has spoiled it. -/
structure Conversion where
  channel : Nat
  done : Nat
  spoiled : Bool
deriving Repr, DecidableEq

/-- A converter, the WiFi and the time. `started` is the last conversion that was started with the power
on. `raws` is what `getraw` has returned, and whether there was a valid conversion then; `waits` is
when `wait_eoc` was called, when it returns, and until when it may wait. -/
structure AdcRun where
  a : Converter
  wifi : Bool
  now : Nat
  started : Option Conversion
  raws : List (Int × Bool)
  waits : List (Nat × Nat × Nat)

namespace AdcRun

/-- A call on one converter, a change of the WiFi or of the levels on the channels, or time that passes. -/
inductive Event (u : AdcUnit) where
  | soc (channel : Fin u.channels)
  | setWidth (width : AdcBitsWidth)
  | setAtten (channel : Fin u.channels) (atten : AdcAtten)
  | switchon (on : Bool)
  | wifi (initialized : Bool)
  | getraw
  | waitEoc
  | levels (level : Nat → ℚ)
  | tick (d : Nat)

/-- After construction. The width is not initialised. -/
def init (level : Nat → ℚ) (width : Nat) (wifi : Bool) : AdcRun :=
  ⟨.new level width, wifi, 0, none, [], []⟩

/-- The conversion that is running. -/
def running (s : AdcRun) : Option Conversion :=
  s.started.filter fun c => !c.spoiled && decide (s.now < c.done)

/-- The conversion that is over. -/
def elapsed (s : AdcRun) : Option Conversion :=
  s.started.filter fun c => !c.spoiled && decide (c.done ≤ s.now)

/-- What was started is spoiled if it is running and `p` of its channel. -/
def spoil (p : Nat → Bool) (s : AdcRun) : Option Conversion :=
  s.started.map fun c => { c with spoiled := c.spoiled || decide (s.now < c.done) && p c.channel }

/-- `soc`. -/
def soc (channel : Nat) (s : AdcRun) : AdcRun :=
  if !s.a.powerOn then s
  else
    { s with
      a := { s.a with
        runningonchannel := channel
        endtime := (s.now + conversionTime s.a.width) % timeRange
        corrupted := false }
      started := some ⟨channel, s.now + conversionTime s.a.width, false⟩ }

/-- `wait_eoc`: how long it waits. The difference of two times has 64 bits. -/
def waitTime (blocked : Bool) (s : AdcRun) : Nat :=
  if s.a.busy blocked s.now then (s.a.endtime + timeRange - s.now) % timeRange else 0

/-- When a wait of a length is over. The sum of two times has 64 bits as well, and an event whose time has
gone by is due at once. -/
def wakes (d : Nat) (s : AdcRun) : Nat := max s.now ((s.now + d) % timeRange)

def step (u : AdcUnit) (s : AdcRun) : Event u → AdcRun
  | .soc channel => s.soc channel.val
  | .setWidth width =>
    { s with
      a := s.a.setWidth (u.blocked s.wifi) s.now width.bits
      started := s.spoil fun _ => true }
  | .setAtten channel atten =>
    { s with
      a := s.a.setAtten (u.blocked s.wifi) s.now channel.val atten
      started := s.spoil fun c => decide (c = channel.val) }
  | .switchon on =>
    { s with
      a := s.a.switchon on
      started := s.started.map fun c => { c with spoiled := true } }
  | .wifi initialized => { s with wifi := initialized }
  | .getraw =>
    { s with
      raws := s.raws ++ [(s.a.getraw u.channels (u.blocked s.wifi) s.now, s.elapsed.isSome)] }
  | .waitEoc =>
    { s with
      waits := s.waits ++ [(s.now, s.wakes (s.waitTime (u.blocked s.wifi)),
        (s.running.map Conversion.done).getD s.now)] }
  | .levels level => { s with a := { s.a with level := level } }
  | .tick d => { s with now := min (s.now + d) (timeRange - 1) }

/-! ## §3 — the specification -/

/-- **Results are valid and waits end**: a result that is not negative was there when it was asked for,
and no wait goes beyond the end of the conversion that is running, or takes time if there is none. -/
structure Honest (s : AdcRun) : Prop where
  valid : ∀ r ∈ s.raws, 0 ≤ r.1 → r.2 = true
  ends : ∀ w ∈ s.waits, w.2.1 ≤ w.2.2

/-- No conversion is started so late that its end time does not fit. -/
def Timely (u : AdcUnit) (s : AdcRun) : Event u → Prop
  | .soc _ => s.a.powerOn = true → s.now + conversionTime s.a.width < timeRange
  | _ => True

instance (u : AdcUnit) (s : AdcRun) (e : Event u) : Decidable (Timely u s e) := by
  cases e <;> unfold Timely <;> infer_instance

/-! ## §4 — results -/

/-- A converter that is not corrupted has been started and left alone since. -/
structure Kept (s : AdcRun) : Prop where
  valid : ∀ r ∈ s.raws, 0 ≤ r.1 → r.2 = true
  clean : s.a.corrupted = false → ∃ c : Conversion, s.started = some c ∧ c.spoiled = false ∧
    s.a.endtime = c.done ∧ s.a.runningonchannel = c.channel ∧ s.a.powerOn = true ∧ c.done ≠ 0

theorem kept_init (level : Nat → ℚ) (width : Nat) (wifi : Bool) : Kept (init level width wifi) where
  valid _ h := nomatch h
  clean h := nomatch h

variable {s : AdcRun}

/-- A converter that was started and left alone is busy until its time is over, and as long as it is
blocked. -/
theorem busy_started {c : Conversion} (blocked : Bool) (hclean : s.a.corrupted = false)
    (hch : s.a.runningonchannel = c.channel) (hon : s.a.powerOn = true) (hne : s.a.endtime ≠ 0) :
    s.a.busy blocked s.now = (blocked || decide (s.now < s.a.endtime)) := by
  have hchannel : s.a.runningonchannel ≠ -1 := by
    rw [hch]
    omega
  unfold Converter.busy
  rw [hclean, hon, if_neg Bool.false_ne_true, if_neg (by simp), if_neg hne, if_neg hchannel]
  cases blocked <;> rfl

theorem busy_clean {c : Conversion} {blocked : Bool} (hclean : s.a.corrupted = false)
    (hend : s.a.endtime = c.done) (hch : s.a.runningonchannel = c.channel) (hon : s.a.powerOn = true)
    (hne : c.done ≠ 0) : s.a.busy blocked s.now = (blocked || decide (s.now < c.done)) := by
  rw [← hend] at hne ⊢
  exact busy_started blocked hclean hch hon hne

/-- A change of the width leaves a clean converter if it is not busy. -/
theorem setWidth_quiet {blocked : Bool} {w : Nat} (hclean : (s.a.setWidth blocked s.now w).corrupted = false) :
    s.a.corrupted = false ∧ (s.a.busy blocked s.now = true → ∀ c : Nat, s.a.runningonchannel = c →
      true = false) := by
  obtain ⟨hold, hbusy⟩ := Bool.or_eq_false_iff.mp hclean
  exact ⟨hold, fun hrun => absurd (hrun.symm.trans hbusy) Bool.noConfusion⟩

/-- A change of the attenuation leaves a clean converter if it is not busy with that channel. -/
theorem setAtten_quiet {blocked : Bool} {channel : Nat} {atten : AdcAtten}
    (hclean : (s.a.setAtten blocked s.now channel atten).corrupted = false) :
    s.a.corrupted = false ∧ (s.a.busy blocked s.now = true → ∀ c : Nat, s.a.runningonchannel = c →
      decide (c = channel) = false) := by
  obtain ⟨hold, hother⟩ := Bool.or_eq_false_iff.mp hclean
  refine ⟨hold, fun hrun c hc => decide_eq_false fun heq => ?_⟩
  rw [hrun, Bool.true_and] at hother
  exact absurd (hc.trans (by rw [heq])) (of_decide_eq_false hother)

/-- A change that spoils what is running leaves a clean converter only if nothing is. -/
theorem Kept.spoil (h : Kept s) (blocked : Bool) {p : Nat → Bool} {a : Converter}
    (hcorrupted : a.corrupted = false → s.a.corrupted = false ∧
      (s.a.busy blocked s.now = true → ∀ c : Nat, s.a.runningonchannel = c → p c = false))
    (hend : a.endtime = s.a.endtime) (hch : a.runningonchannel = s.a.runningonchannel)
    (hon : a.powerOn = s.a.powerOn) : Kept { s with a := a, started := s.spoil p } where
  valid := h.valid
  clean hclean := by
    obtain ⟨hold, hquiet⟩ := hcorrupted hclean
    obtain ⟨c, hstarted, hspoiled, hdone, hchannel, hpower, hne⟩ := h.clean hold
    refine ⟨c, ?_, hspoiled, hend.trans hdone, hch.trans hchannel, hon.trans hpower, hne⟩
    show s.spoil p = some c
    unfold AdcRun.spoil
    rw [hstarted, Option.map_some]
    have hkeep : (decide (s.now < c.done) && p c.channel) = false := by
      by_cases hrun : s.now < c.done
      · have hbusy : s.a.busy blocked s.now = true := by
          rw [busy_clean hold hdone hchannel hpower hne, decide_eq_true hrun, Bool.or_true]
        rw [hquiet hbusy c.channel hchannel, Bool.and_false]
      · rw [decide_eq_false hrun, Bool.false_and]
    rw [hkeep, Bool.or_false]

theorem Kept.setWidth (h : Kept s) (blocked : Bool) (w : Nat) :
    Kept { s with a := s.a.setWidth blocked s.now w, started := s.spoil fun _ => true } :=
  h.spoil blocked setWidth_quiet rfl rfl rfl

theorem Kept.setAtten (h : Kept s) (blocked : Bool) (channel : Nat) (atten : AdcAtten) :
    Kept { s with
      a := s.a.setAtten blocked s.now channel atten
      started := s.spoil fun c => decide (c = channel) } :=
  h.spoil blocked setAtten_quiet rfl rfl rfl

theorem Kept.switchon (h : Kept s) (on : Bool) (started : Option Conversion) :
    Kept { s with a := s.a.switchon on, started := started } where
  valid := h.valid
  clean hclean := nomatch hclean

/-- A start with the power on. -/
theorem Kept.soc (h : Kept s) (channel : Nat)
    (hok : s.a.powerOn = true → s.now + conversionTime s.a.width < timeRange) : Kept (s.soc channel) := by
  unfold AdcRun.soc
  cases hon : s.a.powerOn with
  | false => exact h
  | true =>
    have hlt := hok hon
    refine ⟨h.valid, fun _ => ?_⟩
    refine ⟨⟨channel, s.now + conversionTime s.a.width, false⟩, rfl, rfl, Nat.mod_eq_of_lt hlt, rfl, hon, ?_⟩
    show s.now + conversionTime s.a.width ≠ 0
    unfold conversionTime
    omega

/-- **A result that is not negative is valid.** -/
theorem Kept.getraw (h : Kept s) {channels : Nat} {blocked : Bool}
    (hraw : 0 ≤ s.a.getraw channels blocked s.now) : s.elapsed.isSome = true := by
  unfold Converter.getraw at hraw
  split at hraw
  next => omega
  next hbusy =>
    split at hraw
    next => omega
    next hclean =>
      obtain ⟨c, hstarted, hspoiled, hdone, hchannel, hpower, hne⟩ :=
        h.clean (Bool.eq_false_of_not_eq_true hclean)
      rw [busy_clean (Bool.eq_false_of_not_eq_true hclean) hdone hchannel hpower hne,
        Bool.or_eq_true, decide_eq_true_eq, not_or, Nat.not_lt] at hbusy
      unfold AdcRun.elapsed
      rw [hstarted, Option.filter_some, hspoiled, decide_eq_true hbusy.2]
      rfl

/-- **One step** with a conversion that ends in time. -/
theorem Kept.step {u : AdcUnit} (h : Kept s) {e : Event u} (hok : Timely u s e) : Kept (s.step u e) := by
  cases e with
  | soc channel => exact h.soc channel.val hok
  | setWidth width => exact h.setWidth (u.blocked s.wifi) width.bits
  | setAtten channel atten => exact h.setAtten (u.blocked s.wifi) channel.val atten
  | switchon on => exact h.switchon on _
  | wifi initialized => exact ⟨h.valid, h.clean⟩
  | levels level => exact ⟨h.valid, h.clean⟩
  | tick d => exact ⟨h.valid, h.clean⟩
  | waitEoc => exact ⟨h.valid, h.clean⟩
  | getraw =>
    refine ⟨fun r hr hnonneg => ?_, h.clean⟩
    rcases List.mem_append.mp hr with hold | hnew
    · exact h.valid r hold hnonneg
    · obtain rfl := List.mem_singleton.mp hnew
      exact h.getraw hnonneg

/-! ## §5 — waits -/

/-- A converter that is not corrupted was started, and has been left alone while it was busy. Its end time
is that of the conversion or, if that does not fit, an earlier one. -/
structure Ending (s : AdcRun) : Prop where
  ends : ∀ w ∈ s.waits, w.2.1 ≤ w.2.2
  time : s.now < timeRange ∧ s.a.endtime < timeRange
  clean : s.a.corrupted = false → s.a.powerOn = true ∧ ∃ c : Conversion, s.started = some c ∧
    s.a.runningonchannel = c.channel ∧ s.a.endtime ≤ c.done ∧ (s.now < s.a.endtime → c.spoiled = false)

theorem ending_init (level : Nat → ℚ) (width : Nat) (wifi : Bool) : Ending (init level width wifi) where
  ends _ h := nomatch h
  time := ⟨Nat.two_pow_pos 64, Nat.two_pow_pos 64⟩
  clean h := nomatch h

/-- A converter whose end time has not come is busy. -/
theorem busy_of_lt {c : Conversion} (blocked : Bool) (hclean : s.a.corrupted = false)
    (hch : s.a.runningonchannel = c.channel) (hon : s.a.powerOn = true) (hlt : s.now < s.a.endtime) :
    s.a.busy blocked s.now = true := by
  rw [busy_started blocked hclean hch hon (Nat.ne_of_gt (Nat.zero_lt_of_lt hlt)), decide_eq_true hlt, Bool.or_true]

/-- A change that spoils what is running leaves a clean converter only if it is not busy with that. -/
theorem Ending.spoil (h : Ending s) (blocked : Bool) {p : Nat → Bool} {a : Converter}
    (hcorrupted : a.corrupted = false → s.a.corrupted = false ∧
      (s.a.busy blocked s.now = true → ∀ c : Nat, s.a.runningonchannel = c → p c = false))
    (hend : a.endtime = s.a.endtime) (hch : a.runningonchannel = s.a.runningonchannel)
    (hon : a.powerOn = s.a.powerOn) : Ending { s with a := a, started := s.spoil p } where
  ends := h.ends
  time := ⟨h.time.1, hend ▸ h.time.2⟩
  clean hclean := by
    obtain ⟨hold, hquiet⟩ := hcorrupted hclean
    obtain ⟨hpower, c, hstarted, hchannel, hdone, hspoiled⟩ := h.clean hold
    refine ⟨hon.trans hpower, { c with spoiled := c.spoiled || decide (s.now < c.done) && p c.channel }, ?_,
      hch.trans hchannel, Nat.le_trans (Nat.le_of_eq hend) hdone, fun hlt => ?_⟩
    · show s.spoil p = _
      unfold AdcRun.spoil
      rw [hstarted]
      rfl
    · have hlt : s.now < s.a.endtime := by
        rw [← hend]
        exact hlt
      show (c.spoiled || decide (s.now < c.done) && p c.channel) = false
      rw [hspoiled hlt, hquiet (busy_of_lt blocked hold hchannel hpower hlt) c.channel hchannel, Bool.and_false]
      rfl

/-- **A wait ends with the conversion.** If the end time is over already, so is the wait. -/
theorem Ending.waitEoc (h : Ending s) (blocked : Bool) :
    s.wakes (s.waitTime blocked) ≤ (s.running.map Conversion.done).getD s.now := by
  have hnow : s.now ≤ (s.running.map Conversion.done).getD s.now := by
    cases hr : s.running with
    | none => exact Nat.le_refl _
    | some c =>
      have hfilter := (Option.filter_eq_some_iff.mp hr).2
      rw [Bool.and_eq_true, decide_eq_true_eq] at hfilter
      exact Nat.le_of_lt hfilter.2
  obtain ⟨hin, hendin⟩ := h.time
  unfold wakes waitTime
  split
  next hbusy =>
    have hclean : s.a.corrupted = false := by
      by_contra hno
      rw [Converter.busy, if_pos (Bool.eq_true_of_not_eq_false hno)] at hbusy
      exact Bool.false_ne_true hbusy
    -- both wrap, and what is left is the end time
    have hend : (s.now + (s.a.endtime + timeRange - s.now) % timeRange) % timeRange = s.a.endtime := by
      rw [Nat.add_mod_mod, Nat.add_sub_cancel' (by omega), Nat.add_mod_right, Nat.mod_eq_of_lt hendin]
    rw [hend]
    refine Nat.max_le.mpr ⟨hnow, ?_⟩
    obtain ⟨_, c, hstarted, _, hdone, hspoiled⟩ := h.clean hclean
    by_cases hlt : s.now < s.a.endtime
    · -- the conversion is running, and its end is no earlier than the converter's
      have hrunning : s.running = some c := by
        unfold AdcRun.running
        rw [hstarted, Option.filter_some, hspoiled hlt, decide_eq_true (Nat.lt_of_lt_of_le hlt hdone)]
        rfl
      rw [hrunning]
      exact hdone
    · exact Nat.le_trans (Nat.not_lt.mp hlt) hnow
  next =>
    rw [Nat.add_zero, Nat.mod_eq_of_lt hin, Nat.max_self]
    exact hnow

/-- **One step.** -/
theorem Ending.step {u : AdcUnit} (h : Ending s) (e : Event u) : Ending (s.step u e) := by
  cases e with
  | soc channel =>
    show Ending (s.soc channel.val)
    unfold AdcRun.soc
    cases hon : s.a.powerOn with
    | false => exact h
    | true =>
      refine ⟨h.ends, ⟨h.time.1, Nat.mod_lt _ (Nat.two_pow_pos 64)⟩, fun _ => ⟨hon, ?_⟩⟩
      exact ⟨⟨channel.val, s.now + conversionTime s.a.width, false⟩, rfl, rfl, Nat.mod_le _ _, fun _ => rfl⟩
  | setWidth width => exact h.spoil (u.blocked s.wifi) setWidth_quiet rfl rfl rfl
  | setAtten channel atten => exact h.spoil (u.blocked s.wifi) setAtten_quiet rfl rfl rfl
  | switchon on => exact ⟨h.ends, ⟨h.time.1, Nat.two_pow_pos 64⟩, fun hclean => nomatch hclean⟩
  | wifi initialized => exact ⟨h.ends, h.time, h.clean⟩
  | levels level => exact ⟨h.ends, h.time, h.clean⟩
  | getraw => exact ⟨h.ends, h.time, h.clean⟩
  | tick d =>
    refine ⟨h.ends, ⟨?_, h.time.2⟩, fun hclean => ?_⟩
    · have hrange : 0 < timeRange := Nat.two_pow_pos 64
      show min (s.now + d) (timeRange - 1) < timeRange
      omega
    · obtain ⟨hpower, c, hstarted, hchannel, hdone, hspoiled⟩ := h.clean hclean
      refine ⟨hpower, c, hstarted, hchannel, hdone, fun hlt => hspoiled ?_⟩
      have hlt : min (s.now + d) (timeRange - 1) < s.a.endtime := hlt
      have hin := h.time.1
      omega
  | waitEoc =>
    refine ⟨fun w hw => ?_, h.time, h.clean⟩
    rcases List.mem_append.mp hw with hold | hnew
    · exact h.ends w hold
    · obtain rfl := List.mem_singleton.mp hnew
      exact h.waitEoc (u.blocked s.wifi)

/-! ## §6 — runs -/

/-- **Waits end, and conversions are valid or refused** in every run in which each conversion that is started
ends within the 64 bits of the time. -/
theorem conversions_honest (u : AdcUnit) (level : Nat → ℚ) (width : Nat) (wifi : Bool) (es : List (Event u)) :
    Always (fun _ s => ∀ w ∈ s.waits, w.2.1 ≤ w.2.2) (step u) [] (init level width wifi) es ∧
      (Throughout (Timely u) (step u) (init level width wifi) es →
        Always (fun _ => Honest) (step u) [] (init level width wifi) es) := by
  constructor
  · refine always_of_invariant (I := fun _ => Ending) ?_ ?_ es [] _ (ending_init level width wifi)
    · exact fun _ s h => h.ends
    · exact fun _ s e h => h.step e
  · intro h
    refine always_of_throughout (I := fun _ s => Kept s ∧ Ending s) ?_ ?_ es [] _
      ⟨kept_init level width wifi, ending_init level width wifi⟩ h
    · exact fun _ s hs => ⟨hs.1.valid, hs.2.ends⟩
    · exact fun _ s e hs hok => ⟨hs.1.step hok, hs.2.step e⟩

/-- The second converter converts its channel 0, also while the WiFi blocks it: the second wait is for a
conversion that is over. -/
def converted : List (Event .adc2) :=
  [.setWidth .bit12, .soc ⟨0, channels_pos .adc2⟩, .tick 100, .waitEoc, .tick 8000000, .getraw, .wifi true,
    .waitEoc]

theorem conversions_honest_converted :
    Always (fun _ => Honest) (step .adc2) [] (init (fun _ => 1) 0 false) converted :=
  (conversions_honest .adc2 _ 0 false converted).2 (by decide)

/-- The first converter is started at the last moment there is. Its end time wraps, and it has a result at
once. -/
theorem converts_too_late : ¬ Always (fun _ => Honest) (step .adc1) [] (init (fun _ => 1) 0 false)
    [.setWidth .bit12, .tick (timeRange - 1), .soc ⟨0, channels_pos .adc1⟩, .getraw] := by
  intro h
  have hraws : (List.foldl (step .adc1) (init (fun _ => 1) 0 false)
      [.setWidth .bit12, .tick (timeRange - 1), .soc ⟨0, channels_pos .adc1⟩, .getraw]).raws =
        [(convert 12 .db0 1, false)] := rfl
  have hvalid := h.last.valid (convert 12 .db0 1, false) (hraws ▸ List.mem_singleton_self _)
    (convert_nonneg 12 .db0 1)
  cases hvalid

end AdcRun

end Espmod.Adc
