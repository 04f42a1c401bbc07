/-
# Espmod.Adc.Converter — the two analog converters

`esp32adc1` and `esp32adc2` share their shape. `soc` notes the channel, the time at which the
conversion will be over, and that nothing has disturbed it; `busy` compares that time with the present;
`getraw` reads the level of the channel noted and turns it into steps. A converter has one set of these
fields, whoever started it. The second one is also out of use while the WiFi is initialised.

The conversion is computed in single precision. Levels are rationals here, and `roundF32` is what each
operation of the source rounds its exact result to.
-/
import Mathlib.Data.Rat.Floor
import Mathlib.Tactic.Common

namespace Espmod.Adc

/-! ## §1 — single precision -/

/-- `2 ^ e`. -/
def pow2 (e : Int) : ℚ := if 0 ≤ e then (2 ^ e.toNat : Nat) else 1 / (2 ^ (-e).toNat : Nat)

/-- The exponent of a positive number: the largest `e` with `2 ^ e ≤ x`. -/
def exponent (x : ℚ) : Int :=
  let e := (Nat.log2 x.num.toNat : Int) - Nat.log2 x.den
  if pow2 (e + 1) ≤ x then e + 1 else if pow2 e ≤ x then e else e - 1

/-- To the nearest integer, and to the even one of two that are equally near. -/
def roundEven (x : ℚ) : Int :=
  let k := ⌊x⌋
  if x - k < 1 / 2 then k
  else if 1 / 2 < x - k then k + 1
  else if k % 2 = 0 then k else k + 1

/-- The `float` a non-negative number rounds to: 24 binary digits, fewer below `2 ^ -126`. -/
def roundF32 (x : ℚ) : ℚ :=
  if x = 0 then 0
  else
    let ulp := pow2 (max (exponent x) (-126) - 23)
    (roundEven (x / ulp) : ℚ) * ulp

theorem pow2_pos (e : Int) : 0 < pow2 e := by
  unfold pow2
  split
  · exact Nat.cast_pos.mpr (Nat.two_pow_pos _)
  · exact one_div_pos.mpr (Nat.cast_pos.mpr (Nat.two_pow_pos _))

theorem roundEven_nonneg {x : ℚ} (h : 0 ≤ x) : 0 ≤ roundEven x := by
  have hfloor : 0 ≤ ⌊x⌋ := Int.floor_nonneg.mpr h
  unfold roundEven
  dsimp only
  split
  · exact hfloor
  · split
    · omega
    · split <;> omega

/-- Rounding keeps the sign. -/
theorem roundF32_nonneg {x : ℚ} (h : 0 ≤ x) : 0 ≤ roundF32 x := by
  unfold roundF32
  split
  · exact le_refl 0
  · have hulp := pow2_pos (max (exponent x) (-126) - 23)
    have hscaled := roundEven_nonneg (div_nonneg h hulp.le)
    exact mul_nonneg (Int.cast_nonneg hscaled) hulp.le

/-! ## §2 — the conversion -/

/-- `adc_atten_t`. -/
inductive AdcAtten where
  | db0
  | db2_5
  | db6
  | db11
deriving Repr, DecidableEq

/-- The level that gives all ones. -/
def AdcAtten.top : AdcAtten → ℚ
  | db0 => roundF32 (11 / 10)
  | db2_5 => roundF32 (3 / 2)
  | db6 => roundF32 (11 / 5)
  | db11 => roundF32 (39 / 10)

/-- `getraw` from the sample on. -/
def convert (width : Nat) (atten : AdcAtten) (sample : ℚ) : Int :=
  let top := atten.top
  let low : ℚ := 0
  let bitmask : Nat := 2 ^ width - 1
  if top ≤ sample then bitmask
  else if sample ≤ low then 0
  else
    let step := roundF32 (roundF32 (top - low) / bitmask)
    ⌊roundF32 (roundF32 (sample - low) / step)⌋

theorem AdcAtten.top_nonneg (atten : AdcAtten) : 0 ≤ atten.top := by
  cases atten <;> exact roundF32_nonneg (by norm_num)

/-- A conversion never fails. -/
theorem convert_nonneg (width : Nat) (atten : AdcAtten) (sample : ℚ) :
    0 ≤ convert width atten sample := by
  unfold convert
  dsimp only
  split
  · exact Int.natCast_nonneg _
  · split
    · exact Int.le_refl 0
    next hlow =>
      have hsample : 0 ≤ sample - 0 := by
        rw [sub_zero]
        exact (not_le.mp hlow).le
      have htop : 0 ≤ atten.top - 0 := by
        rw [sub_zero]
        exact atten.top_nonneg
      have hstep := roundF32_nonneg (div_nonneg (roundF32_nonneg htop) (Nat.cast_nonneg (2 ^ width - 1)))
      exact Int.floor_nonneg.mpr (roundF32_nonneg (div_nonneg (roundF32_nonneg hsample) hstep))

/-! ## §3 — the converter -/

inductive AdcUnit where
  | adc1
  | adc2
deriving Repr, DecidableEq

/-- `esp32adc1` or `esp32adc2`, with the levels on its channels. `runningonchannel` is -1 before the
first start. Times are in nanoseconds. -/
structure Converter where
  level : Nat → ℚ
  atten : Nat → AdcAtten
  width : Nat
  runningonchannel : Int
  endtime : Nat
  corrupted : Bool
  powerOn : Bool

/-- The channels `getraw` reads. -/
def AdcUnit.channels : AdcUnit → Nat
  | adc1 => 8
  | adc2 => 10

/-- Whether the WiFi keeps the converter from being used. -/
def AdcUnit.blocked : AdcUnit → Bool → Bool
  | adc1, _ => false
  | adc2, wifi => wifi

namespace Converter

/-- A converter after construction. -/
def new (level : Nat → ℚ) (width : Nat) : Converter where
  level := level
  atten _ := .db0
  width := width
  runningonchannel := -1
  endtime := 0
  corrupted := true
  powerOn := true

/-- `soc`. A channel out of range only prints a warning. -/
def soc (now : Nat) (channel : Int) (a : Converter) : Converter :=
  if !a.powerOn then a
  else { a with
    runningonchannel := channel
    endtime := now + 500 * (a.width + 4)
    corrupted := false }

/-- `busy`. -/
def busy (blocked : Bool) (now : Nat) (a : Converter) : Bool :=
  if a.corrupted then false
  else if !a.powerOn then false
  else if blocked then true
  else if a.endtime = 0 then false
  else if a.runningonchannel = -1 then false
  else decide (now < a.endtime)

/-- `getraw`. -/
def getraw (channels : Nat) (blocked : Bool) (now : Nat) (a : Converter) : Int :=
  if a.busy blocked now then -1
  else if a.corrupted then -1
  else if !a.powerOn then 0
  else if blocked then -1
  else if 0 ≤ a.runningonchannel ∧ a.runningonchannel < channels then
    convert a.width (a.atten a.runningonchannel.toNat) (a.level a.runningonchannel.toNat)
  else -1

/-- The conversion of a channel, as `adcEnd` returns it. -/
def conversion (a : Converter) (channel : Nat) : Nat :=
  (convert a.width (a.atten channel) (a.level channel) % 65536).toNat

@[simp] theorem conversion_soc (a : Converter) (now : Nat) (ch : Int) (channel : Nat) :
    (a.soc now ch).conversion channel = a.conversion channel := by
  unfold soc
  split <;> rfl

@[simp] theorem powerOn_soc (a : Converter) (now : Nat) (ch : Int) : (a.soc now ch).powerOn = a.powerOn := by
  unfold soc
  split <;> rfl

@[simp] theorem width_soc (a : Converter) (now : Nat) (ch : Int) : (a.soc now ch).width = a.width := by
  unfold soc
  split <;> rfl

/-- A converter that has been started for `channel`, to be ready at `t`. -/
structure Running (a : Converter) (channel : Int) (t : Nat) : Prop where
  channel : a.runningonchannel = channel
  endtime : a.endtime = t
  clean : a.corrupted = false
  powerOn : a.powerOn = true

theorem running_soc {a : Converter} (h : a.powerOn = true) (now : Nat) (channel : Int) :
    (a.soc now channel).Running channel (now + 500 * (a.width + 4)) := by
  have hon : ¬ (!a.powerOn) = true := by
    rw [h]
    exact Bool.false_ne_true
  unfold soc
  rw [if_neg hon]
  exact ⟨rfl, rfl, rfl, h⟩

/-- A running converter is busy until its time. -/
theorem Running.busy {a : Converter} {channel : Nat} {t : Nat} (h : a.Running channel t) (ht : t ≠ 0)
    (now : Nat) : a.busy false now = decide (now < t) := by
  have hch : a.runningonchannel ≠ -1 := by
    rw [h.channel]
    omega
  unfold Converter.busy
  rw [h.clean, h.powerOn, h.endtime, if_neg Bool.false_ne_true, if_neg (by simp),
    if_neg Bool.false_ne_true, if_neg ht, if_neg hch]

/-- From then on it returns the conversion of its channel. -/
theorem Running.getraw {a : Converter} {channel t channels : Nat} (h : a.Running channel t) (ht : t ≠ 0)
    {now : Nat} (hnow : t ≤ now) (hch : channel < channels) :
    a.getraw channels false now = convert a.width (a.atten channel) (a.level channel) := by
  have hbusy : a.busy false now = false := by
    rw [h.busy ht]
    exact decide_eq_false (Nat.not_lt.mpr hnow)
  have hrange : (0 : Int) ≤ channel ∧ (channel : Int) < channels := by omega
  unfold Converter.getraw
  rw [hbusy, h.clean, h.powerOn, h.channel, if_neg Bool.false_ne_true, if_neg Bool.false_ne_true,
    if_neg (by simp), if_neg Bool.false_ne_true, if_pos hrange]
  rfl

end Converter

end Espmod.Adc
