/-
# Espmod.Gpio.Registers — the registers of the GPIO block

`gpio_dev_t` as far as the matrix reads it. A register that covers all pins comes as a 32-bit word for
pins 0 to 31 and an 8-bit field for pins 32 to 39; the output and the enable register each have a pair
of *write one to set* and *write one to clear* companions, folded into them by `applycsbits` and
`applyoecsbits`. The function selects are one field for each pin or signal, nine bits wide for the
outputs and six for the inputs.
-/
import Mathlib.Tactic.Common

namespace Espmod.Gpio

/-! ## §1 — words over the pins -/

/-- A register over the pins: `out` and `out1.data`, for instance. -/
structure Bits where
  low : BitVec 32
  high : BitVec 8
deriving Repr, DecidableEq

namespace Bits

def zero : Bits := ⟨0, 0⟩

/-- The bit of a pin, as every reader of these registers selects it. -/
def bit (b : Bits) (pin : Nat) : Bool :=
  if pin < 32 then b.low.getLsbD pin else b.high.getLsbD (pin - 32)

/-- The word with only the bit of `pin` set. -/
def single (pin : Nat) : Bits :=
  if pin < 32 then ⟨1#32 <<< pin, 0⟩ else ⟨0, 1#8 <<< (pin - 32)⟩

@[simp] theorem bit_zero (pin : Nat) : zero.bit pin = false := by
  unfold bit zero
  split <;> simp

/-- There are 40 pins. -/
theorem bit_of_ge (b : Bits) {pin : Nat} (h : 40 ≤ pin) : b.bit pin = false := by
  rw [bit, if_neg (by omega)]
  exact BitVec.getLsbD_of_ge _ _ (by omega)

theorem bit_single {pin : Nat} (hpin : pin < 40) (q : Nat) : (single pin).bit q = decide (q = pin) := by
  unfold bit single
  by_cases hp : pin < 32
  · by_cases hq : q < 32
    · rw [if_pos hp, if_pos hq, BitVec.getLsbD_shiftLeft]
      rcases Nat.lt_trichotomy q pin with hlt | heq | hgt
      · simp [hlt, Nat.ne_of_lt hlt]
      · subst heq
        simp [hq]
      · have hne : q - pin ≠ 0 := by omega
        simp [Nat.ne_of_gt hgt, hne]
    · rw [if_pos hp, if_neg hq]
      have hne : q ≠ pin := by omega
      simp [hne]
  · by_cases hq : q < 32
    · rw [if_neg hp, if_pos hq]
      have hne : q ≠ pin := by omega
      simp [hne]
    · rw [if_neg hp, if_neg hq, BitVec.getLsbD_shiftLeft]
      rcases Nat.lt_trichotomy q pin with hlt | heq | hgt
      · have hlt' : q - 32 < pin - 32 := by omega
        simp [hlt', Nat.ne_of_lt hlt]
      · subst heq
        have h8 : q - 32 < 8 := by omega
        simp [h8]
      · have hne : q - 32 - (pin - 32) ≠ 0 := by omega
        simp [Nat.ne_of_gt hgt, hne]

end Bits

/-! ## §2 — a register with its set and clear companions -/

/-- `out`/`out1` or `enable`/`enable1` with the companions. -/
structure Port where
  data : Bits
  w1ts : Bits
  w1tc : Bits
deriving Repr, DecidableEq

namespace Port

def zero : Port := ⟨.zero, .zero, .zero⟩

/-- `applycsbits` and `applyoecsbits`, on the register each is about: `data & ~w1tc | w1ts`, and the
companions are cleared. -/
def applycs (p : Port) : Port where
  data := ⟨p.data.low &&& ~~~p.w1tc.low ||| p.w1ts.low,
    p.data.high &&& ~~~p.w1tc.high ||| p.w1ts.high⟩
  w1ts := .zero
  w1tc := .zero

theorem bit_applycs (p : Port) (pin : Nat) :
    p.applycs.data.bit pin = (p.data.bit pin && !p.w1tc.bit pin || p.w1ts.bit pin) := by
  unfold applycs Bits.bit
  by_cases hpin : pin < 32
  · simp [hpin]
  · simp only [if_neg hpin, BitVec.getLsbD_or, BitVec.getLsbD_and, BitVec.getLsbD_not]
    by_cases h8 : pin - 32 < 8
    · simp [h8]
    · simp [h8, BitVec.getLsbD_of_ge _ _ (Nat.le_of_not_lt h8)]

@[simp] theorem w1ts_applycs (p : Port) : p.applycs.w1ts = .zero := rfl

@[simp] theorem w1tc_applycs (p : Port) : p.applycs.w1tc = .zero := rfl

theorem fold_nothing {w : Nat} (x : BitVec w) : x &&& ~~~0#w ||| 0#w = x := by simp

/-- **Folding is idempotent**: with the companions clear there is nothing left to fold. -/
theorem applycs_applycs (p : Port) : p.applycs.applycs = p.applycs := by
  show Port.mk ⟨p.applycs.data.low &&& ~~~0#32 ||| 0#32, p.applycs.data.high &&& ~~~0#8 ||| 0#8⟩ _ _
    = p.applycs
  rw [fold_nothing, fold_nothing]
  rfl

end Port

/-! ## §3 — the block -/

/-- `gpio_dev_t`: the two ports, `func_out_sel_cfg[].func_sel`, `func_in_sel_cfg[].func_sel` and
`pin[].pad_driver`. -/
structure GpioDev where
  out : Port
  enable : Port
  funcOutSel : Nat → BitVec 9
  funcInSel : Nat → BitVec 6
  padDriver : Nat → Bool

namespace GpioDev

/-- `gpio_matrix::applycsbits`. -/
def applycsbits (d : GpioDev) : GpioDev := { d with out := d.out.applycs }

/-- `gpio_matrix::applyoecsbits`. -/
def applyoecsbits (d : GpioDev) : GpioDev := { d with enable := d.enable.applycs }

/-- Both folds, as the update of every field makes them. -/
def folded (d : GpioDev) : GpioDev := d.applycsbits.applyoecsbits

/-- With both registers folded there is nothing to do. -/
theorem folded_eq {d : GpioDev} (hout : d.out.applycs = d.out) (hen : d.enable.applycs = d.enable) :
    d.folded = d := by
  unfold folded applyoecsbits applycsbits
  rw [hout, hen]

theorem folded_of_enable {d : GpioDev} (hen : d.enable.applycs = d.enable) :
    d.folded = d.applycsbits := by
  unfold folded applyoecsbits applycsbits
  rw [hen]

theorem folded_of_out {d : GpioDev} (hout : d.out.applycs = d.out) : d.folded = d.applyoecsbits := by
  unfold folded applyoecsbits applycsbits
  rw [hout]

@[simp] theorem folded_applycsbits (d : GpioDev) : d.applycsbits.folded = d.folded := by
  simp [folded, applycsbits, applyoecsbits, Port.applycs_applycs]

@[simp] theorem folded_applyoecsbits (d : GpioDev) : d.applyoecsbits.folded = d.folded := by
  simp [folded, applycsbits, applyoecsbits, Port.applycs_applycs]

@[simp] theorem folded_folded (d : GpioDev) : d.folded.folded = d.folded := by
  simp [folded, applycsbits, applyoecsbits, Port.applycs_applycs]

end GpioDev

end Espmod.Gpio
