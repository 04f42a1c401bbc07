/-
# Espmod.Gpio.Bulk — the ROM calls for all pins at once

`gpio_output_set` makes one assignment of each request register and asks for two updates; the calls it
stands for are a `digitalWrite` for every pin of the masks and a `gpio_output_disable` for every pin to
disable, in whatever order. The two leave the same levels and enables. The call for the high pins
differs on the pins from 34 on: `digitalWrite` ignores them, for they are inputs only, while
`gpio_output_set_high` writes all eight bits of the output register.

On the input side a loop ORs a moving mask into a word that is not cleared first. What it adds are the
pins that exist and read high.
-/
import Espmod.Gpio.Sound

namespace Espmod.Gpio

open Espmod.Lib

/-! ## §1 — the calls for one pin -/

/-- What the masks of `gpio_output_set` ask for, pin by pin. -/
inductive PinCall where
  | digitalWrite (pin : Nat) (val : Bool)
  | outputDisable (pin : Nat)
deriving Repr, DecidableEq

/-- The calls that the masks stand for, bit `n` being pin `base + n`. -/
def Asked (base : Nat) (set clear enable disable : BitVec 32) : PinCall → Prop
  | .digitalWrite pin true => base ≤ pin ∧ (set &&& enable).getLsbD (pin - base) = true
  | .digitalWrite pin false => base ≤ pin ∧ (clear &&& enable).getLsbD (pin - base) = true
  | .outputDisable pin => base ≤ pin ∧ disable.getLsbD (pin - base) = true

namespace Board

def pinCall (b : Board) : PinCall → Board
  | .digitalWrite pin val => b.digitalWrite pin val
  | .outputDisable pin => b.gpioOutputDisable pin

theorem Sound.pinCall {b : Board} (h : Sound b) (c : PinCall) : Sound (b.pinCall c) := by
  cases c with
  | digitalWrite pin val => exact h.digitalWrite pin val
  | outputDisable pin => exact h.gpioOutputDisable pin

/-- The level in the output register, and the bit in the enable register. -/
def level (b : Board) (pin : Nat) : Bool := b.m.gpio.out.data.bit pin
def enabled (b : Board) (pin : Nat) : Bool := b.m.gpio.enable.data.bit pin

/-- `digitalWrite` sets the level of a pin that can be an output. -/
theorem Sound.digitalWrite_bits {b : Board} (h : Sound b) (pin : Nat) (val : Bool) (q : Nat) :
    (b.digitalWrite pin val).level q = (if q = pin ∧ q < 34 then val else b.level q) ∧
      (b.digitalWrite pin val).enabled q = b.enabled q := by
  have hlevel : (b.digitalWrite pin val).level q =
      (digitalWriteNodel pin val b.m.gpio).out.applycs.data.bit q := rfl
  have henabled : (b.digitalWrite pin val).enabled q =
      (digitalWriteNodel pin val b.m.gpio).enable.data.bit q := rfl
  rw [hlevel, henabled]
  by_cases hpin : pin < 34
  · have hbits : ∀ val, (digitalWriteNodel pin val b.m.gpio).out.applycs.data.bit q =
        if q = pin then val else b.level q := by
      intro val
      cases val with
      | true =>
        rw [digitalWriteNodel_high hpin]
        exact Port.bit_set h.dev.out (by omega) q
      | false =>
        rw [digitalWriteNodel_low hpin]
        exact Port.bit_clear h.dev.out (by omega) q
    refine ⟨?_, ?_⟩
    · rw [hbits val]
      by_cases hq : q = pin
      · rw [if_pos hq, if_pos ⟨hq, hq ▸ hpin⟩]
      · rw [if_neg hq, if_neg fun hboth => hq hboth.1]
    · cases val with
      | true => rw [digitalWriteNodel_high hpin]; rfl
      | false => rw [digitalWriteNodel_low hpin]; rfl
  · have hskip : digitalWriteNodel pin val b.m.gpio = b.m.gpio := by
      -- `digitalWrite` has no branch for this pin
      have h32 : ¬ pin < 32 := by omega
      cases val <;> simp [digitalWriteNodel, hpin, h32]
    have hnot : ¬ (q = pin ∧ q < 34) := fun hboth => hpin (hboth.1 ▸ hboth.2)
    rw [hskip, h.dev.out, if_neg hnot]
    exact ⟨rfl, rfl⟩

/-- `gpio_output_disable` takes the enable of the pin away. A pin that it refuses has none. -/
theorem Sound.outputDisable_bits {b : Board} (h : Sound b) (pin q : Nat) :
    (b.gpioOutputDisable pin).level q = b.level q ∧
      (b.gpioOutputDisable pin).enabled q = (b.enabled q && !decide (q = pin)) := by
  cases hv : gpioIsValidGpio pin with
  | false =>
    have hskip : b.gpioOutputDisable pin = b := by
      unfold Board.gpioOutputDisable
      rw [hv]
      rfl
    rw [hskip]
    refine ⟨rfl, ?_⟩
    by_cases hq : q = pin
    · have hoff : b.enabled q = false := by
        by_contra hon
        -- no call enables a pin that the driver would refuse
        have hvalid := h.dev.valid q (Bool.eq_true_of_not_eq_false hon)
        rw [hq, hv] at hvalid
        exact Bool.false_ne_true hvalid
      rw [hoff]
      rfl
    · simp [hq]
  | true =>
    obtain ⟨_, hview⟩ := h.gpioOutputDisable_spec hv
    have hdev : (b.gpioOutputDisable pin).m.gpio = b.m.gpio.withEnable pin false :=
      congrArg View.dev hview
    unfold level enabled
    rw [hdev]
    refine ⟨rfl, ?_⟩
    refine (Port.bit_clear h.dev.enable (valid_ne_zero hv).2 q).trans ?_
    by_cases hq : q = pin
    · simp [hq]
    · simp [hq]

/-! ## §2 — a run of such calls -/

/-- The level of a pin after a run that writes it, if at all, `v` only. -/
theorem Sound.run_level {b : Board} (h : Sound b) {q : Nat} (hq : q < 34) {v : Bool}
    (calls : List PinCall) (hv : ∀ val, .digitalWrite q val ∈ calls → val = v) :
    (calls.foldl Board.pinCall b).level q = if .digitalWrite q v ∈ calls then v else b.level q := by
  induction calls generalizing b with
  | nil => simp
  | cons c calls ih =>
    rw [List.foldl_cons, ih (h.pinCall c) fun val hval => hv val (List.mem_cons_of_mem _ hval)]
    -- a later write of the pin decides, and if there is none the first call does
    by_cases hlater : PinCall.digitalWrite q v ∈ calls
    · rw [if_pos hlater, if_pos (List.mem_cons_of_mem _ hlater)]
    · rw [if_neg hlater]
      cases c with
      | outputDisable pin =>
        have hnot : PinCall.digitalWrite q v ∉ PinCall.outputDisable pin :: calls := by
          simp [hlater]
        rw [if_neg hnot]
        exact (h.outputDisable_bits pin q).1
      | digitalWrite pin val =>
        refine (h.digitalWrite_bits pin val q).1.trans ?_
        by_cases hpin : q = pin
        · subst hpin
          have hval := hv val List.mem_cons_self
          rw [if_pos ⟨rfl, hq⟩, hval, if_pos List.mem_cons_self]
        · have hnot : PinCall.digitalWrite q v ∉ PinCall.digitalWrite pin val :: calls := by
            simp [hlater, hpin]
          rw [if_neg hnot, if_neg fun hboth => hpin hboth.1]

/-- The enable of a pin after a run. -/
theorem Sound.run_enabled {b : Board} (h : Sound b) (q : Nat) (calls : List PinCall) :
    (calls.foldl Board.pinCall b).enabled q =
      (b.enabled q && !decide (PinCall.outputDisable q ∈ calls)) := by
  induction calls generalizing b with
  | nil => simp
  | cons c calls ih =>
    rw [List.foldl_cons, ih (h.pinCall c)]
    cases c with
    | digitalWrite pin val =>
      rw [show (b.pinCall (.digitalWrite pin val)).enabled q = b.enabled q from
        (h.digitalWrite_bits pin val q).2]
      simp
    | outputDisable pin =>
      rw [show (b.pinCall (.outputDisable pin)).enabled q = (b.enabled q && !decide (q = pin)) from
        (h.outputDisable_bits pin q).2]
      by_cases hpin : q = pin <;> simp [hpin]

/-! ## §3 — the two calls for many pins -/

/-- A word assigned to the low half of a request register that was clear. -/
theorem bit_low (w : BitVec 32) (b : Bits) (hb : b = .zero) (q : Nat) :
    ({ b with low := w } : Bits).bit q = (decide (q < 32) && w.getLsbD q) := by
  subst hb
  unfold Bits.bit Bits.zero
  by_cases hq : q < 32
  · simp [hq]
  · simp [hq]

/-- And to the high half, which is eight bits wide. -/
theorem bit_high (w : BitVec 32) (b : Bits) (hb : b = .zero) (q : Nat) :
    ({ b with high := w.setWidth 8 } : Bits).bit q =
      (decide (32 ≤ q ∧ q < 40) && w.getLsbD (q - 32)) := by
  subst hb
  unfold Bits.bit Bits.zero
  by_cases hq : q < 32
  · simp [hq, Nat.not_le.mpr hq]
  · rw [if_neg hq, BitVec.getLsbD_setWidth]
    have h8 : decide (q - 32 < 8) = decide (32 ≤ q ∧ q < 40) := by
      apply decide_eq_decide.mpr
      omega
    rw [h8]

/-- **`gpio_output_set`, bit by bit.** -/
theorem Sound.gpioOutputSet_bits {b : Board} (h : Sound b) (set clear enable disable : BitVec 32)
    (q : Nat) :
    (b.gpioOutputSet set clear enable disable).level q =
        (b.level q && !(decide (q < 32) && (clear &&& enable).getLsbD q) ||
          decide (q < 32) && (set &&& enable).getLsbD q) ∧
      (b.gpioOutputSet set clear enable disable).enabled q =
        (b.enabled q && !(decide (q < 32) && disable.getLsbD q)) := by
  obtain ⟨hts, htc⟩ := Port.zero_of_folded h.dev.out
  obtain ⟨hets, hetc⟩ := Port.zero_of_folded h.dev.enable
  constructor
  · refine (Port.bit_applycs _ q).trans ?_
    show (b.m.gpio.out.data.bit q &&
      !({ b.m.gpio.out.w1tc with low := clear &&& enable } : Bits).bit q ||
        ({ b.m.gpio.out.w1ts with low := set &&& enable } : Bits).bit q) = _
    rw [bit_low _ _ hts, bit_low _ _ htc]
    rfl
  · refine (Port.bit_applycs _ q).trans ?_
    show (b.m.gpio.enable.data.bit q &&
      !({ b.m.gpio.enable.w1tc with low := disable } : Bits).bit q ||
        b.m.gpio.enable.w1ts.bit q) = _
    rw [bit_low _ _ hetc, hets, Bits.bit_zero, Bool.or_false]
    rfl

/-- **`gpio_output_set_high`, bit by bit.** -/
theorem Sound.gpioOutputSetHigh_bits {b : Board} (h : Sound b)
    (set clear enable disable : BitVec 32) (q : Nat) :
    (b.gpioOutputSetHigh set clear enable disable).level q =
        (b.level q && !(decide (32 ≤ q ∧ q < 40) && (clear &&& enable).getLsbD (q - 32)) ||
          decide (32 ≤ q ∧ q < 40) && (set &&& enable).getLsbD (q - 32)) ∧
      (b.gpioOutputSetHigh set clear enable disable).enabled q =
        (b.enabled q && !(decide (32 ≤ q ∧ q < 40) && disable.getLsbD (q - 32))) := by
  obtain ⟨hts, htc⟩ := Port.zero_of_folded h.dev.out
  obtain ⟨hets, hetc⟩ := Port.zero_of_folded h.dev.enable
  constructor
  · refine (Port.bit_applycs _ q).trans ?_
    show (b.m.gpio.out.data.bit q &&
      !({ b.m.gpio.out.w1tc with high := (clear &&& enable).setWidth 8 } : Bits).bit q ||
        ({ b.m.gpio.out.w1ts with high := (set &&& enable).setWidth 8 } : Bits).bit q) = _
    rw [bit_high _ _ hts, bit_high _ _ htc]
    rfl
  · refine (Port.bit_applycs _ q).trans ?_
    show (b.m.gpio.enable.data.bit q &&
      !({ b.m.gpio.enable.w1tc with high := disable.setWidth 8 } : Bits).bit q ||
        b.m.gpio.enable.w1ts.bit q) = _
    rw [bit_high _ _ hetc, hets, Bits.bit_zero, Bool.or_false]
    rfl

/-! ## §4 — one against the other -/

section Masks

variable {b : Board} {base : Nat} {set clear enable disable : BitVec 32} {calls : List PinCall}

/-- A bit of a mask as a pin. -/
def masked (base : Nat) (w : BitVec 32) (q : Nat) : Bool := decide (base ≤ q) && w.getLsbD (q - base)

theorem masked_iff (w : BitVec 32) (q : Nat) :
    masked base w q = true ↔ base ≤ q ∧ w.getLsbD (q - base) = true := by
  unfold masked
  rw [Bool.and_eq_true, decide_eq_true_eq]

/-- No pin is asked to be both high and low. -/
theorem not_both (hdis : set &&& clear = 0) (q : Nat) (hs : masked base (set &&& enable) q = true) :
    masked base (clear &&& enable) q = false := by
  by_contra hc
  have hset := ((masked_iff _ q).mp hs).2
  have hclear := ((masked_iff _ q).mp (Bool.eq_true_of_not_eq_false hc)).2
  rw [BitVec.getLsbD_and] at hset hclear
  have hboth : (set &&& clear).getLsbD (q - base) = true := by
    rw [BitVec.getLsbD_and, (Bool.and_eq_true_iff.mp hset).1, (Bool.and_eq_true_iff.mp hclear).1]
    rfl
  rw [hdis] at hboth
  exact absurd hboth (by simp)

/-- The level of a pin that can be an output, after the calls the masks stand for. -/
theorem Sound.asked_level (h : Sound b)
    (hcalls : ∀ c, c ∈ calls ↔ Asked base set clear enable disable c) (hdis : set &&& clear = 0)
    {q : Nat} (hq : q < 34) :
    (calls.foldl Board.pinCall b).level q =
      (b.level q && !masked base (clear &&& enable) q || masked base (set &&& enable) q) := by
  have hhigh : PinCall.digitalWrite q true ∈ calls ↔ masked base (set &&& enable) q = true :=
    (hcalls _).trans (masked_iff _ q).symm
  have hlow : PinCall.digitalWrite q false ∈ calls ↔ masked base (clear &&& enable) q = true :=
    (hcalls _).trans (masked_iff _ q).symm
  cases hset : masked base (set &&& enable) q with
  | true =>
    -- every write of this pin is high
    have hno := not_both hdis q hset
    have honly : ∀ val, .digitalWrite q val ∈ calls → val = true := by
      intro val hval
      cases val with
      | true => rfl
      | false => exact absurd ((hlow.mp hval).symm.trans hno) (by decide)
    rw [h.run_level hq calls honly, if_pos (hhigh.mpr hset), Bool.or_true]
  | false =>
    have honly : ∀ val, .digitalWrite q val ∈ calls → val = false := by
      intro val hval
      cases val with
      | true => exact absurd ((hhigh.mp hval).symm.trans hset) (by decide)
      | false => rfl
    rw [h.run_level hq calls honly, Bool.or_false]
    cases hclear : masked base (clear &&& enable) q with
    | true => rw [if_pos (hlow.mpr hclear), Bool.not_true, Bool.and_false]
    | false =>
      have hnot : PinCall.digitalWrite q false ∉ calls :=
        fun hin => absurd ((hlow.mp hin).symm.trans hclear) (by decide)
      rw [if_neg hnot, Bool.not_false, Bool.and_true]

/-- The enable of a pin after them. -/
theorem Sound.asked_enabled (h : Sound b)
    (hcalls : ∀ c, c ∈ calls ↔ Asked base set clear enable disable c) (q : Nat) :
    (calls.foldl Board.pinCall b).enabled q = (b.enabled q && !masked base disable q) := by
  rw [h.run_enabled q calls]
  congr 2
  have hiff : PinCall.outputDisable q ∈ calls ↔ masked base disable q = true :=
    (hcalls _).trans (masked_iff _ q).symm
  cases hmask : masked base disable q with
  | true => exact decide_eq_true (hiff.mpr hmask)
  | false => exact decide_eq_false fun hin => absurd ((hiff.mp hin).symm.trans hmask) (by decide)

/-- The pins from 34 on keep their level in such calls. -/
theorem Sound.run_inputs (h : Sound b) (calls : List PinCall) {q : Nat} (hq : 34 ≤ q) :
    (calls.foldl Board.pinCall b).level q = b.level q := by
  induction calls generalizing b with
  | nil => rfl
  | cons c calls ih =>
    rw [List.foldl_cons, ih (h.pinCall c)]
    cases c with
    | outputDisable pin => exact (h.outputDisable_bits pin q).1
    | digitalWrite pin val =>
      have hnot : ¬ (q = pin ∧ q < 34) := fun hboth => Nat.not_lt.mpr hq hboth.2
      exact (h.digitalWrite_bits pin val q).1.trans (if_neg hnot)

theorem masked_low (w : BitVec 32) (q : Nat) :
    masked 0 w q = (decide (q < 32) && w.getLsbD q) := by
  unfold masked
  by_cases hq : q < 32
  · simp [hq]
  · simp [hq, BitVec.getLsbD_of_ge w q (Nat.not_lt.mp hq)]

theorem masked_high (w : BitVec 32) {q : Nat} (hq : q < 40) :
    masked 32 w q = (decide (32 ≤ q ∧ q < 40) && w.getLsbD (q - 32)) := by
  unfold masked
  simp [hq]

/-- **`gpio_output_set` is the calls for one pin.** -/
theorem Sound.outputSet_asked (h : Sound b)
    (hcalls : ∀ c, c ∈ calls ↔ Asked 0 set clear enable disable c) (hdis : set &&& clear = 0)
    (q : Nat) :
    (b.gpioOutputSet set clear enable disable).level q = (calls.foldl Board.pinCall b).level q ∧
      (b.gpioOutputSet set clear enable disable).enabled q =
        (calls.foldl Board.pinCall b).enabled q := by
  obtain ⟨hlevel, henabled⟩ := h.gpioOutputSet_bits set clear enable disable q
  rw [hlevel, henabled, h.asked_enabled hcalls]
  rw [← masked_low, ← masked_low, ← masked_low]
  refine ⟨?_, rfl⟩
  by_cases hq : q < 34
  · rw [h.asked_level hcalls hdis hq]
  · rw [h.run_inputs calls (Nat.not_lt.mp hq)]
    have h32 : ¬ q < 32 := by omega
    simp [masked_low, h32]

/-- **`gpio_output_set_high` is the calls for one pin**, on the pins that can be outputs; and on every
pin as to the enables. -/
theorem Sound.outputSetHigh_asked (h : Sound b)
    (hcalls : ∀ c, c ∈ calls ↔ Asked 32 set clear enable disable c) (hdis : set &&& clear = 0)
    (q : Nat) :
    (q < 34 → (b.gpioOutputSetHigh set clear enable disable).level q =
      (calls.foldl Board.pinCall b).level q) ∧
      (b.gpioOutputSetHigh set clear enable disable).enabled q =
        (calls.foldl Board.pinCall b).enabled q := by
  obtain ⟨hlevel, henabled⟩ := h.gpioOutputSetHigh_bits set clear enable disable q
  rw [hlevel, henabled, h.asked_enabled hcalls]
  constructor
  · intro hq
    have h40 : q < 40 := by omega
    rw [← masked_high _ h40, ← masked_high _ h40, h.asked_level hcalls hdis hq]
  · by_cases hq : q < 40
    · rw [← masked_high _ hq]
    · -- the registers have no bit for it
      have hoff : b.enabled q = false := Bits.bit_of_ge _ (Nat.not_lt.mp hq)
      rw [hoff]
      rfl

end Masks

/-! ## §5 — the inputs -/

/-- The loop of `gpio_input_get` and `gpio_input_get_high`, with `n` pins to come. -/
def inputLoop (sample : Nat → GnLogic) (b : Board) : Nat → Nat → BitVec 32 → BitVec 32 → BitVec 32
  | 0, _, _, res => res
  | n + 1, g, mask, res =>
    inputLoop sample b n (g + 1) (mask <<< 1)
      (if getgpio g && b.digitalRead g (sample g) then res ||| mask else res)

/-- `gpio_input_get`, the pads resolving to `sample`. The variable `res` is not initialised: it is what
the stack holds. -/
def gpioInputGet (sample : Nat → GnLogic) (res : BitVec 32) (b : Board) : BitVec 32 :=
  inputLoop sample b 32 0 1 res

/-- `gpio_input_get_high`. -/
def gpioInputGetHigh (sample : Nat → GnLogic) (res : BitVec 32) (b : Board) : BitVec 32 :=
  inputLoop sample b 8 32 1 res

/-- **The loop adds the pins that exist and read high.** The mask is bit `j`, for pin `g`. -/
theorem inputLoop_bit (sample : Nat → GnLogic) (b : Board) (n g j : Nat) (res : BitVec 32)
    (hj : j + n ≤ 32) (i : Nat) :
    (inputLoop sample b n g (1#32 <<< j) res).getLsbD i =
      (res.getLsbD i || decide (j ≤ i ∧ i < j + n) &&
        (getgpio (g + (i - j)) && b.digitalRead (g + (i - j)) (sample (g + (i - j))))) := by
  induction n generalizing g j res with
  | zero =>
    have hnone : ¬ (j ≤ i ∧ i < j + 0) := by omega
    rw [inputLoop, decide_eq_false hnone, Bool.false_and, Bool.or_false]
  | succ n ih =>
    have hmask : (1#32 <<< j) <<< 1 = 1#32 <<< (j + 1) := by rw [← BitVec.shiftLeft_add]
    rw [inputLoop, hmask, ih (g + 1) (j + 1) _ (by omega)]
    have hbit : (1#32 <<< j).getLsbD i = decide (i = j) := by
      rw [← BitVec.twoPow_eq, BitVec.getLsbD_twoPow]
      by_cases hi : i = j
      · subst hi
        have hlt : i < 32 := by omega
        simp [hlt]
      · simp [hi, Ne.symm hi]
    by_cases hi : i = j
    · -- the bit of this turn
      subst hi
      have hlater : ¬ (i + 1 ≤ i ∧ i < i + 1 + n) := by omega
      have hnow : i ≤ i ∧ i < i + (n + 1) := by omega
      rw [decide_eq_false hlater, decide_eq_true hnow, Bool.false_and, Bool.or_false, Bool.true_and,
        Nat.sub_self, Nat.add_zero]
      cases hread : getgpio g && b.digitalRead g (sample g) with
      | true => simp [BitVec.getLsbD_or, hbit]
      | false => simp
    · -- another one
      have hrange : decide (j + 1 ≤ i ∧ i < j + 1 + n) = decide (j ≤ i ∧ i < j + (n + 1)) := by
        apply decide_eq_decide.mpr
        omega
      have hkeep : (if getgpio g && b.digitalRead g (sample g) then res ||| 1#32 <<< j
          else res).getLsbD i = res.getLsbD i := by
        split
        · rw [BitVec.getLsbD_or, hbit, decide_eq_false hi, Bool.or_false]
        · rfl
      rw [hkeep, hrange]
      by_cases hin : j ≤ i ∧ i < j + (n + 1)
      · have hpin : g + 1 + (i - (j + 1)) = g + (i - j) := by omega
        rw [hpin]
      · rw [decide_eq_false hin, Bool.false_and, Bool.false_and]

/-! ## §6 — many pins at once -/

/-- **The calls for many pins are those for one pin.** `gpio_output_set` leaves the levels and enables
that the calls for one pin leave, made in any order. `gpio_output_set_high` does too, but that it
writes the levels of the pins from 34 on, which `digitalWrite` leaves alone. And the words read have
the bit of every pin that exists and reads high. -/
theorem many_as_one {b : Board} (h : Reachable b) (set clear enable disable : BitVec 32)
    (hdis : set &&& clear = 0) :
    (∀ calls : List PinCall, (∀ c, c ∈ calls ↔ Asked 0 set clear enable disable c) → ∀ q,
      (b.gpioOutputSet set clear enable disable).level q = (calls.foldl pinCall b).level q ∧
      (b.gpioOutputSet set clear enable disable).enabled q = (calls.foldl pinCall b).enabled q) ∧
    (∀ calls : List PinCall, (∀ c, c ∈ calls ↔ Asked 32 set clear enable disable c) → ∀ q,
      (b.gpioOutputSetHigh set clear enable disable).level q =
        (if q < 34 then (calls.foldl pinCall b).level q
        else if q < 40 then
          b.level q && !masked 32 (clear &&& enable) q || masked 32 (set &&& enable) q
        else b.level q) ∧
      (b.gpioOutputSetHigh set clear enable disable).enabled q =
        (calls.foldl pinCall b).enabled q) ∧
    (∀ (sample : Nat → GnLogic) (res : BitVec 32) (pin : Nat), getgpio pin = true →
      b.digitalRead pin (sample pin) = true →
      (pin < 32 → (gpioInputGet sample res b).getLsbD pin = true) ∧
      (32 ≤ pin → (gpioInputGetHigh sample res b).getLsbD (pin - 32) = true)) := by
  refine ⟨fun calls hcalls q => h.sound.outputSet_asked hcalls hdis q, fun calls hcalls q => ?_,
    fun sample res pin hg hread => ⟨fun hlt => ?_, fun hge => ?_⟩⟩
  · obtain ⟨hlevel, henabled⟩ := h.sound.outputSetHigh_asked hcalls hdis q
    refine ⟨?_, henabled⟩
    split
    next hq => exact hlevel hq
    next =>
      rw [(h.sound.gpioOutputSetHigh_bits set clear enable disable q).1]
      split
      next hq => rw [masked_high _ hq, masked_high _ hq]
      next hq =>
        have hnot : ¬ (32 ≤ q ∧ q < 40) := fun hboth => hq hboth.2
        rw [decide_eq_false hnot, Bool.false_and, Bool.false_and, Bool.or_false, Bool.not_false,
          Bool.and_true]
  · refine (inputLoop_bit sample b 32 0 0 res (by omega) pin).trans ?_
    have hin : 0 ≤ pin ∧ pin < 0 + 32 := by omega
    rw [decide_eq_true hin, Nat.sub_zero, Nat.zero_add, hg, hread, Bool.and_self, Bool.and_self,
      Bool.or_true]
  · have hpin : pin < 40 := by
      unfold getgpio at hg
      have hall : ∀ p ∈ gpioPins, p < 40 := by decide
      exact hall pin (by simpa using hg)
    refine (inputLoop_bit sample b 8 32 0 res (by omega) (pin - 32)).trans ?_
    have hin : 0 ≤ pin - 32 ∧ pin - 32 < 0 + 8 := by omega
    rw [decide_eq_true hin, Nat.sub_zero, Nat.add_sub_cancel' hge, hg, hread, Bool.and_self,
      Bool.and_self, Bool.or_true]

/-- The pin of a single bit. -/
theorem pin_of_bit {base i : Nat} (hi : i < 32) (q : Nat) :
    base ≤ q ∧ (BitVec.twoPow 32 i).getLsbD (q - base) = true ↔ q = base + i := by
  rw [BitVec.getLsbD_twoPow]
  simp only [Bool.and_eq_true, decide_eq_true_eq]
  omega

/-- The calls that masks of one bit each ask for. -/
theorem asked_of_bits (base i j k : Nat) {set clear enable disable : BitVec 32}
    (hset : set &&& enable = BitVec.twoPow 32 i) (hclear : clear &&& enable = BitVec.twoPow 32 j)
    (hdisable : disable = BitVec.twoPow 32 k) (hi : i < 32) (hj : j < 32) (hk : k < 32) (c : PinCall) :
    c ∈ [.digitalWrite (base + i) true, .digitalWrite (base + j) false, .outputDisable (base + k)] ↔
      Asked base set clear enable disable c := by
  match c with
  | .digitalWrite pin true =>
    show _ ↔ base ≤ pin ∧ (set &&& enable).getLsbD (pin - base) = true
    rw [hset, pin_of_bit hi]
    simp
  | .digitalWrite pin false =>
    show _ ↔ base ≤ pin ∧ (clear &&& enable).getLsbD (pin - base) = true
    rw [hclear, pin_of_bit hj]
    simp
  | .outputDisable pin =>
    show _ ↔ base ≤ pin ∧ disable.getLsbD (pin - base) = true
    rw [hdisable, pin_of_bit hk]
    simp

/-- Three pins at once in each word, after power-up; and pin 21, an input whose pad is high. -/
theorem threePins_written :
    (∀ q, (quiet.gpioOutputSet 0x10 0x20 0x30 0x40).level q =
          ([PinCall.digitalWrite 4 true, .digitalWrite 5 false, .outputDisable 6].foldl pinCall quiet).level q ∧
        (quiet.gpioOutputSet 0x10 0x20 0x30 0x40).enabled q =
          ([PinCall.digitalWrite 4 true, .digitalWrite 5 false, .outputDisable 6].foldl pinCall quiet).enabled q) ∧
      (∀ q, (quiet.gpioOutputSetHigh 1 2 3 4).enabled q =
        ([PinCall.digitalWrite 32 true, .digitalWrite 33 false, .outputDisable 34].foldl pinCall quiet).enabled q) ∧
      (gpioInputGet (fun _ => .logic1) 0 quiet).getLsbD 21 = true := by
  have hquiet : Reachable quiet := .powerUp _ _
  have hlow : ∀ c, c ∈ [PinCall.digitalWrite 4 true, .digitalWrite 5 false, .outputDisable 6] ↔
      Asked 0 0x10 0x20 0x30 0x40 c :=
    asked_of_bits 0 4 5 6 (by decide) (by decide) (by decide) (by decide) (by decide) (by decide)
  have hhigh : ∀ c, c ∈ [PinCall.digitalWrite 32 true, .digitalWrite 33 false, .outputDisable 34] ↔
      Asked 32 1 2 3 4 c :=
    asked_of_bits 32 0 1 2 (by decide) (by decide) (by decide) (by decide) (by decide) (by decide)
  exact ⟨(many_as_one hquiet 0x10 0x20 0x30 0x40 (by decide)).1 _ hlow,
    fun q => ((many_as_one hquiet 1 2 3 4 (by decide)).2.1 _ hhigh q).2,
    ((many_as_one hquiet 0 0 0 0 (by decide)).2.2 (fun _ => .logic1) 0 21 rfl rfl).1 (by decide)⟩

/-- Pin 34 set after power-up: the register takes it, `digitalWrite` does not. -/
theorem inputPin_written : ∃ (b : Board) (calls : List PinCall), Reachable b ∧
    (4 &&& 0 : BitVec 32) = 0 ∧ (∀ c, c ∈ calls ↔ Asked 32 4 0 4 0 c) ∧
    (b.gpioOutputSetHigh 4 0 4 0).level 34 ≠ (calls.foldl pinCall b).level 34 := by
  have hsound : Sound quiet := Reachable.sound (.powerUp _ _)
  refine ⟨quiet, [.digitalWrite 34 true], .powerUp _ _, rfl, fun c => ?_, ?_⟩
  · rw [List.mem_singleton]
    match c with
    | .digitalWrite pin true =>
      show _ ↔ 32 ≤ pin ∧ (BitVec.twoPow 32 2).getLsbD (pin - 32) = true
      rw [pin_of_bit (by decide)]
      simp
    | .digitalWrite pin false => simp [Asked]
    | .outputDisable pin => simp [Asked]
  · have hbulk : (quiet.gpioOutputSetHigh 4 0 4 0).level 34 = true := by
      rw [(hsound.gpioOutputSetHigh_bits 4 0 4 0 34).1]
      exact Bool.or_true _
    have hsingle : (quiet.digitalWrite 34 true).level 34 = false :=
      (hsound.digitalWrite_bits 34 true 34).1
    intro heq
    exact absurd (hbulk.symm.trans (heq.trans hsingle)) (by decide)

end Board

end Espmod.Gpio
