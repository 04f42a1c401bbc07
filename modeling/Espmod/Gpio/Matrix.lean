/-
# Espmod.Gpio.Matrix — the GPIO matrix and its update thread

Each pin has an output multiplexer whose `function` is a signal: the index of a peripheral output, or
256, 257 and 258 for a low, a high and a released GPIO. The thread `updateth` computes these functions
from the registers. It serves three events. `updategpioreg` folds the output register and patches the
functions that look like a driven GPIO level; `updategpiooe` folds the enable register and patches the
functions that look like a GPIO at all; any other wake-up recomputes every function, copies the input
selections, and passes the open-drain bit of each pin on to its pad.

All three read the `function` signals as they were when the evaluation phase began. `selected` is what
the full computation selects; the lemmas here say what each of the three leaves in the signals for the
next update phase.
-/
import Espmod.Lib.Signal
import Espmod.Gpio.IoMux
import Espmod.Gpio.Registers
import Espmod.Gpio.Routes

namespace Espmod.Gpio

open Espmod.Lib

/-! ## §1 — the block -/

def muxoutDrive0 : Nat := 256
def muxoutDrive1 : Nat := 257
def muxoutDriveZ : Nat := 258

/-- The pins for which `initptr` sets `muxptr`. -/
def muxPins : List Nat :=
  [0, 1, 2, 3, 4, 5, 12, 13, 14, 15, 16, 17, 18, 19, 21, 22, 23, 25, 26, 27, 32, 33, 34, 35, 36, 37,
    38, 39]

/-- `getmux(pin) != NULL`. -/
def getmux (pin : Nat) : Bool := decide (pin < gpiomatrixCnt) && muxPins.contains pin

/-- **A pin has an output multiplexer exactly when it has a pad.** -/
theorem getmux_eq_getgpio (pin : Nat) : getmux pin = getgpio pin := by
  unfold getmux getgpio
  by_cases hlt : pin < gpiomatrixCnt
  · rw [decide_eq_true hlt, Bool.true_and]
    rfl
  · have hnot : gpioPins.contains pin = false := by
      have hmem : pin ∉ gpioPins := by
        intro hmem
        have hall : ∀ p ∈ gpioPins, p < gpiomatrixCnt := by decide
        exact hlt (hall pin hmem)
      simpa using hmem
    rw [hnot, decide_eq_false hlt, Bool.false_and]

/-- `gpio_matrix`: the registers, the `function` signals, the input side and the pads. -/
structure Matrix where
  gpio : GpioDev
  function : Nat → Signal Nat
  routes : Routes
  pads : Nat → IoMux

/-- The three calls that notify `updateth`. -/
inductive Call where
  | updategpioreg
  | updategpiooe
  | update
deriving Repr, DecidableEq

/-- What the full update selects for a pin from the registers as they stand. -/
def selected (d : GpioDev) (pin : Nat) : Nat :=
  if d.funcOutSel pin = 256 then
    if !d.enable.data.bit pin then muxoutDriveZ
    else if d.out.data.bit pin then muxoutDrive1
    else muxoutDrive0
  else (d.funcOutSel pin).toNat

/-- The block as `initptr` and the constructors leave it: the struct cleared, every output at the GPIO
function and released, every input at a tie signal. -/
def Matrix.new (pads : Nat → IoMux) : Matrix where
  gpio :=
    { out := .zero
      enable := .zero
      funcOutSel := fun _ => 256
      funcInSel := fun sig => if sig < 255 then BitVec.ofNat 6 gpiomatrixLogic0 else 0
      padDriver := fun _ => false }
  function := fun _ => Signal.init muxoutDriveZ
  routes := Routes.new
  pads := pads

/-! ## §2 — the update thread -/

/-- What `setbits` writes to the multiplexer of a pin, seeing the function `fn`. -/
def setbitsAt (bits : Bits) (pin fn : Nat) : Option Nat :=
  if getmux pin then
    if fn = muxoutDrive0 ∧ bits.bit pin = true then some muxoutDrive1
    else if fn = muxoutDrive1 ∧ bits.bit pin = false then some muxoutDrive0
    else none
  else none

/-- What `setoebits` writes; it takes the level from `GPIO.out`. -/
def setoebitsAt (out bits : Bits) (pin fn : Nat) : Option Nat :=
  if getmux pin then
    if fn = muxoutDriveZ ∧ bits.bit pin = true then
      some (if out.bit pin then muxoutDrive1 else muxoutDrive0)
    else if (fn = muxoutDrive0 ∨ fn = muxoutDrive1) ∧ bits.bit pin = false then some muxoutDriveZ
    else none
  else none

/-- The pass over the outputs that ends the full update. -/
def outputsAt (d : GpioDev) (pin : Nat) (_ : Nat) : Option Nat :=
  if getgpio pin && getmux pin then some (selected d pin) else none

namespace Matrix

def applycsbits (m : Matrix) : Matrix := { m with gpio := m.gpio.applycsbits }

def applyoecsbits (m : Matrix) : Matrix := { m with gpio := m.gpio.applyoecsbits }

/-- `gpio_matrix::setbits`. -/
def setbits (bits : Bits) (m : Matrix) : Matrix :=
  { m with function := Signal.patch (setbitsAt bits) m.function }

/-- `gpio_matrix::setoebits`. -/
def setoebits (bits : Bits) (m : Matrix) : Matrix :=
  { m with function := Signal.patch (setoebitsAt m.gpio.out.data bits) m.function }

/-- The last part of the full update: the open-drain bits and the output multiplexers. -/
def outputs (m : Matrix) : Matrix :=
  { m with
    pads := fun pin =>
      if getgpio pin then
        (if m.gpio.padDriver pin then (m.pads pin).setOd.2 else (m.pads pin).clrOd.2)
      else m.pads pin
    function := Signal.patch (outputsAt m.gpio) m.function }

/-- One turn of `updateth`, serving the given call. -/
def updateth (m : Matrix) : Call → Matrix
  | .updategpioreg =>
    let m := m.applycsbits
    m.setbits m.gpio.out.data
  | .updategpiooe =>
    let m := m.applyoecsbits
    m.setoebits m.gpio.enable.data
  | .update =>
    let m := m.applycsbits
    let m := m.setbits m.gpio.out.data
    let m := m.applyoecsbits
    let m := m.setoebits m.gpio.enable.data
    let m := { m with routes := m.routes.copy m.gpio.funcInSel }
    m.outputs

/-- The update phase of the `function` signals. -/
def commit (m : Matrix) : Matrix := { m with function := fun pin => (m.function pin).update }

/-! ## §3 — what a turn does to the registers and the functions -/

@[simp] theorem gpio_updategpioreg (m : Matrix) :
    (m.updateth .updategpioreg).gpio = m.gpio.applycsbits := rfl

@[simp] theorem gpio_updategpiooe (m : Matrix) :
    (m.updateth .updategpiooe).gpio = m.gpio.applyoecsbits := rfl

@[simp] theorem gpio_update (m : Matrix) : (m.updateth .update).gpio = m.gpio.folded := rfl

@[simp] theorem gpio_commit (m : Matrix) : m.commit.gpio = m.gpio := rfl

/-- **A turn only folds**: what the registers ask for once folded is the same before and after. -/
theorem folded_updateth (m : Matrix) (c : Call) : (m.updateth c).gpio.folded = m.gpio.folded := by
  cases c with
  | updategpioreg => rw [gpio_updategpioreg, GpioDev.folded_applycsbits]
  | updategpiooe => rw [gpio_updategpiooe, GpioDev.folded_applyoecsbits]
  | update => rw [gpio_update, GpioDev.folded_folded]

/-- No turn shows in the present values. -/
theorem cur_updateth (m : Matrix) (c : Call) (pin : Nat) :
    ((m.updateth c).function pin).cur = (m.function pin).cur := by
  cases c with
  | updategpioreg => exact Signal.cur_patch _ _ _
  | updategpiooe => exact Signal.cur_patch _ _ _
  | update =>
    show (Signal.patch _ (Signal.patch _ (Signal.patch _ m.function)) pin).cur = _
    rw [Signal.cur_patch, Signal.cur_patch, Signal.cur_patch]

theorem next_updategpioreg (m : Matrix) (pin : Nat) :
    ((m.updateth .updategpioreg).function pin).next =
      (setbitsAt m.gpio.out.applycs.data pin (m.function pin).cur).getD (m.function pin).next :=
  Signal.next_patch _ _ _

theorem next_updategpiooe (m : Matrix) (pin : Nat) :
    ((m.updateth .updategpiooe).function pin).next =
      (setoebitsAt m.gpio.out.data m.gpio.enable.applycs.data pin (m.function pin).cur).getD
        (m.function pin).next :=
  Signal.next_patch _ _ _

/-- **The full update selects**, whatever the functions were before. -/
theorem next_update {m : Matrix} {pin : Nat} (hmux : getmux pin = true) :
    ((m.updateth .update).function pin).next = selected m.gpio.folded pin := by
  -- the pass over the outputs comes last, so its writes are the ones that count
  show (Signal.patch (outputsAt m.gpio.folded) _ pin).next = _
  rw [Signal.next_patch]
  unfold outputsAt
  rw [← getmux_eq_getgpio, hmux]
  rfl

/-! ## §4 — when a patch is enough

`setbits` and `setoebits` never look at `func_sel`. They are right on a pin whose function is what the
registers before the change selected: then the function tells a GPIO from a peripheral, and for a GPIO
whether it is enabled. -/

/-- The pin's function is as `setbits` relies on it: released exactly when disabled. -/
def RegReady (d : GpioDev) (pin fn : Nat) : Prop :=
  if d.funcOutSel pin = 256 then
    (if d.enable.data.bit pin then fn = muxoutDrive0 ∨ fn = muxoutDrive1 else fn = muxoutDriveZ)
  else fn = (d.funcOutSel pin).toNat

/-- The pin's function is as `setoebits` relies on it: when driven, at the level of the register. -/
def OeReady (d : GpioDev) (pin fn : Nat) : Prop :=
  if d.funcOutSel pin = 256 then
    fn = muxoutDriveZ ∨ fn = (if d.out.data.bit pin then muxoutDrive1 else muxoutDrive0)
  else fn = (d.funcOutSel pin).toNat

theorem regReady_selected (d : GpioDev) (pin : Nat) : RegReady d pin (selected d pin) := by
  unfold RegReady selected
  cases d.enable.data.bit pin <;> cases d.out.data.bit pin <;> split <;> simp

theorem oeReady_selected (d : GpioDev) (pin : Nat) : OeReady d pin (selected d pin) := by
  unfold OeReady selected
  cases d.enable.data.bit pin <;> split <;> simp

/-- `setbits` relies on the selects and the enables only, `setoebits` on the selects and the levels. -/
theorem RegReady.congr {d d' : GpioDev} {pin fn : Nat} (h : RegReady d pin fn)
    (hsel : d'.funcOutSel = d.funcOutSel) (hen : d'.enable = d.enable) : RegReady d' pin fn := by
  unfold RegReady at h ⊢
  rw [hsel, hen]
  exact h

theorem OeReady.congr {d d' : GpioDev} {pin fn : Nat} (h : OeReady d pin fn)
    (hsel : d'.funcOutSel = d.funcOutSel) (hout : d'.out = d.out) : OeReady d' pin fn := by
  unfold OeReady at h ⊢
  rw [hsel, hout]
  exact h

/-- A selection the register description knows: the GPIO itself, or one of the peripheral outputs. -/
def LegalSel (d : GpioDev) (pin : Nat) : Prop :=
  d.funcOutSel pin = 256 ∨ (d.funcOutSel pin).toNat < 256

instance (d : GpioDev) (pin : Nat) : Decidable (LegalSel d pin) := inferInstanceAs (Decidable (_ ∨ _))

theorem LegalSel.congr {d d' : GpioDev} {pin : Nat} (h : LegalSel d pin)
    (hsel : d'.funcOutSel = d.funcOutSel) : LegalSel d' pin := by
  unfold LegalSel at h ⊢
  rw [hsel]
  exact h

theorem LegalSel.lt {d : GpioDev} {pin : Nat} (h : LegalSel d pin) (hsel : d.funcOutSel pin ≠ 256) :
    (d.funcOutSel pin).toNat < 256 := by
  rcases h with h | h
  · exact absurd h hsel
  · exact h

/-- **The level patch** of a pin that is ready for it: what is written, or else what stood there, is
what the full update selects. -/
theorem setbitsAt_ready {d : GpioDev} {pin fn : Nat} (hmux : getmux pin = true)
    (hlegal : LegalSel d pin) (hready : RegReady d pin fn) :
    (setbitsAt d.out.data pin fn).getD fn = selected d pin := by
  unfold setbitsAt selected
  unfold RegReady at hready
  rw [if_pos hmux]
  by_cases hsel : d.funcOutSel pin = 256
  · rw [if_pos hsel] at hready ⊢
    cases hen : d.enable.data.bit pin with
    | false =>
      -- a released pin is neither at 256 nor at 257
      have hfn : fn = muxoutDriveZ := by simpa [hen] using hready
      subst hfn
      simp [muxoutDriveZ, muxoutDrive0, muxoutDrive1]
    | true =>
      have hfn : fn = muxoutDrive0 ∨ fn = muxoutDrive1 := by simpa [hen] using hready
      rcases hfn with rfl | rfl <;> cases d.out.data.bit pin <;>
        simp [muxoutDrive0, muxoutDrive1]
  · rw [if_neg hsel] at hready ⊢
    have hlt := hlegal.lt hsel
    have h0 : fn ≠ muxoutDrive0 := by
      rw [hready, muxoutDrive0]
      omega
    have h1 : fn ≠ muxoutDrive1 := by
      rw [hready, muxoutDrive1]
      omega
    simp only [h0, h1, false_and, if_false, Option.getD_none]
    exact hready

/-- **The direction patch** of a pin that is ready for it. -/
theorem setoebitsAt_ready {d : GpioDev} {pin fn : Nat} (hmux : getmux pin = true)
    (hlegal : LegalSel d pin) (hready : OeReady d pin fn) :
    (setoebitsAt d.out.data d.enable.data pin fn).getD fn = selected d pin := by
  unfold setoebitsAt selected
  unfold OeReady at hready
  rw [if_pos hmux]
  by_cases hsel : d.funcOutSel pin = 256
  · rw [if_pos hsel] at hready ⊢
    rcases hready with rfl | rfl
    · cases d.enable.data.bit pin <;>
        simp [muxoutDrive0, muxoutDrive1, muxoutDriveZ]
    · cases d.enable.data.bit pin <;> cases d.out.data.bit pin <;>
        simp [muxoutDrive0, muxoutDrive1, muxoutDriveZ]
  · rw [if_neg hsel] at hready ⊢
    have hlt := hlegal.lt hsel
    have h0 : fn ≠ muxoutDrive0 := by
      rw [hready, muxoutDrive0]
      omega
    have h1 : fn ≠ muxoutDrive1 := by
      rw [hready, muxoutDrive1]
      omega
    have hz : fn ≠ muxoutDriveZ := by
      rw [hready, muxoutDriveZ]
      omega
    simp only [h0, h1, hz, or_self, false_and, if_false, Option.getD_none]
    exact hready

end Matrix

end Espmod.Gpio
