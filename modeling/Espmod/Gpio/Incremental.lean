/-
# Espmod.Gpio.Incremental — patching the outputs against recomputing them

A change of the output levels is served by `setbits`, a change of the directions by `setoebits`;
neither looks at the function selects. Starting from a full update, any sequence of the two kinds of
change, each served before the next, leaves every output multiplexer at what the full update would
select. The invariant is that each function *is* the selected one: it makes the pin ready for either
patch, and the patch restores it.
-/
import Espmod.Gpio.Matrix

namespace Espmod.Gpio

open Espmod.Lib

/-- A step: the output registers change in any way, or the enable registers do, and the event of that
register is processed in a delta cycle of its own. -/
inductive Change where
  | out (w : Port → Port)
  | enable (w : Port → Port)

namespace Matrix

def writeOut (w : Port → Port) (m : Matrix) : Matrix :=
  { m with gpio := { m.gpio with out := w m.gpio.out } }

def writeEnable (w : Port → Port) (m : Matrix) : Matrix :=
  { m with gpio := { m.gpio with enable := w m.gpio.enable } }

def change (m : Matrix) : Change → Matrix
  | .out w => ((m.writeOut w).updateth .updategpioreg).commit
  | .enable w => ((m.writeEnable w).updateth .updategpiooe).commit

/-- A full update and the update phase after it. -/
def fullUpdate (m : Matrix) : Matrix := (m.updateth .update).commit

/-- Every output multiplexer has the function the registers select, and nothing waits to be folded. -/
structure Synced (m : Matrix) : Prop where
  cur : ∀ pin, getmux pin = true → (m.function pin).cur = selected m.gpio pin
  quiet : ∀ pin, (m.function pin).Quiet
  folded : m.gpio.folded = m.gpio

theorem synced_fullUpdate (m : Matrix) : m.fullUpdate.Synced where
  cur pin hmux := by
    show ((m.updateth .update).function pin).next = _
    rw [next_update hmux]
    rfl
  quiet pin := Signal.quiet_update _
  folded := by
    show (m.updateth .update).gpio.folded = (m.updateth .update).gpio
    rw [gpio_update, GpioDev.folded_folded]

theorem funcOutSel_change (m : Matrix) (c : Change) :
    (m.change c).gpio.funcOutSel = m.gpio.funcOutSel := by
  cases c <;> rfl

theorem legalSel_change {m : Matrix} (c : Change) {pin : Nat} (h : LegalSel m.gpio pin) :
    LegalSel (m.change c).gpio pin :=
  h.congr (funcOutSel_change m c)

/-- In a synced matrix each register is folded on its own. -/
theorem Synced.out_folded {m : Matrix} (h : m.Synced) : m.gpio.out.applycs = m.gpio.out :=
  congrArg GpioDev.out h.folded

theorem Synced.enable_folded {m : Matrix} (h : m.Synced) : m.gpio.enable.applycs = m.gpio.enable :=
  congrArg GpioDev.enable h.folded

/-- **One step** keeps the matrix synced. -/
theorem Synced.change {m : Matrix} (h : m.Synced)
    (hlegal : ∀ pin, getmux pin = true → LegalSel m.gpio pin) (c : Change) : (m.change c).Synced where
  cur pin hmux := by
    have hquiet : (m.function pin).next = (m.function pin).cur := h.quiet pin
    cases c with
    | out w =>
      -- levels change, directions and selects do not: the pin is still ready for `setbits`
      have hready : RegReady (m.change (.out w)).gpio pin (m.function pin).cur := by
        rw [h.cur pin hmux]
        exact (regReady_selected m.gpio pin).congr rfl rfl
      have hpatch := setbitsAt_ready hmux (legalSel_change (.out w) (hlegal pin hmux)) hready
      have hnext := next_updategpioreg (m.writeOut w) pin
      rw [show ((m.writeOut w).function pin).next = (m.function pin).cur from hquiet] at hnext
      exact hnext.trans hpatch
    | enable w =>
      have hready : OeReady (m.change (.enable w)).gpio pin (m.function pin).cur := by
        rw [h.cur pin hmux]
        exact (oeReady_selected m.gpio pin).congr rfl rfl
      have hpatch := setoebitsAt_ready hmux (legalSel_change (.enable w) (hlegal pin hmux)) hready
      have hnext := next_updategpiooe (m.writeEnable w) pin
      rw [show ((m.writeEnable w).function pin).next = (m.function pin).cur from hquiet] at hnext
      exact hnext.trans hpatch
  quiet pin := by
    cases c <;> exact Signal.quiet_update _
  folded := by
    cases c with
    | out w => exact GpioDev.folded_eq (Port.applycs_applycs _) h.enable_folded
    | enable w => exact GpioDev.folded_eq h.out_folded (Port.applycs_applycs _)

/-- Any number of steps. -/
theorem Synced.changes {m : Matrix} (h : m.Synced)
    (hlegal : ∀ pin, getmux pin = true → LegalSel m.gpio pin) (cs : List Change) :
    (cs.foldl Matrix.change m).Synced ∧
      (cs.foldl Matrix.change m).gpio.funcOutSel = m.gpio.funcOutSel := by
  induction cs generalizing m with
  | nil => exact ⟨h, rfl⟩
  | cons c cs ih =>
    have hlegal' : ∀ pin, getmux pin = true → LegalSel (m.change c).gpio pin :=
      fun pin hmux => legalSel_change c (hlegal pin hmux)
    obtain ⟨hs, hsel⟩ := ih (h.change hlegal c) hlegal'
    exact ⟨hs, hsel.trans (funcOutSel_change m c)⟩

/-- **Incremental updates equal a full update.** After a full update, with every function select at
256 or at a peripheral output, any sequence of served level and direction changes leaves the function
of every pin selected as GPIO at 258 when it is disabled and else at its level, which is what another
full update would select; the function of every other pin is as it was. -/
theorem incremental_equals_full (m : Matrix)
    (hlegal : ∀ pin, getmux pin = true → LegalSel m.gpio pin) (cs : List Change) (pin : Nat)
    (hmux : getmux pin = true) :
    let m' := cs.foldl Matrix.change m.fullUpdate
    (m'.gpio.funcOutSel pin = 256 →
      (m'.function pin).cur =
        (if m'.gpio.enable.data.bit pin = false then 258
          else if m'.gpio.out.data.bit pin = true then 257 else 256)) ∧
    (m'.function pin).cur = (m'.fullUpdate.function pin).cur ∧
    (m'.gpio.funcOutSel pin ≠ 256 → (m'.function pin).cur = (m.fullUpdate.function pin).cur) := by
  intro m'
  have hstart := synced_fullUpdate m
  obtain ⟨hend, hsel⟩ := hstart.changes (fun p hp => hlegal p hp) cs
  have hcur : (m'.function pin).cur = selected m'.gpio pin := hend.cur pin hmux
  refine ⟨?_, ?_, ?_⟩
  · intro h256
    rw [hcur, selected, if_pos h256]
    cases m'.gpio.enable.data.bit pin <;> rfl
  · have hfull : (m'.fullUpdate.function pin).cur = selected m'.gpio.folded pin := next_update hmux
    rw [hcur, hfull, hend.folded]
  · intro hne
    have hsel' : m'.gpio.funcOutSel pin = m.fullUpdate.gpio.funcOutSel pin := congrFun hsel pin
    have hne' : m.fullUpdate.gpio.funcOutSel pin ≠ 256 := hsel' ▸ hne
    rw [hcur, hstart.cur pin hmux, selected, selected, if_neg hne, if_neg hne', hsel']

/-- From power-up: pin 4 is enabled and then set. -/
theorem incremental_equals_full_powerUp :
    (([Change.enable (fun p => { p with w1ts := .single 4 }),
        Change.out (fun p => { p with w1ts := .single 4 })].foldl Matrix.change
      (Matrix.new fun _ => IoMux.new gpiomodeNone gpiomodeNone false (.func 0) [] [] 0).fullUpdate
      ).function 4).cur = 257 :=
  (incremental_equals_full
    (Matrix.new fun _ => IoMux.new gpiomodeNone gpiomodeNone false (.func 0) [] [] 0)
    (fun _ _ => Or.inl rfl) _ 4 rfl).1 rfl

end Matrix

end Espmod.Gpio
