/-
# Espmod.Gpio.Config — `gpio_config` against the calls for one pin

`gpio_config` walks over a mask of pins and makes of each what `gpio_set_direction` and
`gpio_set_pull_mode` would make of it, with calls of its own. The two agree on a mode without open
drain. With open drain `gpio_config` asks for the output enable of the pad (`set_oe`) where
`gpio_set_direction` asks for the open drain (`set_od`): the pad is left with an output enable nobody
asked for, and it becomes an open drain only when the next full update passes the bit of the register
on, which for all pins of the mask but the last happens within the call.

Both sides are compared as folds over the pins of the mask, on the views they leave.
-/
import Espmod.Gpio.Sound

namespace Espmod.Gpio

open Espmod.Lib IoMux

/-! ## §1 — the claim -/

/-- `gpio_mode_t`. -/
inductive GpioMode where
  | disable
  | input
  | output
  | outputOd
  | inputOutputOd
  | inputOutput
deriving Repr, DecidableEq

/-- The value of the enumerator. -/
def GpioMode.bits : GpioMode → BitVec 32
  | .disable => 0
  | .input => gpioModeDefInput
  | .output => gpioModeDefOutput
  | .outputOd => gpioModeDefOutput ||| gpioModeDefOd
  | .inputOutputOd => gpioModeDefInput ||| gpioModeDefOutput ||| gpioModeDefOd
  | .inputOutput => gpioModeDefInput ||| gpioModeDefOutput

/-- Open drain is a way to be an output. -/
theorem GpioMode.output_of_od (mode : GpioMode) (h : has mode.bits gpioModeDefOd = true) :
    has mode.bits gpioModeDefOutput = true := by
  cases mode <;> first | rfl | exact absurd h (by decide)

/-- The pull mode that two pull settings amount to. -/
def pullMode (up down : Bool) : GpioPullMode :=
  match up, down with
  | true, false => .pullupOnly
  | false, true => .pulldownOnly
  | true, true => .pullupPulldown
  | false, false => .floating

/-- The pins of a mask, in increasing order. -/
def maskedPins (mask : BitVec 64) : List Nat := (List.range 40).filter fun pin => mask.getLsbD pin

namespace Board

/-- `gpio_set_direction` and `gpio_set_pull_mode` for each pin of the mask. -/
def setEach (mask : BitVec 64) (mode : BitVec 32) (pull : GpioPullMode) (b : Board) : Board :=
  (maskedPins mask).foldl
    (fun b pin => ((b.gpioSetDirection pin mode).2.gpioSetPullMode pin pull).2) b

/-- Two boards agree on a pin: the flags of its pad, if it has one, its enable bit, its `pad_driver`
and its `func_sel`. -/
structure SamePin (pin : Nat) (b₁ b₂ : Board) : Prop where
  flags : getgpio pin = true → (b₁.m.pads pin).flags = (b₂.m.pads pin).flags
  enable : b₁.m.gpio.enable.data.bit pin = b₂.m.gpio.enable.data.bit pin
  padDriver : b₁.m.gpio.padDriver pin = b₂.m.gpio.padDriver pin
  funcSel : b₁.m.gpio.funcOutSel pin = b₂.m.gpio.funcOutSel pin

/-- The result of `gpio_config` is that of the calls for one pin, and the other pins are as before. -/
def AgreesWithEach (cfg : GpioConfig) (b b' : Board) : Prop :=
  (∀ pin, SamePin pin b' (b.setEach cfg.pinBitMask cfg.mode (pullMode cfg.pullUpEn cfg.pullDownEn))) ∧
    ∀ pin, cfg.pinBitMask.getLsbD pin = false → SamePin pin b' b

/-- Open drain is asked for only of pads that have their output enable already, and that of the last of
them is in the register already; and no pad outside the mask waits for the register to be passed on
by the update that enabling an output makes. -/
structure Undrained (cfg : GpioConfig) (b : Board) : Prop where
  drained : has cfg.mode gpioModeDefOd = true → ∀ pin, cfg.pinBitMask.getLsbD pin = true →
    (b.m.pads pin).oe = true ∧
      ((∀ q, pin < q → cfg.pinBitMask.getLsbD q = false) → b.m.gpio.padDriver pin = true)
  passed : has cfg.mode gpioModeDefOutput = true → ∀ pin, cfg.pinBitMask.getLsbD pin = false →
    getgpio pin = true → pin < 34 → (b.m.pads pin).od = b.m.gpio.padDriver pin

end Board

/-! ## §2 — one pin, on the view -/

namespace View

/-- What both do first: the input, the output, the bit of the register. -/
def enter (pin : Nat) (input output od : Bool) (v : View) : View :=
  let v := v.setPad pin fun f => { f with ie := input }
  let v :=
    if output then View.passDrains { v with dev := v.dev.withEnable pin true }
    else { v with dev := v.dev.withEnable pin false }
  { v with dev := { v.dev with padDriver := fun q => if q = pin then od else v.dev.padDriver q } }

/-- What both do last. -/
def pull (pin : Nat) (up down : Bool) (v : View) : View :=
  v.setPad pin fun f => { f with wpu := up && decide (pin < 34), wpd := down && decide (pin < 34) }

/-- `gpio_set_direction`. -/
def direct (pin : Nat) (input output od : Bool) (v : View) : View :=
  (v.enter pin input output od).setPad pin fun f => { f with od := od && decide (pin < 34) }

/-- The part of `gpio_config` in its place. -/
def configure (pin : Nat) (input output od : Bool) (v : View) : View :=
  (v.enter pin input output od).setPad pin fun f =>
    if od then { f with oe := decide (pin < 34) } else { f with od := false }

/-- Without open drain they are the same. -/
theorem configure_eq_direct (pin : Nat) (input output : Bool) (v : View) :
    v.configure pin input output false = v.direct pin input output false := rfl

theorem setPad_pads (pin : Nat) (g : Flags → Flags) (v : View) (q : Nat) :
    (v.setPad pin g).pads q = if q = pin then g (v.pads q) else v.pads q := rfl

theorem setPad_setPad (pin : Nat) (g g' : Flags → Flags) (v : View) :
    (v.setPad pin g).setPad pin g' = v.setPad pin fun f => g' (g f) := by
  unfold setPad
  congr 1
  funext q
  dsimp only
  split <;> rfl

end View

namespace Board

theorem view_setPadDriver (pin : Nat) (v : Bool) (b : Board) :
    (b.setPadDriver pin v).view =
      { b.view with dev := { b.view.dev with
          padDriver := fun q => if q = pin then v else b.view.dev.padDriver q } } := rfl

theorem askOutput_granted (pin : Nat) (output : Bool) {r : Bool × Board} (hr : r.1 = true) :
    (askOutput pin output r).2 =
      if output then r.2.gpioOutputEnable pin else r.2.gpioOutputDisable pin := by
  unfold askOutput
  rw [hr]
  cases output <;> rfl

/-- The output request, whichever it is, of a pin the driver accepts for it. -/
theorem Sound.output_spec {b : Board} (h : Sound b) {pin : Nat} (hv : gpioIsValidGpio pin = true)
    {output : Bool} (hpin : output = true → pin < 34) :
    (if output then gpioIsValidOutputGpio pin else gpioIsValidGpio pin) = true ∧
      Sound (if output then b.gpioOutputEnable pin else b.gpioOutputDisable pin) ∧
      (if output then b.gpioOutputEnable pin else b.gpioOutputDisable pin).view =
        if output then View.passDrains { b.view with dev := b.view.dev.withEnable pin true }
        else { b.view with dev := b.view.dev.withEnable pin false } := by
  cases output with
  | true =>
    have hvo : gpioIsValidOutputGpio pin = true := by
      unfold gpioIsValidOutputGpio
      rw [hv, decide_eq_true (hpin rfl)]
      rfl
    exact ⟨hvo, h.gpioOutputEnable_spec hvo⟩
  | false => exact ⟨hv, h.gpioOutputDisable_spec hv⟩

/-- The input request, whichever it is. -/
theorem PadSound.input {pin : Nat} {x : IoMux} (h : PadSound pin x) (input : Bool) :
    (if input then x.setIe else x.clrIe).1 = true ∧
      PadSound pin (if input then x.setIe else x.clrIe).2 ∧
      (if input then x.setIe else x.clrIe).2.flags = { x.flags with ie := input } := by
  cases input with
  | true => exact h.setIe
  | false => exact h.clrIe

theorem Sound.gpioSetDirection_view {b : Board} (h : Sound b) {pin : Nat} {mode : BitVec 32}
    (hv : gpioIsValidGpio pin = true) (hg : getgpio pin = true)
    (hpin : has mode gpioModeDefOutput = true → pin < 34) :
    (b.gpioSetDirection pin mode).2.view =
      b.view.direct pin (has mode gpioModeDefInput) (has mode gpioModeDefOutput)
        (has mode gpioModeDefOd) := by
  have hguard : (decide (34 ≤ pin) && has mode gpioModeDefOutput) = false := by
    cases hout : has mode gpioModeDefOutput with
    | false => exact Bool.and_false _
    | true =>
      have hlt := hpin hout
      simp [hlt]
  unfold Board.gpioSetDirection
  rw [hv, hguard, hg]
  generalize has mode gpioModeDefInput = input
  generalize has mode gpioModeDefOd = od
  generalize has mode gpioModeDefOutput = output at hpin ⊢
  have hgrant := (PadSound.input (h.pads pin) input).1
  obtain ⟨hinput, hview⟩ : Sound (b.ask pin fun x => if input then x.setIe else x.clrIe).2 ∧
      (b.ask pin fun x => if input then x.setIe else x.clrIe).2.view =
        b.view.setPad pin fun f => { f with ie := input } :=
    h.request_view (f := fun x => (if input then x.setIe else x.clrIe).2)
      (g := fun f => { f with ie := input }) fun x hx => (PadSound.input hx input).2
  obtain ⟨_, hsound, houtput⟩ := hinput.output_spec hv hpin
  rw [hview] at houtput
  -- the input request is granted, so the output is asked for
  have hasked := askOutput_granted pin output
    (r := b.ask pin fun x => if input then x.setIe else x.clrIe) hgrant
  show (Board.settlePads (Board.ask pin (fun x => if od then x.setOd else x.clrOd)
    (Board.setPadDriver pin od (Board.askOutput pin output _).2)).2).view = _
  rw [view_settlePads, hasked]
  have hdrain : ∀ x, PadSound pin x → (if od then x.setOd else x.clrOd).2.flags =
      { x.flags with od := od && decide (pin < 34) } := by
    intro x hx
    cases od with
    | true => exact (hx.od true).2
    | false => exact (hx.od false).2
  refine (view_onPad (f := fun x => (if od then x.setOd else x.clrOd).2)
    (g := fun f => { f with od := od && decide (pin < 34) }) (hdrain _ ?_)).trans ?_
  · exact (hsound.setPadDriver pin od).pads pin
  · rw [view_setPadDriver, houtput]
    rfl

/-- `gpio_set_pull_mode` with the mode that the two settings amount to. -/
theorem Sound.gpioSetPullMode_view {b : Board} (h : Sound b) {pin : Nat} (hg : getgpio pin = true)
    (up down : Bool) :
    (b.gpioSetPullMode pin (pullMode up down)).2.view = b.view.pull pin up down := by
  have hup : ∀ b₁ : Board, Sound b₁ →
      Sound (b₁.onPad pin fun x => if up then x.setWpu.2 else x.clrWpu.2) ∧
      (b₁.onPad pin fun x => if up then x.setWpu.2 else x.clrWpu.2).view =
        b₁.view.setPad pin fun f => { f with wpu := up && decide (pin < 34) } :=
    fun b₁ h₁ => h₁.request_view (g := fun f => { f with wpu := up && decide (pin < 34) })
      fun x hx => PadSound.wpu hx up
  have hdown : ∀ b₁ : Board, Sound b₁ →
      Sound (b₁.onPad pin fun x => if down then x.setWpd.2 else x.clrWpd.2) ∧
      (b₁.onPad pin fun x => if down then x.setWpd.2 else x.clrWpd.2).view =
        b₁.view.setPad pin fun f => { f with wpd := down && decide (pin < 34) } :=
    fun b₁ h₁ => h₁.request_view (g := fun f => { f with wpd := down && decide (pin < 34) })
      fun x hx => PadSound.wpd hx down
  -- one mode asks for the pull-up first, the others for the pull-down
  have hupDown := (hdown _ (hup b h).1).2.trans (by rw [(hup b h).2, View.setPad_setPad])
  have hdownUp := (hup _ (hdown b h).1).2.trans (by rw [(hdown b h).2, View.setPad_setPad])
  unfold Board.gpioSetPullMode
  rw [hg]
  show (Board.settlePads _).view = _
  rw [view_settlePads]
  cases up with
  | true =>
    cases down with
    | true => exact hdownUp
    | false => exact hupDown
  | false =>
    cases down with
    | true => exact hdownUp
    | false => exact hdownUp

/-- Selecting the function of the GPIO touches no flag, of whichever pad. -/
theorem view_pinFuncSelect (pin : Nat) (b : Board) : (b.pinFuncSelect pin pinFuncGpio).view = b.view := by
  have hfunc : (if ugpio pin pinFuncGpio then GpioFunction.func 2 else .func pinFuncGpio) = .func 2 := by
    split <;> rfl
  have hflags : ∀ x : IoMux, (x.setFunction (.func 2)).flags = x.flags := by
    intro x
    unfold IoMux.setFunction
    split
    · rfl
    · dsimp only
      split <;> rfl
  unfold pinFuncSelect gpioIomuxOut onGpin
  rw [hfunc]
  split
  · rfl
  · refine (view_onPad (g := id) (hflags _)).trans ?_
    show View.mk b.view.dev _ = View.mk b.view.dev _
    congr 1
    funext q
    show (if q = pin then id (b.view.pads q) else b.view.pads q) = b.view.pads q
    split <;> rfl

theorem onGpin_eq {pin : Nat} (hg : getgpio pin = true) (f : IoMux → IoMux) (b : Board) :
    b.onGpin pin f = b.onPad pin f := by
  unfold onGpin
  rw [hg]
  rfl

/-- The pull requests of `gpio_config`, and the same of the pull-down. -/
theorem Sound.pullup_view {b : Board} (h : Sound b) {pin : Nat} (hg : getgpio pin = true) (up : Bool) :
    Sound (if up then b.gpioPullupEn pin else b.gpioPullupDis pin) ∧
      (if up then b.gpioPullupEn pin else b.gpioPullupDis pin).view =
        b.view.setPad pin fun f => { f with wpu := up && decide (pin < 34) } := by
  have heq : (if up then b.gpioPullupEn pin else b.gpioPullupDis pin) =
      b.onPad pin fun x => if up then x.setWpu.2 else x.clrWpu.2 := by
    cases up <;> exact onGpin_eq hg _ b
  rw [heq]
  exact h.request_view (g := fun f => { f with wpu := up && decide (pin < 34) })
    fun x hx => PadSound.wpu hx up

theorem Sound.pulldown_view {b : Board} (h : Sound b) {pin : Nat} (hg : getgpio pin = true)
    (down : Bool) :
    Sound (if down then b.gpioPulldownEn pin else b.gpioPulldownDis pin) ∧
      (if down then b.gpioPulldownEn pin else b.gpioPulldownDis pin).view =
        b.view.setPad pin fun f => { f with wpd := down && decide (pin < 34) } := by
  have heq : (if down then b.gpioPulldownEn pin else b.gpioPulldownDis pin) =
      b.onPad pin fun x => if down then x.setWpd.2 else x.clrWpd.2 := by
    cases down <;> exact onGpin_eq hg _ b
  rw [heq]
  exact h.request_view (g := fun f => { f with wpd := down && decide (pin < 34) })
    fun x hx => PadSound.wpd hx down

/-- The input request of `gpio_config`. -/
theorem Sound.input_view {b : Board} (h : Sound b) {pin : Nat} (hv : gpioIsValidGpio pin = true)
    (hg : getgpio pin = true) (input : Bool) :
    Sound (if input then b.gpioSetInput pin else b.gpioClrInput pin) ∧
      (if input then b.gpioSetInput pin else b.gpioClrInput pin).view =
        b.view.setPad pin fun f => { f with ie := input } := by
  have heq : (if input then b.gpioSetInput pin else b.gpioClrInput pin) =
      b.onPad pin fun x => (if input then x.setIe else x.clrIe).2 := by
    cases input <;> simp [Board.gpioSetInput, Board.gpioClrInput, hv, hg]
  rw [heq]
  exact h.request_view (g := fun f => { f with ie := input }) fun x hx => (PadSound.input hx input).2

/-- **The body of the loop of `gpio_config`.** -/
theorem Sound.configPin_view {b b' : Board} (h : Sound b) {cfg : GpioConfig} {pin : Nat}
    (hv : gpioIsValidGpio pin = true) (hpin : has cfg.mode gpioModeDefOutput = true → pin < 34)
    (hc : b.configPin cfg pin = some b') :
    getgpio pin = true ∧
      b'.view = (b.view.configure pin (has cfg.mode gpioModeDefInput) (has cfg.mode gpioModeDefOutput)
        (has cfg.mode gpioModeDefOd)).pull pin cfg.pullUpEn cfg.pullDownEn := by
  cases hg : getgpio pin with
  | false =>
    unfold Board.configPin at hc
    rw [hg] at hc
    cases hc
  | true =>
    refine ⟨rfl, ?_⟩
    unfold Board.configPin at hc
    rw [hg] at hc
    generalize has cfg.mode gpioModeDefInput = input at hc ⊢
    generalize has cfg.mode gpioModeDefOd = od at hc ⊢
    generalize has cfg.mode gpioModeDefOutput = output at hpin hc ⊢
    -- the requests as the source makes them, each a change of the view
    obtain ⟨hs₁, hview₁⟩ := h.input_view hv hg input
    obtain ⟨_, hs₂, hview₂⟩ := hs₁.output_spec hv hpin
    have hs₃ := hs₂.setPadDriver pin od
    have hdrain : ∀ x, PadSound pin x → PadSound pin (if od then x.setOe.2 else x.clrOd.2) ∧
        (if od then x.setOe.2 else x.clrOd.2).flags =
          if od then { x.flags with oe := decide (pin < 34) } else { x.flags with od := false } := by
      intro x hx
      cases od with
      | true => exact hx.setOe
      | false => exact hx.od false
    obtain ⟨hs₄, hview₄⟩ := hs₃.request_view (f := fun x => if od then x.setOe.2 else x.clrOd.2)
      (g := fun f => if od then { f with oe := decide (pin < 34) } else { f with od := false }) hdrain
    obtain ⟨hs₅, hview₅⟩ := hs₄.pullup_view hg cfg.pullUpEn
    obtain ⟨_, hview₆⟩ := hs₅.pulldown_view hg cfg.pullDownEn
    rw [← Option.some.inj hc, view_pinFuncSelect]
    refine hview₆.trans ?_
    rw [hview₅, hview₄, view_setPadDriver, hview₂, hview₁, View.setPad_setPad]
    rfl

end Board

/-! ## §3 — the pins of the mask, one after the other -/

/-- What a call asks for. -/
structure Setting where
  input : Bool
  output : Bool
  od : Bool
  up : Bool
  down : Bool

def GpioConfig.setting (cfg : GpioConfig) : Setting where
  input := has cfg.mode gpioModeDefInput
  output := has cfg.mode gpioModeDefOutput
  od := has cfg.mode gpioModeDefOd
  up := cfg.pullUpEn
  down := cfg.pullDownEn

theorem Flags.with_own {f : Flags} (hoe : f.oe = true) (hod : f.od = true) :
    { f with oe := true, od := true } = f := by
  cases f with
  | mk ie oe wpu wpd od =>
    dsimp only at hoe hod
    rw [hoe, hod]

/-- Enabling a pin or disabling it is a change of its own bit. -/
theorem bit_withEnable {d : GpioDev} (h : DevSound d) {pin : Nat} (hpin : pin < 40) (on : Bool)
    {q : Nat} (hq : q ≠ pin) : (d.withEnable pin on).enable.data.bit q = d.enable.data.bit q := by
  cases on with
  | true =>
    exact (Port.bit_set h.enable hpin q).trans (if_neg hq)
  | false =>
    exact (Port.bit_clear h.enable hpin q).trans (if_neg hq)

namespace View

/-- A pin as `gpio_config` sets it, and as the two calls do. -/
def configOne (c : Setting) (v : View) (pin : Nat) : View :=
  (v.configure pin c.input c.output c.od).pull pin c.up c.down

def setOne (c : Setting) (v : View) (pin : Nat) : View :=
  (v.direct pin c.input c.output c.od).pull pin c.up c.down

/-- The flags of a pad once the register has been passed on, if it is. -/
def passed (output : Bool) (v : View) (q : Nat) : Flags :=
  if output && getgpio q then { v.pads q with od := v.dev.padDriver q && decide (q < 34) }
  else v.pads q

theorem enter_pads (pin : Nat) (input output od : Bool) (v : View) (q : Nat) :
    (v.enter pin input output od).pads q =
      if q = pin then { passed output v q with ie := input } else passed output v q := by
  unfold passed
  cases output with
  | true =>
    show (if getgpio q then
        { (if q = pin then { v.pads q with ie := input } else v.pads q : Flags) with
          od := v.dev.padDriver q && decide (q < 34) }
      else if q = pin then { v.pads q with ie := input } else v.pads q) = _
    cases getgpio q with
    | true => by_cases hq : q = pin <;> simp [hq]
    | false => simp
  | false => rfl

/-- The registers after either. -/
theorem setOne_dev (c : Setting) (v : View) (pin : Nat) :
    (v.setOne c pin).dev =
      { v.dev.withEnable pin c.output with
        padDriver := fun q => if q = pin then c.od else v.dev.padDriver q } := by
  unfold setOne direct enter
  cases c.output <;> rfl

theorem configOne_dev (c : Setting) (v : View) (pin : Nat) :
    (v.configOne c pin).dev = (v.setOne c pin).dev := rfl

/-- The pads after either: the same but for the pin itself. -/
theorem setOne_pads (c : Setting) (v : View) (pin q : Nat) :
    (v.setOne c pin).pads q =
      if q = pin then
        { passed c.output v q with
          ie := c.input
          wpu := c.up && decide (pin < 34)
          wpd := c.down && decide (pin < 34)
          od := c.od && decide (pin < 34) }
      else passed c.output v q := by
  have heq : v.setOne c pin = (v.enter pin c.input c.output c.od).setPad pin fun f =>
      { f with
        wpu := c.up && decide (pin < 34)
        wpd := c.down && decide (pin < 34)
        od := c.od && decide (pin < 34) } := by
    unfold setOne direct pull
    rw [setPad_setPad]
  rw [heq, setPad_pads, enter_pads]
  by_cases hq : q = pin
  · simp only [if_pos hq]
  · simp only [if_neg hq]

/-- With open drain, `gpio_config` sets the output enable and leaves the open drain as the full update
left it. -/
theorem configOne_pads {c : Setting} (hod : c.od = true) (v : View) (pin q : Nat) :
    (v.configOne c pin).pads q =
      if q = pin then
        { passed c.output v q with
          ie := c.input
          wpu := c.up && decide (pin < 34)
          wpd := c.down && decide (pin < 34)
          oe := decide (pin < 34) }
      else passed c.output v q := by
  have heq : v.configOne c pin = (v.enter pin c.input c.output c.od).setPad pin fun f =>
      { f with
        wpu := c.up && decide (pin < 34)
        wpd := c.down && decide (pin < 34)
        oe := decide (pin < 34) } := by
    unfold configOne configure pull
    rw [hod, setPad_setPad]
    rfl
  rw [heq, setPad_pads, enter_pads]
  by_cases hq : q = pin
  · simp only [if_pos hq]
  · simp only [if_neg hq]

/-- Without it, both do the same. -/
theorem configOne_eq {c : Setting} (hod : c.od = false) : configOne c = setOne c := by
  funext v pin
  unfold configOne setOne
  rw [hod, configure_eq_direct]

/-! ## §4 — what the whole mask leaves -/

/-- What either leaves of the pins outside the mask, when it has been over `pins`. -/
structure Outside (output : Bool) (v₀ : View) (pins : List Nat) (v : View) : Prop where
  dev : DevSound v.dev
  enable : ∀ q, q ∉ pins → v.dev.enable.data.bit q = v₀.dev.enable.data.bit q
  padDriver : ∀ q, q ∉ pins → v.dev.padDriver q = v₀.dev.padDriver q
  funcSel : ∀ q, q ∉ pins → v.dev.funcOutSel q = v₀.dev.funcOutSel q
  pads : ∀ q, q ∉ pins → v.pads q = if pins = [] then v₀.pads q else passed output v₀ q

theorem Outside.start {output : Bool} {v₀ : View} (h : DevSound v₀.dev) : Outside output v₀ [] v₀ :=
  ⟨h, fun _ _ => rfl, fun _ _ => rfl, fun _ _ => rfl, fun _ _ => rfl⟩

/-- One more pin. -/
theorem Outside.step {c : Setting} {v₀ v v' : View} {pins : List Nat} {pin : Nat}
    (h : Outside c.output v₀ pins v) (hv : gpioIsValidGpio pin = true)
    (hdev : v'.dev = (v.setOne c pin).dev)
    (hpads : ∀ q, q ≠ pin → v'.pads q = passed c.output v q) :
    Outside c.output v₀ (pins ++ [pin]) v' := by
  have hout : ∀ q, q ∉ pins ++ [pin] → q ∉ pins ∧ q ≠ pin := by
    intro q hq
    rw [List.mem_append, List.mem_singleton, not_or] at hq
    exact hq
  rw [setOne_dev] at hdev
  refine ⟨?_, fun q hq => ?_, fun q hq => ?_, fun q hq => ?_, fun q hq => ?_⟩
  · rw [hdev]
    have hnew := h.dev.withEnable hv c.output
    exact ⟨hnew.out, hnew.enable, hnew.valid⟩
  · rw [hdev, ← h.enable q (hout q hq).1]
    show (v.dev.withEnable pin c.output).enable.data.bit q = v.dev.enable.data.bit q
    exact bit_withEnable h.dev (Board.valid_ne_zero hv).2 c.output (hout q hq).2
  · rw [hdev, ← h.padDriver q (hout q hq).1]
    exact if_neg (hout q hq).2
  · rw [hdev, ← h.funcSel q (hout q hq).1]
    exact if_neg (hout q hq).2
  · obtain ⟨hpins, hne⟩ := hout q hq
    rw [hpads q hne, if_neg (List.append_ne_nil_of_right_ne_nil _ (List.cons_ne_nil _ _))]
    -- passing the same bit on twice is passing it on once
    have hflags := h.pads q hpins
    unfold passed
    rw [h.padDriver q hpins, hflags]
    split
    next hpass =>
      split
      next => rfl
      next => rw [passed, if_pos hpass]
    next hpass =>
      split
      next => rfl
      next => rw [passed, if_neg hpass]

/-- With open drain, how far apart the two are when they have been over `pins`: `gpio_config` has set
every output enable, and the last pin still waits for its open drain. -/
structure Apart (v₀ : View) (pins : List Nat) (v v' : View) : Prop where
  dev : v.dev = v'.dev
  padDriver : ∀ q, v'.dev.padDriver q = if q ∈ pins then true else v₀.dev.padDriver q
  oe : ∀ q, (v'.pads q).oe = (v₀.pads q).oe
  od : ∀ q ∈ pins, (v'.pads q).od = true
  outside : ∀ q, q ∉ pins → v.pads q = v'.pads q
  inside : ∀ q ∈ pins, ∃ od, v.pads q = { v'.pads q with oe := true, od := od } ∧
    ((∃ r ∈ pins, q < r) → od = true) ∧ ((∀ r ∈ pins, r ≤ q) → od = v₀.dev.padDriver q)

theorem Apart.start (v : View) : Apart v [] v v where
  dev := rfl
  padDriver _ := rfl
  oe _ := rfl
  od := by simp
  outside _ _ := rfl
  inside := by simp

theorem passed_oe (output : Bool) (v : View) (q : Nat) : (passed output v q).oe = (v.pads q).oe := by
  unfold passed
  split <;> rfl

/-- What is passed on to a pad depends on its flags and its bit. -/
theorem passed_congr {output : Bool} {v v' : View} {q : Nat} (hp : v.pads q = v'.pads q)
    (hd : v.dev.padDriver q = v'.dev.padDriver q) : passed output v q = passed output v' q := by
  unfold passed
  rw [hp, hd]

/-- One more pin, further on. The full update it makes gives the pins before it their open drain. -/
theorem Apart.step {c : Setting} (hout : c.output = true) (hod : c.od = true) {v₀ v v' : View}
    {pins : List Nat} {pin : Nat} (h : Apart v₀ pins v v') (hnew : ∀ q ∈ pins, q < pin)
    (hok : ∀ q ∈ pins ++ [pin], getgpio q = true ∧ q < 34) :
    Apart v₀ (pins ++ [pin]) (v.configOne c pin) (v'.setOne c pin) := by
  have hmem : ∀ q, q ∈ pins ++ [pin] ↔ q ∈ pins ∨ q = pin := by simp
  have hnot : pin ∉ pins := fun hin => Nat.lt_irrefl pin (hnew pin hin)
  have hpin := hok pin ((hmem pin).mpr (Or.inr rfl))
  have hpassed : ∀ (u : View) (q : Nat), getgpio q = true ∧ q < 34 →
      passed c.output u q = { u.pads q with od := u.dev.padDriver q } := by
    intro u q hq
    unfold passed
    rw [hout, hq.1, decide_eq_true hq.2, if_pos (Bool.and_self true), Bool.and_true]
  refine ⟨?_, fun q => ?_, fun q => ?_, fun q hq => ?_, fun q hq => ?_, fun q hq => ?_⟩
  · rw [configOne_dev, setOne_dev, setOne_dev, h.dev]
  · rw [setOne_dev]
    show (if q = pin then c.od else v'.dev.padDriver q) = _
    by_cases hq : q = pin
    · rw [if_pos hq, if_pos ((hmem q).mpr (Or.inr hq)), hod]
    · rw [if_neg hq, h.padDriver q]
      simp only [hmem, hq, or_false]
  · rw [setOne_pads, ← h.oe q]
    split
    · exact passed_oe c.output v' q
    · exact passed_oe c.output v' q
  · rw [setOne_pads]
    split
    next heq =>
      show (c.od && decide (pin < 34)) = true
      rw [hod, decide_eq_true hpin.2]
      rfl
    next hne =>
      have hin : q ∈ pins := ((hmem q).mp hq).resolve_right hne
      rw [hpassed v' q (hok q hq)]
      show v'.dev.padDriver q = true
      rw [h.padDriver q, if_pos hin]
  · have hne : q ≠ pin := fun heq => hq ((hmem q).mpr (Or.inr heq))
    have hpins : q ∉ pins := fun hin => hq ((hmem q).mpr (Or.inl hin))
    rw [setOne_pads, configOne_pads hod, if_neg hne, if_neg hne]
    exact passed_congr (h.outside q hpins) (by rw [h.dev])
  · rw [setOne_pads, configOne_pads hod]
    by_cases heq : q = pin
    · -- the pin itself, which is the last one now
      subst heq
      rw [if_pos rfl, if_pos rfl, hpassed v q hpin, hpassed v' q hpin, h.outside q hnot, h.dev]
      refine ⟨v'.dev.padDriver q, ?_, ?_, fun _ => ?_⟩
      · rw [decide_eq_true hpin.2]
      · rintro ⟨r, hr, hlt⟩
        rcases (hmem r).mp hr with hin | rfl
        · exact absurd (hnew r hin) (Nat.not_lt.mpr (Nat.le_of_lt hlt))
        · exact absurd hlt (Nat.lt_irrefl r)
      · rw [h.padDriver q, if_neg hnot]
    · have hin : q ∈ pins := ((hmem q).mp hq).resolve_right heq
      rw [if_neg heq, if_neg heq, hpassed v q (hok q hq), hpassed v' q (hok q hq), h.dev]
      -- an earlier pin: the full update for this one has passed its bit on
      obtain ⟨od, hflags, _, _⟩ := h.inside q hin
      refine ⟨true, ?_, fun _ => rfl, fun hlast => ?_⟩
      · rw [hflags, h.padDriver q, if_pos hin]
      · exact absurd (hlast pin ((hmem pin).mpr (Or.inr rfl))) (Nat.not_le.mpr (hnew q hin))

theorem configOne_other (c : Setting) (v : View) {pin q : Nat} (hq : q ≠ pin) :
    (v.configOne c pin).pads q = passed c.output v q := by
  cases hod : c.od with
  | true => rw [configOne_pads hod, if_neg hq]
  | false => rw [configOne_eq hod, setOne_pads, if_neg hq]

/-- All pins of the mask, as to the others. -/
theorem outside_foldl {c : Setting} {v : View} (h : DevSound v.dev) (pins : List Nat)
    (hv : ∀ q ∈ pins, gpioIsValidGpio q = true) :
    Outside c.output v pins (pins.foldl (configOne c) v) := by
  induction pins using List.reverseRecOn with
  | nil => exact Outside.start h
  | append_singleton pins pin ih =>
    rw [List.foldl_append]
    have hprev := ih fun q hq => hv q (List.mem_append_left _ hq)
    exact hprev.step (hv pin (by simp)) (configOne_dev c _ pin) fun q hq => configOne_other c _ hq

/-- All pins of the mask, with open drain. -/
theorem apart_foldl {c : Setting} (hout : c.output = true) (hod : c.od = true) (v : View)
    (pins : List Nat) (hsorted : pins.Pairwise (· < ·))
    (hok : ∀ q ∈ pins, getgpio q = true ∧ q < 34) :
    Apart v pins (pins.foldl (configOne c) v) (pins.foldl (setOne c) v) := by
  induction pins using List.reverseRecOn with
  | nil => exact Apart.start v
  | append_singleton pins pin ih =>
    rw [List.foldl_append, List.foldl_append]
    obtain ⟨hpins, _, hlt⟩ := List.pairwise_append.mp hsorted
    have hprev := ih hpins fun q hq => hok q (List.mem_append_left _ hq)
    exact hprev.step hout hod (fun q hq => hlt q hq pin (List.mem_singleton_self pin)) hok

/-- **When the two agree**, with open drain: every output enable was set, and the last pin had its bit. -/
theorem Apart.agree_iff {v₀ v v' : View} {pins : List Nat} (h : Apart v₀ pins v v')
    (hok : ∀ q ∈ pins, getgpio q = true) :
    (∀ q, getgpio q = true → v.pads q = v'.pads q) ↔
      ∀ q ∈ pins, (v₀.pads q).oe = true ∧
        ((∀ r ∈ pins, r ≤ q) → v₀.dev.padDriver q = true) := by
  constructor
  · intro hagree q hq
    obtain ⟨od, hflags, _, hlast⟩ := h.inside q hq
    have heq : ({ v'.pads q with oe := true, od := od } : Flags) = v'.pads q :=
      hflags.symm.trans (hagree q (hok q hq))
    refine ⟨?_, fun htop => ?_⟩
    · rw [← h.oe q, ← heq]
    · rw [← hlast htop, ← h.od q hq, ← heq]
  · intro hcond q hg
    by_cases hq : q ∈ pins
    · obtain ⟨od, hflags, hearly, hlast⟩ := h.inside q hq
      obtain ⟨hoe, hdrv⟩ := hcond q hq
      have hod : od = true := by
        -- every pin but the last got its open drain from the update for a later one
        by_cases htop : ∀ r ∈ pins, r ≤ q
        · rw [hlast htop, hdrv htop]
        · obtain ⟨r, hr⟩ := not_forall.mp htop
          obtain ⟨hin, hgt⟩ := Classical.not_imp.mp hr
          exact hearly ⟨r, hin, Nat.not_le.mp hgt⟩
      rw [hflags, hod]
      exact Flags.with_own ((h.oe q).trans hoe) (h.od q hq)
    · exact h.outside q hq

end View

/-! ## §5 — the calls themselves -/

namespace Board

/-- The loop of `gpio_config`, when it gets to its end. -/
theorem Sound.configLoop_view {b b' : Board} (h : Sound b) {cfg : GpioConfig} {pins : List Nat}
    (hlt : ∀ p ∈ pins, p < 40)
    (hout : has cfg.mode gpioModeDefOutput = true →
      ∀ p ∈ pins, cfg.pinBitMask.getLsbD p = true → p < 34)
    (hc : Board.configLoop cfg pins b = some (.espOk, b')) :
    (∀ p ∈ pins.filter fun pin => cfg.pinBitMask.getLsbD pin,
      getgpio p = true ∧ gpioIsValidGpio p = true) ∧
    b'.view =
      (pins.filter fun pin => cfg.pinBitMask.getLsbD pin).foldl (View.configOne cfg.setting) b.view := by
  induction pins generalizing b with
  | nil =>
    cases hc
    exact ⟨by simp, view_settlePads b⟩
  | cons pin pins ih =>
    have hlt' : ∀ p ∈ pins, p < 40 := fun p hp => hlt p (List.mem_cons_of_mem _ hp)
    have hout' : has cfg.mode gpioModeDefOutput = true →
        ∀ p ∈ pins, cfg.pinBitMask.getLsbD p = true → p < 34 :=
      fun ho p hp => hout ho p (List.mem_cons_of_mem _ hp)
    rw [Board.configLoop] at hc
    cases hmask : cfg.pinBitMask.getLsbD pin with
    | false =>
      rw [hmask] at hc
      rw [List.filter_cons_of_neg (by simp [hmask])]
      exact ih h hlt' hout' hc
    | true =>
      rw [hmask, if_pos rfl] at hc
      rw [List.filter_cons_of_pos hmask]
      by_cases hreg : gpioPinMuxReg.getD pin 0 = 0
      · rw [if_pos hreg] at hc
        cases hc
      · rw [if_neg hreg] at hc
        have hv : gpioIsValidGpio pin = true :=
          decide_eq_true ⟨hlt pin List.mem_cons_self, hreg⟩
        split at hc
        next => cases hc
        next b₁ hpin =>
          obtain ⟨hg, hview⟩ := h.configPin_view hv
            (fun ho => hout ho pin List.mem_cons_self hmask) hpin
          obtain ⟨hrest, hrun⟩ := ih (h.configPin hpin) hlt' hout' hc
          refine ⟨?_, ?_⟩
          · intro p hp
            rcases List.mem_cons.mp hp with rfl | hp
            · exact ⟨hg, hv⟩
            · exact hrest p hp
          · rw [hrun, hview]
            rfl

/-- The calls for one pin each, over pins the driver accepts. -/
theorem Sound.setEach_view {b : Board} (h : Sound b) (cfg : GpioConfig) (pins : List Nat)
    (hok : ∀ p ∈ pins, getgpio p = true ∧ gpioIsValidGpio p = true)
    (hout : has cfg.mode gpioModeDefOutput = true → ∀ p ∈ pins, p < 34) :
    (pins.foldl (fun b pin => ((b.gpioSetDirection pin cfg.mode).2.gpioSetPullMode pin
      (pullMode cfg.pullUpEn cfg.pullDownEn)).2) b).view =
      pins.foldl (View.setOne cfg.setting) b.view := by
  induction pins generalizing b with
  | nil => rfl
  | cons pin pins ih =>
    obtain ⟨hg, hv⟩ := hok pin List.mem_cons_self
    have hdir := h.gpioSetDirection pin cfg.mode
    have hview := (hdir.gpioSetPullMode_view hg cfg.pullUpEn cfg.pullDownEn).trans
      (by rw [h.gpioSetDirection_view hv hg fun ho => hout ho pin List.mem_cons_self])
    rw [List.foldl_cons, List.foldl_cons]
    refine (ih (hdir.gpioSetPullMode pin _) (fun p hp => hok p (List.mem_cons_of_mem _ hp))
      fun ho p hp => hout ho p (List.mem_cons_of_mem _ hp)).trans ?_
    rw [hview]
    rfl

theorem mem_maskedPins {mask : BitVec 64} {pin : Nat} :
    pin ∈ maskedPins mask ↔ pin < 40 ∧ mask.getLsbD pin = true := by
  unfold maskedPins
  rw [List.mem_filter, List.mem_range]

/-- The input-only pins are bits of `GPIO_SEL_34` to `GPIO_SEL_39`. -/
theorem gpioSelInputOnly_bit (pin : Nat) (hge : 34 ≤ pin) (hlt : pin < 40) :
    gpioSelInputOnly.getLsbD pin = true := by
  have hall : ∀ k < 6, gpioSelInputOnly.getLsbD (34 + k) = true := by decide
  have hbit := hall (pin - 34) (by omega)
  rwa [Nat.add_sub_cancel' hge] at hbit

/-- What `ESP_OK` says of the arguments. -/
theorem gpioConfig_ok {b b' : Board} {cfg : GpioConfig} (hc : b.gpioConfig cfg = some (.espOk, b')) :
    cfg.pinBitMask ≠ 0 ∧ cfg.pinBitMask.toNat < 2 ^ 40 ∧
      (has cfg.mode gpioModeDefOutput = true → ∀ p < 40, cfg.pinBitMask.getLsbD p = true → p < 34) ∧
      configLoop cfg (List.range 40) b = some (.espOk, b') := by
  unfold Board.gpioConfig at hc
  split at hc
  next => cases hc
  next hmask =>
    split at hc
    next => cases hc
    next hsel =>
      rw [not_or, Nat.not_le] at hmask
      refine ⟨hmask.1, hmask.2, fun ho p hp hbit => ?_, hc⟩
      by_contra hge
      apply hsel
      rw [ho, Bool.true_and, bne_iff_ne]
      intro hzero
      -- an input-only pin of the mask is in the selection that the source refuses
      have hand : (cfg.pinBitMask &&& gpioSelInputOnly).getLsbD p = true := by
        rw [BitVec.getLsbD_and, hbit, gpioSelInputOnly_bit p (Nat.not_lt.mp hge) hp]
        rfl
      rw [hzero] at hand
      exact absurd hand (by simp)

/-- A mask below `2 ^ 40` has no bit from 40 on. -/
theorem masked_lt {mask : BitVec 64} (h : mask.toNat < 2 ^ 40) {pin : Nat}
    (hbit : mask.getLsbD pin = true) : pin < 40 := by
  by_contra hge
  rw [BitVec.getLsbD, Nat.testBit_lt_two_pow (Nat.lt_of_lt_of_le h
    (Nat.pow_le_pow_right (by omega) (Nat.not_lt.mp hge)))] at hbit
  exact Bool.false_ne_true hbit

theorem maskedPins_ne_nil {mask : BitVec 64} (hne : mask ≠ 0) (hlt : mask.toNat < 2 ^ 40) :
    maskedPins mask ≠ [] := by
  intro hnil
  apply hne
  apply BitVec.eq_of_getLsbD_eq
  intro i _
  cases hbit : mask.getLsbD i with
  | false => simp
  | true =>
    have hmem : i ∈ maskedPins mask := mem_maskedPins.mpr ⟨masked_lt hlt hbit, hbit⟩
    rw [hnil] at hmem
    exact absurd hmem List.not_mem_nil

/-- The last pin of the mask, said of the pins and of the bits. -/
theorem last_iff {mask : BitVec 64} (hlt : mask.toNat < 2 ^ 40) (pin : Nat) :
    (∀ r ∈ maskedPins mask, r ≤ pin) ↔ ∀ q, pin < q → mask.getLsbD q = false := by
  constructor
  · intro hlast q hq
    by_contra hbit
    have hbit' : mask.getLsbD q = true := Bool.eq_true_of_not_eq_false hbit
    have hle := hlast q (mem_maskedPins.mpr ⟨masked_lt hlt hbit', hbit'⟩)
    exact absurd hq (Nat.not_lt.mpr hle)
  · intro hnone r hr
    by_contra hgt
    have hbit := hnone r (Nat.not_le.mp hgt)
    rw [(mem_maskedPins.mp hr).2] at hbit
    exact Bool.false_ne_true hbit.symm

theorem samePin_of_view {b₁ b₂ : Board} {pin : Nat} (hdev : b₁.m.gpio = b₂.m.gpio)
    (hflags : getgpio pin = true → (b₁.view.pads pin) = (b₂.view.pads pin)) : SamePin pin b₁ b₂ :=
  ⟨hflags, by rw [hdev], by rw [hdev], by rw [hdev]⟩

section Exact

variable {b b' : Board} {cfg : GpioConfig}

/-- What `gpio_config` and the calls for one pin leave, when the first returns `ESP_OK`. -/
theorem Sound.both_views (h : Sound b) (hc : b.gpioConfig cfg = some (.espOk, b')) :
    (∀ p ∈ maskedPins cfg.pinBitMask, getgpio p = true ∧ gpioIsValidGpio p = true ∧
      (has cfg.mode gpioModeDefOutput = true → p < 34)) ∧
    b'.view = (maskedPins cfg.pinBitMask).foldl (View.configOne cfg.setting) b.view ∧
    (b.setEach cfg.pinBitMask cfg.mode (pullMode cfg.pullUpEn cfg.pullDownEn)).view =
      (maskedPins cfg.pinBitMask).foldl (View.setOne cfg.setting) b.view := by
  obtain ⟨_, _, hout, hloop⟩ := gpioConfig_ok hc
  have hmasked : has cfg.mode gpioModeDefOutput = true →
      ∀ p ∈ maskedPins cfg.pinBitMask, p < 34 :=
    fun ho p hp => hout ho p (mem_maskedPins.mp hp).1 (mem_maskedPins.mp hp).2
  obtain ⟨hok, hview⟩ := h.configLoop_view (fun p hp => List.mem_range.mp hp)
    (fun ho p hp => hout ho p (List.mem_range.mp hp)) hloop
  exact ⟨fun p hp => ⟨(hok p hp).1, (hok p hp).2, fun ho => hmasked ho p hp⟩, hview,
    h.setEach_view cfg _ hok hmasked⟩

/-- **The pins agree** exactly when no open drain is asked for, or every one asked for finds the output
enable set and the last one its bit. -/
theorem Sound.agree_iff (h : Sound b) (hc : b.gpioConfig cfg = some (.espOk, b'))
    (hmode : has cfg.mode gpioModeDefOd = true → has cfg.mode gpioModeDefOutput = true) :
    (∀ pin, SamePin pin b'
      (b.setEach cfg.pinBitMask cfg.mode (pullMode cfg.pullUpEn cfg.pullDownEn))) ↔
      (has cfg.mode gpioModeDefOd = true → ∀ pin, cfg.pinBitMask.getLsbD pin = true →
        (b.m.pads pin).oe = true ∧
          ((∀ q, pin < q → cfg.pinBitMask.getLsbD q = false) → b.m.gpio.padDriver pin = true)) := by
  obtain ⟨_, hlt, _, _⟩ := gpioConfig_ok hc
  obtain ⟨hok, hview, heach⟩ := h.both_views hc
  cases hod : has cfg.mode gpioModeDefOd with
  | false =>
    -- no pad is asked to be an open drain, and the two are one function
    have heq : View.configOne cfg.setting = View.setOne cfg.setting := View.configOne_eq hod
    rw [heq, ← heach] at hview
    refine ⟨fun _ hno => absurd hno Bool.false_ne_true, fun _ pin => ?_⟩
    exact samePin_of_view (congrArg View.dev hview) fun _ => by rw [hview]
  | true =>
    have hapart := View.apart_foldl (c := cfg.setting) (hmode hod) hod b.view
      (maskedPins cfg.pinBitMask) (List.pairwise_lt_range.filter _)
      fun q hq => ⟨(hok q hq).1, (hok q hq).2.2 (hmode hod)⟩
    rw [← hview, ← heach] at hapart
    have hagree := hapart.agree_iff fun q hq => (hok q hq).1
    constructor
    · intro hall _ pin hbit
      have hmem := mem_maskedPins.mpr ⟨masked_lt hlt hbit, hbit⟩
      obtain ⟨hoe, hlast⟩ := hagree.mp (fun q hg => (hall q).flags hg) pin hmem
      exact ⟨hoe, fun htop => hlast ((last_iff hlt pin).mpr htop)⟩
    · intro hcond pin
      refine samePin_of_view hapart.dev ?_
      refine hagree.mpr (fun q hq => ?_) pin
      obtain ⟨hoe, hlast⟩ := hcond rfl q (mem_maskedPins.mp hq).2
      exact ⟨hoe, fun htop => hlast ((last_iff hlt q).mp htop)⟩

/-- **The other pins are as before** exactly when no output is enabled, or no pad waits for the bit of
the register. -/
theorem Sound.outside_iff (h : Sound b) (hc : b.gpioConfig cfg = some (.espOk, b')) :
    (∀ pin, cfg.pinBitMask.getLsbD pin = false → SamePin pin b' b) ↔
      (has cfg.mode gpioModeDefOutput = true → ∀ pin, cfg.pinBitMask.getLsbD pin = false →
        getgpio pin = true → pin < 34 → (b.m.pads pin).od = b.m.gpio.padDriver pin) := by
  obtain ⟨hne, hlt, _, _⟩ := gpioConfig_ok hc
  obtain ⟨hok, hview, _⟩ := h.both_views hc
  have hout := View.outside_foldl (c := cfg.setting) (v := b.view) h.dev
    (maskedPins cfg.pinBitMask) fun q hq => (hok q hq).2.1
  rw [← hview] at hout
  have hnot : ∀ q, cfg.pinBitMask.getLsbD q = false → q ∉ maskedPins cfg.pinBitMask := by
    intro q hq hmem
    rw [(mem_maskedPins.mp hmem).2] at hq
    exact Bool.false_ne_true hq.symm
  have hpads : ∀ q, cfg.pinBitMask.getLsbD q = false →
      b'.view.pads q = View.passed (has cfg.mode gpioModeDefOutput) b.view q := by
    intro q hq
    exact (hout.pads q (hnot q hq)).trans (if_neg (maskedPins_ne_nil hne hlt))
  constructor
  · intro hsame ho q hq hg hlt34
    have hflags : View.passed true b.view q = b.view.pads q := by
      have hkept := hpads q hq
      rw [ho] at hkept
      exact hkept.symm.trans ((hsame q hq).flags hg)
    unfold View.passed at hflags
    rw [hg, if_pos (Bool.and_self true), decide_eq_true hlt34, Bool.and_true] at hflags
    exact (congrArg Flags.od hflags).symm
  · intro hcond q hq
    refine ⟨fun hg => ?_, hout.enable q (hnot q hq), hout.padDriver q (hnot q hq),
      hout.funcSel q (hnot q hq)⟩
    refine (hpads q hq).trans ?_
    unfold View.passed
    split
    next hpass =>
      have hod : (b.m.pads q).od = (b.m.gpio.padDriver q && decide (q < 34)) := by
        -- the input-only pins refuse the open drain, and have none
        by_cases h34 : q < 34
        · rw [decide_eq_true h34, Bool.and_true]
          exact hcond (Bool.and_eq_true_iff.mp hpass).1 q hq hg h34
        · rw [decide_eq_false h34, Bool.and_false]
          exact ((h.pads q).inputOnly (Nat.not_lt.mp h34)).2.2.2
      show ({ (b.m.pads q).flags with od := b.m.gpio.padDriver q && decide (q < 34) } : Flags) =
        (b.m.pads q).flags
      rw [← hod]
      rfl
    next => rfl

end Exact

/-- **`gpio_config` against the calls for one pin**: from every reachable board, in every mode and with
every pull setting and mask that it returns `ESP_OK` for, the two leave the same and the other pins as
they were exactly when no open drain is configured in the wrong way and no pad waits for its bit. -/
theorem gpioConfig_agrees {b b' : Board} (h : Reachable b) (mode : GpioMode) (mask : BitVec 64)
    (up down : Bool) (hc : b.gpioConfig ⟨mask, mode.bits, up, down⟩ = some (.espOk, b')) :
    AgreesWithEach ⟨mask, mode.bits, up, down⟩ b b' ↔ Undrained ⟨mask, mode.bits, up, down⟩ b := by
  have hagree := h.sound.agree_iff hc mode.output_of_od
  have hout := h.sound.outside_iff hc
  constructor
  · rintro ⟨hsame, hother⟩
    exact ⟨hagree.mp hsame, hout.mp hother⟩
  · rintro ⟨hdrained, hpassed⟩
    exact ⟨hagree.mpr hdrained, hout.mpr hpassed⟩

/-- After power-up no pad is an open drain, and no register says so. -/
theorem quiet_od (pin : Nat) : (quiet.m.pads pin).od = false ∧ quiet.m.gpio.padDriver pin = false := by
  have hview : (quiet.view.pads pin).od =
      (newPad (fun _ _ => (false, false)) pin).flags.od := by
    rw [quiet, Board.new, view_settlePads]
    rfl
  have hinit : has (padInitial pin) gpiomodeOd = false := by
    unfold padInitial
    repeat' split
    all_goals rfl
  exact ⟨hview.trans hinit, rfl⟩

/-- An output without open drain after power-up. -/
theorem output_agrees : ∃ b', quiet.gpioConfig ⟨0x10, GpioMode.output.bits, true, false⟩ =
    some (.espOk, b') ∧ AgreesWithEach ⟨0x10, GpioMode.output.bits, true, false⟩ quiet b' := by
  refine ⟨_, rfl, (gpioConfig_agrees (.powerUp _ _) .output 0x10 true false rfl).mpr ⟨?_, ?_⟩⟩
  · intro hod
    exact absurd hod (by decide)
  · intro _ pin _ _ _
    exact (quiet_od pin).1.trans (quiet_od pin).2.symm

/-- Pin 4 as an open drain after power-up. -/
theorem openDrain_lost : ∃ b b', Reachable b ∧
    b.gpioConfig ⟨0x10, GpioMode.outputOd.bits, false, false⟩ = some (.espOk, b') ∧
    ¬ AgreesWithEach ⟨0x10, GpioMode.outputOd.bits, false, false⟩ b b' := by
  refine ⟨quiet, _, .powerUp _ _, rfl, fun hagrees => ?_⟩
  have hcond := ((Reachable.powerUp _ _).sound.agree_iff rfl fun _ => rfl).mp hagrees.1 rfl 4 rfl
  have hdriver := hcond.2 fun q hq => ?_
  · exact absurd ((quiet_od 4).2.symm.trans hdriver) Bool.false_ne_true
  · have hbit : (0x10 : BitVec 64) = BitVec.twoPow 64 4 := rfl
    show (0x10 : BitVec 64).getLsbD q = false
    rw [hbit, BitVec.getLsbD_twoPow]
    simp [Nat.ne_of_lt hq]

end Board

end Espmod.Gpio
