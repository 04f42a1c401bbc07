/-
# Espmod.Gpio.Sound — what every call of the driver keeps, and what it leaves

Two things hold of every reachable board. A pad keeps the modes it was built with, and a pad that is
an input only never has an output flag (`PadSound`); so whether a request is refused depends on the
number of the pin alone, although the setters ask for the present direction. And the registers are
folded, with no pin enabled that the driver would not enable (`Sound`).

`view` is the registers and the flags of the pads. For the calls that change a mode there is an
equation for the view they leave.
-/
import Espmod.Gpio.Driver

namespace Espmod.Gpio

open Espmod.Lib IoMux

/-! ## §1 — what a request does to the flags of a pad -/

/-- The flags of a pad that the firmware sets. -/
structure Flags where
  ie : Bool
  oe : Bool
  wpu : Bool
  wpd : Bool
  od : Bool
deriving Repr, DecidableEq

def IoMux.flags (x : IoMux) : Flags := ⟨x.ie, x.oe, x.wpu, x.wpd, x.od⟩

/-- The flags of a pad that only ever takes in. -/
def Flags.InputOnly (f : Flags) : Prop :=
  f.oe = false ∧ f.wpu = false ∧ f.wpd = false ∧ f.od = false

/-- What every pad of the board keeps: the modes it was built with, and no output flag on a pad that
does not allow it. -/
structure PadSound (pin : Nat) (x : IoMux) : Prop where
  modes : x.modes = padModes pin
  inputOnly : 34 ≤ pin → x.flags.InputOnly

theorem has_padModes (pin : Nat) :
    has (padModes pin) gpiomodeNone = true ∧ has (padModes pin) gpiomodeInput = true ∧
      has (padModes pin) gpiomodeOutput = decide (pin < 34) ∧
      has (padModes pin) gpiomodeInout = decide (pin < 34) ∧
      has (padModes pin) gpiomodeWpu = decide (pin < 34) ∧
      has (padModes pin) gpiomodeWpd = decide (pin < 34) ∧
      has (padModes pin) gpiomodeOd = decide (pin < 34) := by
  unfold padModes
  by_cases h : pin < 34
  · rw [if_pos h, decide_eq_true h]
    decide
  · rw [if_neg h, decide_eq_false h]
    decide

/-- The answer to a request is whether it is allowed. -/
theorem request_fst (allowed cur want : Bool) (put m : IoMux) :
    (request allowed cur want put m).1 = allowed := by
  unfold request
  cases allowed with
  | true =>
    rw [if_pos rfl]
    split <;> rfl
  | false => rfl

theorem flags_request {allowed cur want : Bool} {put m : IoMux}
    (hsame : cur = want → put.flags = m.flags) :
    (request allowed cur want put m).2.flags = if allowed then put.flags else m.flags := by
  unfold request
  cases allowed with
  | true =>
    rw [if_pos rfl, if_pos rfl]
    split
    -- the flag is as wanted, so what would be put is what is there
    next h => exact (hsame h).symm
    next => rfl
  | false => rfl

theorem modes_request {allowed cur want : Bool} {put m : IoMux} (hm : put.modes = m.modes) :
    (request allowed cur want put m).2.modes = m.modes := by
  rcases request_cases allowed cur want put m with he | he
  · rw [he]
  · rw [he]
    exact hm

section Requests

variable {pin : Nat} {x put : IoMux} {allowed cur : Bool}

/-- A request that is never refused and puts no output flag. `f` is the flags by the one asked for. -/
theorem PadSound.granted (h : PadSound pin x) {want : Bool} (f : Bool → Flags)
    (hok : allowed = true) (hm : put.modes = x.modes) (hput : put.flags = f want)
    (hcur : x.flags = f cur) (hoff : x.flags.InputOnly → (f want).InputOnly) :
    PadSound pin (request allowed cur want put x).2 ∧
      (request allowed cur want put x).2.flags = f want := by
  have hflags : (request allowed cur want put x).2.flags = f want := by
    rw [flags_request fun hsame => by rw [hput, hcur, hsame], hok, if_pos rfl, hput]
  refine ⟨⟨(modes_request hm).trans h.modes, fun hpin => ?_⟩, hflags⟩
  rw [hflags]
  exact hoff (h.inputOnly hpin)

/-- A request for an output flag: granted to the pins below 34, and clear on the others. -/
theorem PadSound.output (h : PadSound pin x) (f : Bool → Flags) (hok : allowed = decide (pin < 34))
    (hm : put.modes = x.modes) (hput : put.flags = f true) (hcur : x.flags = f cur)
    (hoff : x.flags.InputOnly → cur = false) :
    PadSound pin (request allowed cur true put x).2 ∧
      (request allowed cur true put x).2.flags = f (decide (pin < 34)) := by
  by_cases hpin : pin < 34
  · rw [decide_eq_true hpin] at hok ⊢
    refine ⟨⟨(modes_request hm).trans h.modes, fun hge => absurd hpin (Nat.not_lt.mpr hge)⟩, ?_⟩
    rw [flags_request fun hsame => by rw [hput, hcur, hsame], hok, if_pos rfl, hput]
  · rw [decide_eq_false hpin] at hok ⊢
    -- refused, and the flag of an input-only pin is clear anyway
    have hkeep : (request allowed cur true put x).2 = x := by
      rw [hok]
      rfl
    rw [hkeep, hcur, hoff (h.inputOnly (Nat.not_lt.mp hpin))]
    exact ⟨h, rfl⟩

theorem PadSound.setIe (h : PadSound pin x) :
    x.setIe.1 = true ∧ PadSound pin x.setIe.2 ∧ x.setIe.2.flags = { x.flags with ie := true } := by
  obtain ⟨_, hin, _, hinout, _⟩ := has_padModes pin
  have hok : (!x.oe && has x.modes gpiomodeInput || x.oe && has x.modes gpiomodeInout) = true := by
    rw [h.modes, hin, hinout]
    by_cases hpin : pin < 34
    · simp [hpin]
    · -- from pin 34 on no pad is an output, so only the mode of an input is asked for
      have hoe : x.oe = false := (h.inputOnly (by omega)).1
      simp [hoe]
  exact ⟨(request_fst _ _ _ _ _).trans hok,
    h.granted (fun v => { x.flags with ie := v }) hok rfl rfl rfl id⟩

theorem PadSound.clrIe (h : PadSound pin x) :
    x.clrIe.1 = true ∧ PadSound pin x.clrIe.2 ∧ x.clrIe.2.flags = { x.flags with ie := false } := by
  obtain ⟨hnone, _, hout, _⟩ := has_padModes pin
  have hok : (!x.oe && has x.modes gpiomodeNone || x.oe && has x.modes gpiomodeOutput) = true := by
    rw [h.modes, hnone, hout]
    by_cases hpin : pin < 34
    · simp [hpin]
    · have hoe : x.oe = false := (h.inputOnly (by omega)).1
      simp [hoe]
  exact ⟨(request_fst _ _ _ _ _).trans hok,
    h.granted (fun v => { x.flags with ie := v }) hok rfl rfl rfl id⟩

theorem PadSound.setOe (h : PadSound pin x) :
    PadSound pin x.setOe.2 ∧ x.setOe.2.flags = { x.flags with oe := decide (pin < 34) } := by
  obtain ⟨_, _, hout, hinout, _⟩ := has_padModes pin
  have hok : (!x.ie && has x.modes gpiomodeOutput || x.ie && has x.modes gpiomodeInout) =
      decide (pin < 34) := by
    rw [h.modes, hout, hinout]
    cases x.ie <;> simp
  exact h.output (fun v => { x.flags with oe := v }) hok rfl rfl rfl fun hoff => hoff.1

/-- Neither the pull-up, the pull-down nor the open drain of a pad can be refused its absence. -/
theorem PadSound.wpu (h : PadSound pin x) (up : Bool) :
    PadSound pin (if up then x.setWpu.2 else x.clrWpu.2) ∧
      (if up then x.setWpu.2 else x.clrWpu.2).flags =
        { x.flags with wpu := up && decide (pin < 34) } := by
  obtain ⟨_, _, _, _, hmode, _⟩ := has_padModes pin
  cases up with
  | true =>
    exact h.output (fun v => { x.flags with wpu := v }) (h.modes ▸ hmode) rfl rfl rfl
      fun hoff => hoff.2.1
  | false =>
    exact h.granted (fun v => { x.flags with wpu := v }) (by rw [h.modes, padModes_nowpu]; rfl) rfl rfl
      rfl fun hoff => ⟨hoff.1, rfl, hoff.2.2⟩

theorem PadSound.wpd (h : PadSound pin x) (down : Bool) :
    PadSound pin (if down then x.setWpd.2 else x.clrWpd.2) ∧
      (if down then x.setWpd.2 else x.clrWpd.2).flags =
        { x.flags with wpd := down && decide (pin < 34) } := by
  obtain ⟨_, _, _, _, _, hmode, _⟩ := has_padModes pin
  cases down with
  | true =>
    exact h.output (fun v => { x.flags with wpd := v }) (h.modes ▸ hmode) rfl rfl rfl
      fun hoff => hoff.2.2.1
  | false =>
    exact h.granted (fun v => { x.flags with wpd := v }) (by rw [h.modes, padModes_nowpd]; rfl) rfl rfl
      rfl fun hoff => ⟨hoff.1, hoff.2.1, rfl, hoff.2.2.2⟩

theorem PadSound.od (h : PadSound pin x) (drain : Bool) :
    PadSound pin (if drain then x.setOd.2 else x.clrOd.2) ∧
      (if drain then x.setOd.2 else x.clrOd.2).flags =
        { x.flags with od := drain && decide (pin < 34) } := by
  obtain ⟨_, _, _, _, _, _, hmode⟩ := has_padModes pin
  cases drain with
  | true =>
    exact h.output (fun v => { x.flags with od := v }) (h.modes ▸ hmode) rfl rfl rfl
      fun hoff => hoff.2.2.2
  | false =>
    exact h.granted (fun v => { x.flags with od := v }) (by rw [h.modes, padModes_nood]; rfl) rfl rfl
      rfl fun hoff => ⟨hoff.1, hoff.2.1, hoff.2.2.1, rfl⟩

/-- Taking the output enable away. -/
theorem PadSound.clrOe (h : PadSound pin x) : PadSound pin x.clrOe.2 := by
  rcases request_cases (!x.ie && has x.modes gpiomodeNone || x.ie && has x.modes gpiomodeInput) x.oe
    false { x with oe := false, drivePending := true } x with he | he
  · rw [IoMux.clrOe, he]
    exact h
  · rw [IoMux.clrOe, he]
    exact ⟨h.modes, fun hpin => ⟨rfl, (h.inputOnly hpin).2⟩⟩

/-- A new function, whichever it is. -/
theorem PadSound.setFunction (h : PadSound pin x) (f : GpioFunction) :
    PadSound pin (x.setFunction f) := by
  -- the analog function takes every flag away first
  have hmode : PadSound pin (x.setMode gpiomodeNone).2 :=
    ((((h.clrIe.2.1.clrOe).wpu false).1.wpd false).1.od false).1
  unfold IoMux.setFunction
  split
  · exact h
  · cases f with
    | analog =>
      dsimp only
      split
      · exact ⟨hmode.modes, hmode.inputOnly⟩
      · exact h
    | gpio => exact h
    | func k =>
      dsimp only
      split
      · exact h
      · exact ⟨h.modes, h.inputOnly⟩

end Requests

/-! ## §2 — the registers and flags of a board -/

/-- What the calls are about: the registers, and the flags of every pad. -/
structure View where
  dev : GpioDev
  pads : Nat → Flags

namespace View

def setPad (pin : Nat) (g : Flags → Flags) (v : View) : View :=
  { v with pads := fun q => if q = pin then g (v.pads q) else v.pads q }

/-- The full update passes the open-drain bits on. -/
def passDrains (v : View) : View :=
  { v with
    pads := fun q =>
      if getgpio q then { v.pads q with od := v.dev.padDriver q && decide (q < 34) } else v.pads q }

end View

/-- The output of a pin is enabled or disabled, and the pin is the GPIO's. -/
def GpioDev.withEnable (pin : Nat) (on : Bool) (d : GpioDev) : GpioDev :=
  { d with
    enable :=
      if on then ({ d.enable with w1ts := d.enable.w1ts.assign pin } : Port).applycs
      else ({ d.enable with w1tc := d.enable.w1tc.assign pin } : Port).applycs
    funcOutSel := fun q => if q = pin then BitVec.ofNat 9 Board.sigGpioOutIdx else d.funcOutSel q }

/-- The registers between two calls: folded, and only pins enabled that the driver would enable. -/
structure DevSound (d : GpioDev) : Prop where
  out : d.out.applycs = d.out
  enable : d.enable.applycs = d.enable
  valid : ∀ q, d.enable.data.bit q = true → gpioIsValidGpio q = true

open Board in
theorem DevSound.withEnable {d : GpioDev} (h : DevSound d) {pin : Nat}
    (hv : gpioIsValidGpio pin = true) (on : Bool) : DevSound (d.withEnable pin on) := by
  obtain ⟨_, hlt⟩ := valid_ne_zero hv
  cases on with
  | true =>
    refine ⟨h.out, Port.applycs_applycs _, fun q hq => ?_⟩
    have hbit := hq
    rw [GpioDev.withEnable, if_pos rfl, Port.bit_set h.enable hlt] at hbit
    split at hbit
    -- the bit that is set: the driver has checked this pin
    next heq => exact heq ▸ hv
    next => exact h.valid q hbit
  | false =>
    refine ⟨h.out, Port.applycs_applycs _, fun q hq => h.valid q ?_⟩
    have hbit : (d.withEnable pin false).enable.data.bit q = true := hq
    rw [show (d.withEnable pin false).enable =
      ({ d.enable with w1tc := d.enable.w1tc.assign pin } : Port).applycs from rfl,
      Port.bit_clear h.enable hlt] at hbit
    split at hbit
    next => exact absurd hbit Bool.false_ne_true
    next => exact hbit

namespace Board

def view (b : Board) : View := ⟨b.m.gpio, fun q => (b.m.pads q).flags⟩

/-- What every reachable board keeps. -/
structure Sound (b : Board) : Prop where
  dev : DevSound b.m.gpio
  pads : ∀ q, PadSound q (b.m.pads q)

theorem feedPad_flags (l e : Bool) (x : IoMux) :
    (feedPad l e x).flags = x.flags ∧ (feedPad l e x).modes = x.modes := by
  obtain ⟨d, lv, p, dp, fp, w, heq⟩ := settle_eq ((x.finChange 2 l).fenChange 2 e)
  have hfeed : feedPad l e x = _ := heq
  rw [hfeed]
  exact ⟨rfl, rfl⟩

@[simp] theorem view_settlePads (b : Board) : b.settlePads.view = b.view := by
  show View.mk b.m.gpio _ = View.mk b.m.gpio _
  congr 1
  funext q
  show IoMux.flags (if getgpio q then feedPad _ _ (b.m.pads q) else b.m.pads q) = _
  split
  · exact (feedPad_flags _ _ _).1
  · rfl

theorem pads_settlePads {b : Board} (h : ∀ q, PadSound q (b.m.pads q)) (q : Nat) :
    PadSound q (b.settlePads.m.pads q) := by
  show PadSound q (if getgpio q then feedPad _ _ (b.m.pads q) else b.m.pads q)
  split
  · obtain ⟨hflags, hmodes⟩ := feedPad_flags (transfer b.periph (b.m.function q).cur).1
      (transfer b.periph (b.m.function q).cur).2 (b.m.pads q)
    exact ⟨hmodes.trans (h q).modes, fun hq => by rw [hflags]; exact (h q).inputOnly hq⟩
  · exact h q

theorem Sound.settlePads {b : Board} (h : Sound b) : Sound b.settlePads :=
  ⟨h.dev, pads_settlePads h.pads⟩

/-- One pad is asked for something. -/
theorem Sound.onPad {b : Board} (h : Sound b) {pin : Nat} {f : IoMux → IoMux}
    (hf : ∀ x, PadSound pin x → PadSound pin (f x)) : Sound (b.onPad pin f) := by
  refine ⟨h.dev, fun q => ?_⟩
  show PadSound q (if q = pin then f (b.m.pads q) else b.m.pads q)
  split
  next heq =>
    subst heq
    exact hf _ (h.pads q)
  next => exact h.pads q

theorem view_onPad {b : Board} {pin : Nat} {f : IoMux → IoMux} {g : Flags → Flags}
    (hf : (f (b.m.pads pin)).flags = g (b.m.pads pin).flags) :
    (b.onPad pin f).view = b.view.setPad pin g := by
  show View.mk b.m.gpio _ = View.mk b.m.gpio _
  congr 1
  funext q
  show IoMux.flags (if q = pin then f (b.m.pads q) else b.m.pads q) =
    if q = pin then g (b.m.pads q).flags else (b.m.pads q).flags
  split
  next heq =>
    subst heq
    exact hf
  next => rfl

/-- A request of which it is known what it does to a sound pad. -/
theorem Sound.request_view {b : Board} (h : Sound b) {pin : Nat} {f : IoMux → IoMux}
    {g : Flags → Flags} (hf : ∀ x, PadSound pin x → PadSound pin (f x) ∧ (f x).flags = g x.flags) :
    Sound (b.onPad pin f) ∧ (b.onPad pin f).view = b.view.setPad pin g :=
  ⟨h.onPad fun x hx => (hf x hx).1, view_onPad (hf _ (h.pads pin)).2⟩

/-- The full update folds the registers and passes the open-drain bits on. -/
theorem full_update {b : Board} (hp : ∀ q, PadSound q (b.m.pads q)) :
    (∀ q, PadSound q ((b.update .update).m.pads q)) ∧
      (b.update .update).view = View.passDrains { b.view with dev := b.m.gpio.folded } := by
  have hpads : ∀ q, PadSound q ((b.m.updateth .update).commit.pads q) ∧
      ((b.m.updateth .update).commit.pads q).flags =
        if getgpio q then
          { (b.m.pads q).flags with od := b.m.gpio.padDriver q && decide (q < 34) }
        else (b.m.pads q).flags := by
    intro q
    show PadSound q (if getgpio q then
      (if b.m.gpio.padDriver q then (b.m.pads q).setOd.2 else (b.m.pads q).clrOd.2) else b.m.pads q) ∧
      IoMux.flags (if getgpio q then
        (if b.m.gpio.padDriver q then (b.m.pads q).setOd.2 else (b.m.pads q).clrOd.2)
        else b.m.pads q) = _
    split
    · exact (hp q).od _
    · exact ⟨hp q, rfl⟩
  refine ⟨pads_settlePads fun q => (hpads q).1, ?_⟩
  rw [Board.update, view_settlePads]
  show View.mk b.m.gpio.folded _ = View.mk b.m.gpio.folded _
  congr 1
  funext q
  exact (hpads q).2

/-- The patch of the directions leaves the flags alone. -/
theorem view_oe (b : Board) :
    (b.update .updategpiooe).view = { b.view with dev := b.m.gpio.applyoecsbits } := by
  rw [Board.update, view_settlePads]
  rfl

/-! ## §3 — what each call does -/

theorem Sound.gpioSetInput {b : Board} (h : Sound b) (pin : Nat) : Sound (b.gpioSetInput pin) := by
  unfold Board.gpioSetInput
  split
  · exact h
  · split
    · exact h
    · exact h.onPad fun _ hx => hx.setIe.2.1

theorem Sound.gpioClrInput {b : Board} (h : Sound b) (pin : Nat) : Sound (b.gpioClrInput pin) := by
  unfold Board.gpioClrInput
  split
  · exact h
  · split
    · exact h
    · exact h.onPad fun _ hx => hx.clrIe.2.1

/-- A request that a call passes on to a pad. -/
theorem Sound.onGpin {b : Board} (h : Sound b) {pin : Nat} {f : IoMux → IoMux}
    (hf : ∀ x, PadSound pin x → PadSound pin (f x)) : Sound (b.onGpin pin f) := by
  unfold Board.onGpin
  split
  · exact h
  · exact h.onPad hf

/-- Registers that stay sound when they are written, and the full update. -/
theorem Sound.writeFull {b : Board} (h : Sound b) {f : GpioDev → GpioDev}
    (hf : DevSound (f b.m.gpio)) : Sound ((b.onGpio f).update .update) ∧
      ((b.onGpio f).update .update).view = View.passDrains { b.view with dev := f b.m.gpio } := by
  have hfold : (f b.m.gpio).folded = f b.m.gpio := GpioDev.folded_eq hf.out hf.enable
  obtain ⟨hpads, hview⟩ := full_update (b := b.onGpio f) h.pads
  have hdev : ((b.onGpio f).update .update).m.gpio = f b.m.gpio := by
    show (f b.m.gpio).folded = _
    exact hfold
  refine ⟨⟨by rw [hdev]; exact hf, hpads⟩, hview.trans ?_⟩
  show View.passDrains ⟨(f b.m.gpio).folded, _⟩ = View.passDrains ⟨f b.m.gpio, _⟩
  rw [hfold]
  rfl

/-- Levels written, and the update of the levels. -/
theorem Sound.writeReg {b : Board} (h : Sound b) {f : GpioDev → GpioDev}
    (hf : (f b.m.gpio).enable = b.m.gpio.enable) : Sound ((b.onGpio f).update .updategpioreg) := by
  refine ⟨⟨Port.applycs_applycs _, ?_, ?_⟩, pads_settlePads h.pads⟩
  · show (f b.m.gpio).enable.applycs = (f b.m.gpio).enable
    rw [hf]
    exact h.dev.enable
  · show ∀ q, (f b.m.gpio).enable.data.bit q = true → gpioIsValidGpio q = true
    rw [hf]
    exact h.dev.valid

/-- **`gpio_output_disable`**, of a pin the driver accepts. -/
theorem Sound.gpioOutputDisable_spec {b : Board} (h : Sound b) {pin : Nat}
    (hv : gpioIsValidGpio pin = true) : Sound (b.gpioOutputDisable pin) ∧
      (b.gpioOutputDisable pin).view =
        { b.view with dev := b.m.gpio.withEnable pin false } := by
  have heq : b.gpioOutputDisable pin = (b.onGpio fun d =>
      { d with
        enable := { d.enable with w1tc := d.enable.w1tc.assign pin }
        funcOutSel := fun q =>
          if q = pin then BitVec.ofNat 9 sigGpioOutIdx else d.funcOutSel q }).update
      .updategpiooe := by
    unfold Board.gpioOutputDisable
    rw [hv]
    rfl
  rw [heq]
  refine ⟨⟨h.dev.withEnable hv false, pads_settlePads h.pads⟩, ?_⟩
  rw [view_oe]
  rfl

/-- **`gpio_output_enable`**, of a pin the driver accepts: two updates, the second of them full. -/
theorem Sound.gpioOutputEnable_spec {b : Board} (h : Sound b) {pin : Nat}
    (hv : gpioIsValidOutputGpio pin = true) : Sound (b.gpioOutputEnable pin) ∧
      (b.gpioOutputEnable pin).view =
        View.passDrains { b.view with dev := b.m.gpio.withEnable pin true } := by
  have hvalid : gpioIsValidGpio pin = true := by
    unfold gpioIsValidOutputGpio at hv
    exact (Bool.and_eq_true_iff.mp hv).1
  obtain ⟨_, hlt⟩ := valid_ne_zero hvalid
  have hdev := h.dev.withEnable hvalid true
  -- the board after the first update
  have hfirst : Sound ((b.onGpio fun d =>
      { d with enable := { d.enable with w1ts := d.enable.w1ts.assign pin } }).update
      .updategpiooe) :=
    ⟨⟨h.dev.out, hdev.enable, hdev.valid⟩, pads_settlePads h.pads⟩
  have hfull := hfirst.writeFull (f := fun d =>
    { d with funcOutSel := fun q =>
        if q = pin then BitVec.ofNat 9 sigGpioOutIdx else d.funcOutSel q })
    ⟨hfirst.dev.out, hfirst.dev.enable, hfirst.dev.valid⟩
  have heq : b.gpioOutputEnable pin = (((b.onGpio fun d =>
      { d with enable := { d.enable with w1ts := d.enable.w1ts.assign pin } }).update
      .updategpiooe).onGpio fun d =>
        { d with funcOutSel := fun q =>
            if q = pin then BitVec.ofNat 9 sigGpioOutIdx else d.funcOutSel q }).update .update := by
    unfold Board.gpioOutputEnable
    rw [hv]
    unfold Board.gpioMatrixOut
    rw [if_neg (Nat.not_le.mpr hlt)]
    rfl
  rw [heq]
  refine ⟨hfull.1, hfull.2.trans ?_⟩
  rw [view_oe]
  rfl

/-! ## §4 — every reachable board is sound -/

theorem Sound.gpioOutputDisable {b : Board} (h : Sound b) (pin : Nat) :
    Sound (b.gpioOutputDisable pin) := by
  cases hv : gpioIsValidGpio pin with
  | false =>
    unfold Board.gpioOutputDisable
    rw [hv]
    exact h
  | true => exact (h.gpioOutputDisable_spec hv).1

theorem Sound.gpioOutputEnable {b : Board} (h : Sound b) (pin : Nat) :
    Sound (b.gpioOutputEnable pin) := by
  cases hv : gpioIsValidOutputGpio pin with
  | false =>
    unfold Board.gpioOutputEnable
    rw [hv]
    exact h
  | true => exact (h.gpioOutputEnable_spec hv).1

/-- A register that neither port is made of. -/
theorem Sound.onGpio {b : Board} (h : Sound b) {f : GpioDev → GpioDev}
    (hout : (f b.m.gpio).out = b.m.gpio.out) (hen : (f b.m.gpio).enable = b.m.gpio.enable) :
    Sound (b.onGpio f) := by
  refine ⟨⟨?_, ?_, ?_⟩, h.pads⟩
  · show (f b.m.gpio).out.applycs = (f b.m.gpio).out
    rw [hout]
    exact h.dev.out
  · show (f b.m.gpio).enable.applycs = (f b.m.gpio).enable
    rw [hen]
    exact h.dev.enable
  · show ∀ q, (f b.m.gpio).enable.data.bit q = true → gpioIsValidGpio q = true
    rw [hen]
    exact h.dev.valid

theorem Sound.update {b : Board} (h : Sound b) : Sound (b.update .update) :=
  (h.writeFull (f := fun d => d) h.dev).1

theorem Sound.gpioMatrixOut {b : Board} (h : Sound b) (gpio signal : Nat) :
    Sound (b.gpioMatrixOut gpio signal) := by
  unfold Board.gpioMatrixOut
  split
  · exact h
  · exact (h.onGpio rfl rfl).update

theorem Sound.gpioMatrixInput {b : Board} (h : Sound b) (gpio signal : Nat) (inv : Bool) :
    Sound (b.gpioMatrixInput gpio signal inv) := by
  unfold Board.gpioMatrixInput
  split
  next => exact h
  next hsig =>
    have hkeep : (gpioMatrixIn gpio signal inv b.m.gpio).out = b.m.gpio.out ∧
        (gpioMatrixIn gpio signal inv b.m.gpio).enable = b.m.gpio.enable := by
      unfold gpioMatrixIn
      rw [if_neg hsig]
      exact ⟨rfl, rfl⟩
    exact (h.onGpio hkeep.1 hkeep.2).update

theorem Sound.gpioSetLevel {b : Board} (h : Sound b) (pin : Nat) (level : Bool) :
    Sound (b.gpioSetLevel pin level) := by
  unfold Board.gpioSetLevel
  split
  · exact h
  · apply h.writeReg
    split <;> rfl

theorem Sound.digitalWrite {b : Board} (h : Sound b) (pin : Nat) (val : Bool) :
    Sound (b.digitalWrite pin val) := by
  apply h.writeReg
  unfold digitalWriteNodel
  repeat' split
  all_goals rfl

/-- Bits taken out of the enable register, and levels written with them. -/
theorem Sound.writeBoth {b : Board} (h : Sound b) {f : GpioDev → GpioDev}
    (hw : (f b.m.gpio).enable.data = b.m.gpio.enable.data)
    (hs : (f b.m.gpio).enable.w1ts = b.m.gpio.enable.w1ts) :
    Sound (((b.onGpio f).update .updategpioreg).update .updategpiooe) := by
  refine ⟨⟨Port.applycs_applycs _, Port.applycs_applycs _, fun q hq => h.dev.valid q ?_⟩,
    pads_settlePads (pads_settlePads h.pads)⟩
  have hbit : (f b.m.gpio).enable.applycs.data.bit q = true := hq
  have hzero := (Port.zero_of_folded h.dev.enable).1
  rw [Port.bit_applycs, hw, hs, hzero, Bits.bit_zero, Bool.or_false] at hbit
  exact (Bool.and_eq_true_iff.mp hbit).1

theorem Sound.pinMode {b : Board} (h : Sound b) (pin : Nat) (mode : BitVec 8) :
    Sound (b.pinMode pin mode) := by
  apply Sound.settlePads
  unfold Board.pinModeNodel
  split
  · exact h
  split
  · exact h
  split
  · exact h.onPad fun _ hx => hx.setFunction .analog
  dsimp only
  have hie : Sound (if asks mode modeInput then b.gpioSetInput pin else b.gpioClrInput pin) := by
    split
    · exact h.gpioSetInput pin
    · exact h.gpioClrInput pin
  have hoe : ∀ b' : Board, Sound b' →
      Sound (if asks mode modeOutput then b'.gpioOutputEnable pin else b'.gpioOutputDisable pin) := by
    intro b' h'
    split
    · exact h'.gpioOutputEnable pin
    · exact h'.gpioOutputDisable pin
  refine ((((hoe _ hie).onPad fun _ hx => ?_).onPad fun _ hx => ?_).onGpio rfl rfl).onPad
    fun _ hx => ?_
  · exact (hx.wpu _).1
  · exact (hx.wpd _).1
  · exact (hx.od _).1

theorem Sound.call {b : Board} (h : Sound b) (c : ApiCall) : Sound (b.call c) := by
  cases c with
  | pinMode pin mode => exact h.pinMode pin mode
  | digitalWrite pin val => exact h.digitalWrite pin val
  | digitalRead pin => exact h
  | analogRead pin =>
    show Sound (b.analogRead pin)
    unfold Board.analogRead
    split
    · exact h
    · exact h.pinMode pin modeAnalog

theorem Sound.setPadDriver {b : Board} (h : Sound b) (pin : Nat) (v : Bool) :
    Sound (b.setPadDriver pin v) := h.onGpio rfl rfl

theorem Sound.ask {b : Board} (h : Sound b) {pin : Nat} {f : IoMux → Bool × IoMux}
    (hf : ∀ x, PadSound pin x → PadSound pin (f x).2) : Sound (b.ask pin f).2 :=
  Sound.onPad (f := fun x => (f x).2) h hf

theorem Sound.askOutput {r : Bool × Board} (h : Sound r.2) (pin : Nat) (output : Bool) :
    Sound (askOutput pin output r).2 := by
  unfold Board.askOutput
  split
  · exact h
  · split
    · exact h.gpioOutputEnable pin
    · exact h.gpioOutputDisable pin

theorem Sound.gpioSetDirection {b : Board} (h : Sound b) (pin : Nat) (mode : BitVec 32) :
    Sound (b.gpioSetDirection pin mode).2 := by
  have hinput : Sound (b.ask pin fun x =>
      if has mode gpioModeDefInput then x.setIe else x.clrIe).2 := by
    refine h.ask fun x hx => ?_
    split
    · exact hx.setIe.2.1
    · exact hx.clrIe.2.1
  have hdrain : ∀ b₁ : Board, Sound b₁ → Sound (b₁.ask pin fun x =>
      if has mode gpioModeDefOd then x.setOd else x.clrOd).2 := by
    intro b₁ h₁
    refine h₁.ask fun x hx => ?_
    split
    · exact (hx.od true).1
    · exact (hx.od false).1
  unfold Board.gpioSetDirection
  split
  · exact h
  split
  · exact h
  split
  · exact h
  exact Sound.settlePads (hdrain _ ((hinput.askOutput pin _).setPadDriver pin _))

theorem Sound.gpioSetPullMode {b : Board} (h : Sound b) (pin : Nat) (pull : GpioPullMode) :
    Sound (b.gpioSetPullMode pin pull).2 := by
  unfold Board.gpioSetPullMode
  split
  · exact h
  · apply Sound.settlePads
    cases pull with
    | pullupOnly => exact (h.ask fun _ hx => (hx.wpu true).1).ask fun _ hx => (hx.wpd false).1
    | pulldownOnly => exact (h.ask fun _ hx => (hx.wpd true).1).ask fun _ hx => (hx.wpu false).1
    | pullupPulldown => exact (h.ask fun _ hx => (hx.wpd true).1).ask fun _ hx => (hx.wpu true).1
    | floating => exact (h.ask fun _ hx => (hx.wpd false).1).ask fun _ hx => (hx.wpu false).1

theorem Sound.configPin {b b' : Board} (h : Sound b) {cfg : GpioConfig} {pin : Nat}
    (hc : b.configPin cfg pin = some b') : Sound b' := by
  unfold Board.configPin at hc
  dsimp only at hc
  split at hc
  · cases hc
  · have hie : Sound
        (if has cfg.mode gpioModeDefInput then b.gpioSetInput pin else b.gpioClrInput pin) := by
      split
      · exact h.gpioSetInput pin
      · exact h.gpioClrInput pin
    have hoe : ∀ b₁ : Board, Sound b₁ → Sound (if has cfg.mode gpioModeDefOutput then
        b₁.gpioOutputEnable pin else b₁.gpioOutputDisable pin) := by
      intro b₁ h₁
      split
      · exact h₁.gpioOutputEnable pin
      · exact h₁.gpioOutputDisable pin
    have hod : ∀ b₁ : Board, Sound b₁ → Sound (b₁.onPad pin fun x =>
        if has cfg.mode gpioModeDefOd then x.setOe.2 else x.clrOd.2) := by
      intro b₁ h₁
      refine h₁.onPad fun x hx => ?_
      split
      · exact hx.setOe.1
      · exact (hx.od false).1
    have hup : ∀ b₁ : Board, Sound b₁ →
        Sound (if cfg.pullUpEn then b₁.gpioPullupEn pin else b₁.gpioPullupDis pin) := by
      intro b₁ h₁
      split
      · exact h₁.onGpin fun _ hx => (hx.wpu true).1
      · exact h₁.onGpin fun _ hx => (hx.wpu false).1
    have hdown : ∀ b₁ : Board, Sound b₁ →
        Sound (if cfg.pullDownEn then b₁.gpioPulldownEn pin else b₁.gpioPulldownDis pin) := by
      intro b₁ h₁
      split
      · exact h₁.onGpin fun _ hx => (hx.wpd true).1
      · exact h₁.onGpin fun _ hx => (hx.wpd false).1
    rw [← Option.some.inj hc]
    refine Sound.onGpin ?_ fun _ hx => hx.setFunction _
    exact hdown _ (hup _ (hod _ ((hoe _ hie).setPadDriver pin _)))

theorem Sound.configLoop {cfg : GpioConfig} {pins : List Nat} {b b' : Board} {err : GpioErr}
    (h : Sound b) (hc : configLoop cfg pins b = some (err, b')) : Sound b' := by
  induction pins generalizing b with
  | nil =>
    cases hc
    exact h.settlePads
  | cons pin pins ih =>
    rw [Board.configLoop] at hc
    split at hc
    · split at hc
      · cases hc
        exact h
      · split at hc
        next => cases hc
        next b₁ hpin => exact ih (h.configPin hpin) hc
    · exact ih h hc

theorem Sound.gpioConfig {b b' : Board} (h : Sound b) {cfg : GpioConfig} {err : GpioErr}
    (hc : b.gpioConfig cfg = some (err, b')) : Sound b' := by
  unfold Board.gpioConfig at hc
  split at hc
  · cases hc
    exact h
  split at hc
  · cases hc
    exact h
  exact h.configLoop hc

/-- **Every call keeps the board sound.** -/
theorem Sound.driverCall {b b' : Board} (h : Sound b) (c : DriverCall)
    (hc : b.driverCall c = some b') : Sound b' := by
  cases c with
  | config cfg =>
    obtain ⟨⟨err, b₁⟩, hcfg, heq⟩ := Option.map_eq_some_iff.mp hc
    rw [← heq]
    exact h.gpioConfig hcfg
  | core c => cases hc; exact h.call c
  | setLevel pin level => cases hc; exact h.gpioSetLevel pin level
  | setDirection pin mode => cases hc; exact h.gpioSetDirection pin mode
  | setInput pin => cases hc; exact h.gpioSetInput pin
  | clrInput pin => cases hc; exact h.gpioClrInput pin
  | outputEnable pin => cases hc; exact h.gpioOutputEnable pin
  | outputDisable pin => cases hc; exact h.gpioOutputDisable pin
  | setPullMode pin pull => cases hc; exact h.gpioSetPullMode pin pull
  | pullupEn pin => cases hc; exact h.onGpin fun _ hx => (hx.wpu true).1
  | pullupDis pin => cases hc; exact h.onGpin fun _ hx => (hx.wpu false).1
  | pulldownEn pin => cases hc; exact h.onGpin fun _ hx => (hx.wpd true).1
  | pulldownDis pin => cases hc; exact h.onGpin fun _ hx => (hx.wpd false).1
  | padSelectGpio pin => cases hc; exact h.onGpin fun _ hx => hx.setFunction _
  | iomuxIn pin => cases hc; exact h.update.gpioSetInput _
  | iomuxOut pin func => cases hc; exact h.onGpin fun _ hx => hx.setFunction _
  | matrixIn gpio signal inv => cases hc; exact h.gpioMatrixInput gpio signal inv
  | matrixOut gpio signal => cases hc; exact h.gpioMatrixOut gpio signal
  | outputSet set clear enable disable => cases hc; exact h.writeBoth rfl rfl
  | outputSetHigh set clear enable disable => cases hc; exact h.writeBoth rfl rfl
  | peripherals periph => cases hc; exact Sound.settlePads ⟨h.dev, h.pads⟩

theorem padSound_newPad (others : Nat → Nat → Bool × Bool) (pin : Nat) :
    PadSound pin (newPad others pin) := by
  refine ⟨rfl, fun hpin => ?_⟩
  have hinit : padInitial pin = gpiomodeNone := by
    have hne : ∀ p < 34, pin ≠ p := fun p hp => by omega
    simp [padInitial, hne]
  show Flags.InputOnly ⟨has (padInitial pin) gpiomodeInput || has (padInitial pin) gpiomodeInout,
    has (padInitial pin) gpiomodeOutput || has (padInitial pin) gpiomodeInout,
    has (padInitial pin) gpiomodeWpu, has (padInitial pin) gpiomodeWpd, has (padInitial pin) gpiomodeOd⟩
  rw [hinit]
  exact ⟨rfl, rfl, rfl, rfl⟩

/-- **Every reachable board is sound.** -/
theorem Reachable.sound {b : Board} (h : Reachable b) : Sound b := by
  induction h with
  | powerUp periph others =>
    apply Sound.settlePads
    have hzero : Port.zero.applycs = Port.zero := by decide
    refine ⟨⟨hzero, hzero, fun q hq => ?_⟩, padSound_newPad others⟩
    have hbit : Bits.zero.bit q = true := hq
    rw [Bits.bit_zero] at hbit
    exact absurd hbit Bool.false_ne_true
  | call c _ hc ih => exact ih.driverCall c hc

end Board

end Espmod.Gpio
