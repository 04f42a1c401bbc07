/-
# Espmod.Gpio.Driver — the calls of the GPIO driver and of the ROM

Every call of `driver/gpio.h` and of the ROM's `gpio.h` that touches the matrix or a pad, over the
settled board. A call either writes registers and asks for an update, or requests a flag of one pad,
or does both in turn, as `gpio_config` and `gpio_set_direction` do. `Reachable` is the states that any
sequence of them leads to from power-up, together with the calls of the Arduino core and with
peripherals that change what they drive.
-/
import Espmod.Gpio.PinApi
import Espmod.Gpio.Routing
import Mathlib.Algebra.Group.Nat.Defs

namespace Espmod.Gpio

open Espmod.Lib

/-! ## §1 — arguments and answers -/

/-- `ESP_OK` and `ESP_ERR_INVALID_ARG`. -/
inductive GpioErr where
  | espOk
  | espErrInvalidArg
deriving Repr, DecidableEq

def gpioModeDefInput : BitVec 32 := 0x1
def gpioModeDefOutput : BitVec 32 := 0x2
def gpioModeDefOd : BitVec 32 := 0x4

/-- `gpio_pull_mode_t`. -/
inductive GpioPullMode where
  | pullupOnly
  | pulldownOnly
  | pullupPulldown
  | floating
deriving Repr, DecidableEq

/-- `gpio_config_t`; the interrupt type is read by nobody yet. -/
structure GpioConfig where
  pinBitMask : BitVec 64
  mode : BitVec 32
  pullUpEn : Bool
  pullDownEn : Bool
deriving Repr, DecidableEq

/-- The pins for which `funcmatrix[pin][func]` is `UGPIO`: in column 2 all that exist, in column 0 all
of these but pins 1, 3 and 8 to 15, in the others none. -/
def ugpio (pin func : Nat) : Bool :=
  decide (pin < 40 ∧ pin ∉ [20, 24, 28, 29, 30, 31]) &&
    (decide (func = 2) || decide (func = 0 ∧ pin ∉ [1, 3, 8, 9, 10, 11, 12, 13, 14, 15]))

namespace Board

/-! ## §2 — requests to one pad -/

/-- A request to one pad, with its answer. -/
def ask (pin : Nat) (f : IoMux → Bool × IoMux) (b : Board) : Bool × Board :=
  ((f (b.m.pads pin)).1, b.onPad pin fun x => (f x).2)

/-- The calls that pass a request on to the pad, if there is one. -/
def onGpin (pin : Nat) (f : IoMux → IoMux) (b : Board) : Board :=
  if !getgpio pin then b else b.onPad pin f

/-- `gpio_pullup_en`, `gpio_pullup_dis`, `gpio_pulldown_en` and `gpio_pulldown_dis`. -/
def gpioPullupEn (pin : Nat) : Board → Board := onGpin pin fun x => x.setWpu.2
def gpioPullupDis (pin : Nat) : Board → Board := onGpin pin fun x => x.clrWpu.2
def gpioPulldownEn (pin : Nat) : Board → Board := onGpin pin fun x => x.setWpd.2
def gpioPulldownDis (pin : Nat) : Board → Board := onGpin pin fun x => x.clrWpd.2

/-- `gpio_pad_select_gpio`. -/
def gpioPadSelectGpio (pin : Nat) : Board → Board := onGpin pin fun x => x.setFunction (.func 2)

/-- `gpio_iomux_out`, for `func` up to 5, the columns of `funcmatrix`. -/
def gpioIomuxOut (pin func : Nat) : Board → Board :=
  onGpin pin fun x => x.setFunction (if ugpio pin func then .func 2 else .func func)

/-- `PIN_FUNC_SELECT`. -/
def pinFuncSelect (pin func : Nat) : Board → Board := gpioIomuxOut pin func

def pinFuncGpio : Nat := 2

/-! ## §3 — registers and updates -/

/-- `gpio_iomux_in`. -/
def gpioIomuxIn (pin : Nat) (b : Board) : Board :=
  (b.update .update).gpioSetInput (gpioPinMuxReg.getD pin 0)

/-- `gpio_matrix_in`. -/
def gpioMatrixInput (gpio signal : Nat) (inv : Bool) (b : Board) : Board :=
  if 256 ≤ signal then b else (b.onGpio (gpioMatrixIn gpio signal inv)).update .update

/-- `GPIO.pin[pin].pad_driver = v`. -/
def setPadDriver (pin : Nat) (v : Bool) (b : Board) : Board :=
  b.onGpio fun d => { d with padDriver := fun q => if q = pin then v else d.padDriver q }

/-- `gpio_set_level`. -/
def gpioSetLevel (pin : Nat) (level : Bool) (b : Board) : Board :=
  if !getgpio pin then b
  else
    (b.onGpio fun d =>
      if level then { d with out := { d.out with w1ts := d.out.w1ts.assign pin } }
      else { d with out := { d.out with w1tc := d.out.w1tc.assign pin } }).update .updategpioreg

/-! ## §4 — the mode of a pin -/

/-- `resp && ESP_OK == gpio_output_enable(pin)`, or the same with `gpio_output_disable`: the call is
not made when `resp` is false. -/
def askOutput (pin : Nat) (output : Bool) (r : Bool × Board) : Bool × Board :=
  if !r.1 then r
  else if output then (gpioIsValidOutputGpio pin, r.2.gpioOutputEnable pin)
  else (gpioIsValidGpio pin, r.2.gpioOutputDisable pin)

/-- `gpio_set_direction`. -/
def gpioSetDirection (pin : Nat) (mode : BitVec 32) (b : Board) : GpioErr × Board :=
  if !gpioIsValidGpio pin then (.espErrInvalidArg, b)
  else if decide (34 ≤ pin) && has mode gpioModeDefOutput then (.espErrInvalidArg, b)
  else if !getgpio pin then (.espErrInvalidArg, b)
  else
    let r₁ := b.ask pin fun x => if has mode gpioModeDefInput then x.setIe else x.clrIe
    let r₂ := askOutput pin (has mode gpioModeDefOutput) r₁
    let b₃ := r₂.2.setPadDriver pin (has mode gpioModeDefOd)
    let r₄ := b₃.ask pin fun x => if has mode gpioModeDefOd then x.setOd else x.clrOd
    (if r₂.1 && r₄.1 then .espOk else .espErrInvalidArg, r₄.2.settlePads)

/-- `gpio_set_pull_mode`: two requests, whatever became of the first. -/
def gpioSetPullMode (pin : Nat) (pull : GpioPullMode) (b : Board) : GpioErr × Board :=
  if !getgpio pin then (.espErrInvalidArg, b)
  else
    let r₁ := b.ask pin fun x =>
      match pull with
      | .pullupOnly => x.setWpu
      | .pulldownOnly => x.setWpd
      | .pullupPulldown => x.setWpd
      | .floating => x.clrWpd
    let r₂ := r₁.2.ask pin fun x =>
      match pull with
      | .pullupOnly => x.clrWpd
      | .pulldownOnly => x.clrWpu
      | .pullupPulldown => x.setWpu
      | .floating => x.clrWpu
    (if r₁.1 && r₂.1 then .espOk else .espErrInvalidArg, r₂.2.settlePads)

/-- The body of the loop of `gpio_config`, for a pin in the mask. Without an `io_mux` the call of its
`clr_od` or `set_oe` goes through a null pointer: `none`. -/
def configPin (cfg : GpioConfig) (pin : Nat) (b : Board) : Option Board :=
  let inputEn := has cfg.mode gpioModeDefInput
  let odEn := has cfg.mode gpioModeDefOd
  let outputEn := has cfg.mode gpioModeDefOutput
  let b := if inputEn then b.gpioSetInput pin else b.gpioClrInput pin
  let b := if outputEn then b.gpioOutputEnable pin else b.gpioOutputDisable pin
  let b := b.setPadDriver pin odEn
  if !getgpio pin then none
  else
    -- the open-drain branch asks for the output enable of the pad
    let b := b.onPad pin fun x => if odEn then x.setOe.2 else x.clrOd.2
    let b := if cfg.pullUpEn then b.gpioPullupEn pin else b.gpioPullupDis pin
    let b := if cfg.pullDownEn then b.gpioPulldownEn pin else b.gpioPulldownDis pin
    some (b.pinFuncSelect (gpioPinMuxReg.getD pin 0) pinFuncGpio)

/-- The loop of `gpio_config` over the pins still to come. -/
def configLoop (cfg : GpioConfig) : List Nat → Board → Option (GpioErr × Board)
  | [], b => some (.espOk, b.settlePads)
  | pin :: pins, b =>
    if cfg.pinBitMask.getLsbD pin then
      if gpioPinMuxReg.getD pin 0 = 0 then some (.espErrInvalidArg, b)
      else
        match configPin cfg pin b with
        | none => none
        | some b' => configLoop cfg pins b'
    else configLoop cfg pins b

/-- `GPIO_SEL_34` to `GPIO_SEL_39`. -/
def gpioSelInputOnly : BitVec 64 := 0xFC00000000

/-- `gpio_config`. -/
def gpioConfig (cfg : GpioConfig) (b : Board) : Option (GpioErr × Board) :=
  if cfg.pinBitMask = 0 ∨ 2 ^ 40 ≤ cfg.pinBitMask.toNat then some (.espErrInvalidArg, b)
  else if has cfg.mode gpioModeDefOutput && cfg.pinBitMask &&& gpioSelInputOnly != 0 then
    some (.espErrInvalidArg, b)
  else configLoop cfg (List.range 40) b

/-! ## §5 — many pins at once, and all calls together -/

/-- `gpio_output_set`. -/
def gpioOutputSet (set clear enable disable : BitVec 32) (b : Board) : Board :=
  ((b.onGpio fun d =>
    { d with
      out :=
        { d.out with
          w1ts := { d.out.w1ts with low := set &&& enable }
          w1tc := { d.out.w1tc with low := clear &&& enable } }
      enable := { d.enable with w1tc := { d.enable.w1tc with low := disable } } }).update
    .updategpioreg).update .updategpiooe

/-- `gpio_output_set_high`; the fields it assigns are eight bits wide. -/
def gpioOutputSetHigh (set clear enable disable : BitVec 32) (b : Board) : Board :=
  ((b.onGpio fun d =>
    { d with
      out :=
        { d.out with
          w1ts := { d.out.w1ts with high := (set &&& enable).setWidth 8 }
          w1tc := { d.out.w1tc with high := (clear &&& enable).setWidth 8 } }
      enable := { d.enable with w1tc := { d.enable.w1tc with high := disable.setWidth 8 } } }).update
    .updategpioreg).update .updategpiooe

/-- A call of the firmware thread, or a peripheral that changes what it drives. `gpio_reset_pin` is a
`gpio_config`. -/
inductive DriverCall where
  | core (c : ApiCall)
  | config (cfg : GpioConfig)
  | setLevel (pin : Nat) (level : Bool)
  | setDirection (pin : Nat) (mode : BitVec 32)
  | setInput (pin : Nat)
  | clrInput (pin : Nat)
  | outputEnable (pin : Nat)
  | outputDisable (pin : Nat)
  | setPullMode (pin : Nat) (pull : GpioPullMode)
  | pullupEn (pin : Nat)
  | pullupDis (pin : Nat)
  | pulldownEn (pin : Nat)
  | pulldownDis (pin : Nat)
  | padSelectGpio (pin : Nat)
  | iomuxIn (pin : Nat)
  | iomuxOut (pin func : Nat)
  | matrixIn (gpio signal : Nat) (inv : Bool)
  | matrixOut (gpio signal : Nat)
  | outputSet (set clear enable disable : BitVec 32)
  | outputSetHigh (set clear enable disable : BitVec 32)
  | peripherals (periph : Nat → Bool × Bool)

/-- The board after a call, unless it went through a null pointer. -/
def driverCall (b : Board) : DriverCall → Option Board
  | .core c => some (b.call c)
  | .config cfg => (b.gpioConfig cfg).map Prod.snd
  | .setLevel pin level => some (b.gpioSetLevel pin level)
  | .setDirection pin mode => some (b.gpioSetDirection pin mode).2
  | .setInput pin => some (b.gpioSetInput pin)
  | .clrInput pin => some (b.gpioClrInput pin)
  | .outputEnable pin => some (b.gpioOutputEnable pin)
  | .outputDisable pin => some (b.gpioOutputDisable pin)
  | .setPullMode pin pull => some (b.gpioSetPullMode pin pull).2
  | .pullupEn pin => some (b.gpioPullupEn pin)
  | .pullupDis pin => some (b.gpioPullupDis pin)
  | .pulldownEn pin => some (b.gpioPulldownEn pin)
  | .pulldownDis pin => some (b.gpioPulldownDis pin)
  | .padSelectGpio pin => some (b.gpioPadSelectGpio pin)
  | .iomuxIn pin => some (b.gpioIomuxIn pin)
  | .iomuxOut pin func => some (b.gpioIomuxOut pin func)
  | .matrixIn gpio signal inv => some (b.gpioMatrixInput gpio signal inv)
  | .matrixOut gpio signal => some (b.gpioMatrixOut gpio signal)
  | .outputSet set clear enable disable => some (b.gpioOutputSet set clear enable disable)
  | .outputSetHigh set clear enable disable => some (b.gpioOutputSetHigh set clear enable disable)
  | .peripherals periph => some ({ b with periph := periph } : Board).settlePads

/-- The states the calls lead to from power-up. -/
inductive Reachable : Board → Prop
  | powerUp (periph : Nat → Bool × Bool) (others : Nat → Nat → Bool × Bool) :
    Reachable (Board.new periph others)
  | call {b b' : Board} (c : DriverCall) (h : Reachable b) (hc : b.driverCall c = some b') :
    Reachable b'

/-- The board after power-up, with every signal low. -/
def quiet : Board := Board.new (fun _ => (false, false)) fun _ _ => (false, false)

end Board

end Espmod.Gpio
