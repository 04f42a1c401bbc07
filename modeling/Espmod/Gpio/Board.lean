/-
# Espmod.Gpio.Board — the pin API over the matrix, its multiplexers and the pads

`pinMode`, `digitalWrite`, `digitalRead` and `analogRead` as one firmware thread calls them. A call
writes registers, asks the matrix for an update and sleeps until the next clock edge; by then
`updateth` has run, the output multiplexers have passed on their level and enable, and the pad threads
have settled. So a call of the API is a function on the settled board: the register write, the turn of
`updateth`, the update phase, and the settling of every pad with what its multiplexer feeds it.
-/
import Espmod.Gpio.DigitalWrite
import Espmod.Gpio.PadLevel

namespace Espmod.Gpio

open Espmod.Lib

/-! ## §1 — tables -/

/-- `esp32_gpioMux`, the fields `reg` and `adc`, by pin. -/
def esp32GpioMux : List (Nat × Int) :=
  [(0x44, 11), (0x88, -1), (0x40, 12), (0x84, -1), (0x48, 10), (0x6c, -1), (0x60, -1), (0x64, -1),
    (0x68, -1), (0x54, -1), (0x58, -1), (0x5c, -1), (0x34, 15), (0x38, 14), (0x30, 16), (0x3c, 13),
    (0x4c, -1), (0x50, -1), (0x70, -1), (0x74, -1), (0x78, -1), (0x7c, -1), (0x80, -1), (0x8c, -1),
    (0, -1), (0x24, 18), (0x28, 19), (0x2c, 17), (0, -1), (0, -1), (0, -1), (0, -1), (0x1c, 4),
    (0x20, 5), (0x14, 6), (0x18, 7), (0x04, 0), (0x08, 1), (0x0c, 2), (0x10, 3)]

/-- `GPIO_PIN_MUX_REG`. -/
def gpioPinMuxReg : List Nat :=
  [0, 1, 2, 3, 4, 5, 6, 7, 8, 9, 10, 11, 12, 13, 14, 15, 16, 17, 18, 19, 0, 21, 22, 23, 0, 25, 26, 27,
    0, 0, 0, 0, 32, 33, 34, 35, 36, 37, 38, 39]

def digitalPinIsValid (pin : Nat) : Bool := decide (pin < 40 ∧ (esp32GpioMux.getD pin (0, -1)).1 ≠ 0)

def digitalPinToAnalogChannel (pin : Nat) : Int :=
  if pin < 40 then (esp32GpioMux.getD pin (0, -1)).2 else -1

def gpioIsValidGpio (pin : Nat) : Bool := decide (pin < 40 ∧ gpioPinMuxReg.getD pin 0 ≠ 0)

def gpioIsValidOutputGpio (pin : Nat) : Bool := gpioIsValidGpio pin && decide (pin < 34)

/-- The allowed modes of a pad: the pins from 34 on are inputs only. -/
def padModes (pin : Nat) : BitVec 32 :=
  if pin < 34 then
    gpiomodeNone ||| gpiomodeInput ||| gpiomodeOutput ||| gpiomodeInout ||| gpiomodeWpu |||
      gpiomodeWpd ||| gpiomodeOd
  else gpiomodeNone ||| gpiomodeInput

/-- The mode a pad starts in. -/
def padInitial (pin : Nat) : BitVec 32 :=
  if pin ∈ [0, 1, 3, 13, 15] then gpiomodeInput ||| gpiomodeWpu
  else if pin ∈ [2, 4, 12, 14] then gpiomodeInput ||| gpiomodeWpd
  else if pin ∈ [18, 19, 21, 22, 23, 27] then gpiomodeInput
  else gpiomodeNone

/-- Whether the pad has the analog function. -/
def padAnaok (pin : Nat) : Bool := decide (32 ≤ pin)

/-- How many functions are connected to the pad. -/
def padFunctions (pin : Nat) : Nat :=
  if pin ∈ [0, 4] then 7 else if pin ∈ [16, 17] then 5 else 3

/-- The pads after construction. Function 3 is the matrix, whose level and enable start low; `others`
are the levels and enables on the other functions. -/
def newPad (others : Nat → Nat → Bool × Bool) (pin : Nat) : IoMux :=
  IoMux.new (padModes pin) (padInitial pin) (padAnaok pin) (.func 2)
    ((List.range (padFunctions pin)).map fun k => if k = 2 then false else (others pin k).1)
    ((List.range (padFunctions pin)).map fun k => if k = 2 then false else (others pin k).2)
    (padFunctions pin)

/-! ## §2 — the settled board -/

/-- The matrix with its pads, and the level and enable on each peripheral output. -/
structure Board where
  m : Matrix
  periph : Nat → Bool × Bool

/-- `mux_out::transfer`: level and enable for a function. -/
def transfer (periph : Nat → Bool × Bool) (fn : Nat) : Bool × Bool :=
  if fn = muxoutDrive0 then (false, true)
  else if fn = muxoutDrive1 then (true, true)
  else if fn < 256 then periph fn
  else (false, false)

namespace Board

/-- What the matrix feeds a pad, and the pad's threads until they sleep. -/
def feedPad (level enable : Bool) (x : IoMux) : IoMux :=
  ((x.finChange 2 level).fenChange 2 enable).settle

/-- Every pad settles with what its multiplexer feeds it. -/
def settlePads (b : Board) : Board :=
  { b with
    m := { b.m with
      pads := fun pin =>
        if getgpio pin then
          feedPad (transfer b.periph (b.m.function pin).cur).1
            (transfer b.periph (b.m.function pin).cur).2 (b.m.pads pin)
        else b.m.pads pin } }

/-- The board after power-up. -/
def new (periph : Nat → Bool × Bool) (others : Nat → Nat → Bool × Bool) : Board :=
  settlePads ⟨Matrix.new (newPad others), periph⟩

def onPad (pin : Nat) (f : IoMux → IoMux) (b : Board) : Board :=
  { b with
    m := { b.m with pads := fun q => if q = pin then f (b.m.pads q) else b.m.pads q } }

def onGpio (f : GpioDev → GpioDev) (b : Board) : Board :=
  { b with m := { b.m with gpio := f b.m.gpio } }

/-- `update_gpio`, `update_gpio_reg` and `update_gpio_oe`. -/
def update (c : Call) (b : Board) : Board :=
  settlePads { b with m := (b.m.updateth c).commit }

/-! ## §3 — the driver -/

/-- `gpio_set_input`. -/
def gpioSetInput (pin : Nat) (b : Board) : Board :=
  if !gpioIsValidGpio pin then b
  else if !getgpio pin then b
  else b.onPad pin fun x => x.setIe.2

/-- `gpio_clr_input`. -/
def gpioClrInput (pin : Nat) (b : Board) : Board :=
  if !gpioIsValidGpio pin then b
  else if !getgpio pin then b
  else b.onPad pin fun x => x.clrIe.2

/-- `gpio_matrix_out`. -/
def gpioMatrixOut (gpio signal : Nat) (b : Board) : Board :=
  if 40 ≤ gpio then b
  else
    (b.onGpio fun d =>
      { d with funcOutSel := fun q => if q = gpio then BitVec.ofNat 9 signal else d.funcOutSel q }).update
      .update

def sigGpioOutIdx : Nat := 256

/-- `gpio_output_disable`. -/
def gpioOutputDisable (pin : Nat) (b : Board) : Board :=
  if !gpioIsValidGpio pin then b
  else
    (b.onGpio fun d =>
      { d with
        enable := { d.enable with w1tc := d.enable.w1tc.assign pin }
        funcOutSel := fun q =>
          if q = pin then BitVec.ofNat 9 sigGpioOutIdx else d.funcOutSel q }).update .updategpiooe

/-- `gpio_output_enable`. -/
def gpioOutputEnable (pin : Nat) (b : Board) : Board :=
  if !gpioIsValidOutputGpio pin then b
  else
    gpioMatrixOut pin sigGpioOutIdx
      ((b.onGpio fun d =>
        { d with enable := { d.enable with w1ts := d.enable.w1ts.assign pin } }).update .updategpiooe)

/-! ## §4 — the API -/

def modeInput : BitVec 8 := 0x01
def modeOutput : BitVec 8 := 0x02
def modePullup : BitVec 8 := 0x04
def modePulldown : BitVec 8 := 0x08
def modeOpenDrain : BitVec 8 := 0x10
def modeAnalog : BitVec 8 := 0xC0

/-- `mode & flag`. -/
def asks (mode flag : BitVec 8) : Bool := mode &&& flag != 0

/-- `pinMode_nodel`. -/
def pinModeNodel (pin : Nat) (mode : BitVec 8) (b : Board) : Board :=
  if !digitalPinIsValid pin then b
  else if !getgpio pin then b
  else if mode = modeAnalog then b.onPad pin fun x => x.setFunction .analog
  else
    let b := if asks mode modeInput then b.gpioSetInput pin else b.gpioClrInput pin
    let b := if asks mode modeOutput then b.gpioOutputEnable pin else b.gpioOutputDisable pin
    let b := b.onPad pin fun x => if asks mode modePullup then x.setWpu.2 else x.clrWpu.2
    let b := b.onPad pin fun x => if asks mode modePulldown then x.setWpd.2 else x.clrWpd.2
    let b := b.onGpio fun d =>
      { d with
        padDriver := fun q => if q = pin then asks mode modeOpenDrain else d.padDriver q }
    b.onPad pin fun x => if asks mode modeOpenDrain then x.setOd.2 else x.clrOd.2

/-- `pinMode`: the same, and the clock edge after it. -/
def pinMode (pin : Nat) (mode : BitVec 8) (b : Board) : Board := (b.pinModeNodel pin mode).settlePads

/-- `digitalWrite`. -/
def digitalWrite (pin : Nat) (val : Bool) (b : Board) : Board :=
  (b.onGpio (digitalWriteNodel pin val)).update .updategpioreg

/-- `digitalRead`, with the value the pad resolves to. -/
def digitalRead (pin : Nat) (sample : GnLogic) (b : Board) : Bool :=
  if !getgpio pin then false else (b.m.pads pin).getVal sample

/-- `analogRead`, as far as pads are concerned: `adcAttachPin`. -/
def analogRead (pin : Nat) (b : Board) : Board :=
  if digitalPinToAnalogChannel pin < 0 then b else b.pinMode pin modeAnalog

/-- A call of the API by the firmware thread. -/
inductive ApiCall where
  | pinMode (pin : Nat) (mode : BitVec 8)
  | digitalWrite (pin : Nat) (val : Bool)
  | digitalRead (pin : Nat)
  | analogRead (pin : Nat)
deriving Repr, DecidableEq

/-- The board after a call. Reading a pin changes nothing. -/
def call (b : Board) : ApiCall → Board
  | .pinMode pin mode => b.pinMode pin mode
  | .digitalWrite pin val => b.digitalWrite pin val
  | .digitalRead _ => b
  | .analogRead pin => b.analogRead pin

end Board

end Espmod.Gpio
