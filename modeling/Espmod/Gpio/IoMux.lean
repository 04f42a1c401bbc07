/-
# Espmod.Gpio.IoMux — one pad of the chip: flags, function and the threads that drive it

`io_mux` holds the flags the firmware sets (input and output enable, pulls, open drain, forced output
enable) and the function selected for the pad. Two threads turn these into a pad value. `drive_func`
copies the selected function's level and enable into `pindrive` and `driveok`; it sleeps on
`updatefunc` and on the input signals of the function that was selected when it went to sleep.
`drive` writes the pad from the flags and the copies; it sleeps on `updatedriver`. The setters change
a flag and notify one event.

A thread that has been notified and has not run yet is *pending*: the model keeps one flag for each of
the two threads, and the order in which pending threads run is left open.
-/
import Espmod.Gpio.Mixed

namespace Espmod.Gpio

/-! ## §1 — the block -/

/-- `gpio_function_t`: `GPIOMF_ANALOG`, `GPIOMF_GPIO`, or an alternate function. `func k` is function
number `k + 1`, the one served by `fin[k]`, `fen[k]` and `fout[k]`. -/
inductive GpioFunction where
  | analog
  | gpio
  | func (k : Nat)
deriving Repr, DecidableEq

def gpiomodeNone : BitVec 32 := 0x0001
def gpiomodeInput : BitVec 32 := 0x0002
def gpiomodeOutput : BitVec 32 := 0x0004
def gpiomodeInout : BitVec 32 := 0x0008
def gpiomodeWpu : BitVec 32 := 0x0010
def gpiomodeWpd : BitVec 32 := 0x0020
def gpiomodeOd : BitVec 32 := 0x0040
def gpiomodeNowpu : BitVec 32 := 0x0100
def gpiomodeNowpd : BitVec 32 := 0x0200
def gpiomodeNood : BitVec 32 := 0x0400

/-- `(modes & mask) > 0` on unsigned words. -/
def has (modes mask : BitVec 32) : Bool := modes &&& mask != 0

/-- `io_mux`. `modes` are the allowed modes; `fin` and `fen` are the levels on the function inputs and
`fout` counts the return paths. `watched` is the function `drive_func` went to sleep on. -/
structure IoMux where
  modes : BitVec 32
  anaok : Bool
  function : GpioFunction
  ie : Bool
  oe : Bool
  wpu : Bool
  wpd : Bool
  od : Bool
  forceoe : Bool
  pindrive : Bool
  driveok : Bool
  fin : List Bool
  fen : List Bool
  fout : Nat
  pad : GnLogic
  /-- `updatedriver` has been notified and `drive` has not run since. -/
  drivePending : Bool
  /-- an event `drive_func` sleeps on has happened and it has not run since. -/
  funcPending : Bool
  watched : GpioFunction
deriving Repr, DecidableEq

namespace IoMux

/-- The constructor, with `set_init_mode`: both threads run once at the start of simulation. -/
def new (optargs initial : BitVec 32) (hasana : Bool) (initialfunc : GpioFunction)
    (fin fen : List Bool) (fout : Nat) : IoMux where
  modes := optargs
  anaok := hasana
  function := initialfunc
  ie := has initial gpiomodeInput || has initial gpiomodeInout
  oe := has initial gpiomodeOutput || has initial gpiomodeInout
  wpu := has initial gpiomodeWpu
  wpd := has initial gpiomodeWpd
  od := has initial gpiomodeOd
  forceoe := false
  pindrive := false
  driveok := true
  fin := fin
  fen := fen
  fout := fout
  pad := .logicX
  drivePending := true
  funcPending := true
  watched := initialfunc

/-! ## §2 — the setters

Each returns whether the request is allowed. A flag that already has the value asked for is left
alone and nothing is notified. -/

/-- The shape all the flag setters share. -/
def request (allowed : Bool) (cur want : Bool) (put : IoMux) (m : IoMux) : Bool × IoMux :=
  if allowed then (if cur = want then (true, m) else (true, put)) else (false, m)

/-- `set_ie` notifies only the return path. -/
def setIe (m : IoMux) : Bool × IoMux :=
  request (!m.oe && has m.modes gpiomodeInput || m.oe && has m.modes gpiomodeInout)
    m.ie true { m with ie := true } m

def setOe (m : IoMux) : Bool × IoMux :=
  request (!m.ie && has m.modes gpiomodeOutput || m.ie && has m.modes gpiomodeInout)
    m.oe true { m with oe := true, drivePending := true } m

def setForceoe (m : IoMux) : Bool × IoMux :=
  (true, { m with forceoe := true, drivePending := true })

def setWpu (m : IoMux) : Bool × IoMux :=
  request (has m.modes gpiomodeWpu) m.wpu true { m with wpu := true, drivePending := true } m

def clrIe (m : IoMux) : Bool × IoMux :=
  request (!m.oe && has m.modes gpiomodeNone || m.oe && has m.modes gpiomodeOutput)
    m.ie false { m with ie := false, drivePending := true } m

def clrOe (m : IoMux) : Bool × IoMux :=
  request (!m.ie && has m.modes gpiomodeNone || m.ie && has m.modes gpiomodeInput)
    m.oe false { m with oe := false, drivePending := true } m

def clrForceoe (m : IoMux) : Bool × IoMux :=
  (true, { m with forceoe := false, drivePending := true })

def clrWpu (m : IoMux) : Bool × IoMux :=
  request (!has m.modes gpiomodeNowpu) m.wpu false { m with wpu := false, drivePending := true } m

def setWpd (m : IoMux) : Bool × IoMux :=
  request (has m.modes gpiomodeWpd) m.wpd true { m with wpd := true, drivePending := true } m

def clrWpd (m : IoMux) : Bool × IoMux :=
  request (!has m.modes gpiomodeNowpd) m.wpd false { m with wpd := false, drivePending := true } m

def setOd (m : IoMux) : Bool × IoMux :=
  request (has m.modes gpiomodeOd) m.od true { m with od := true, drivePending := true } m

def clrOd (m : IoMux) : Bool × IoMux :=
  request (!has m.modes gpiomodeNood) m.od false { m with od := false, drivePending := true } m

/-- `set_mode`: every flag is asked for in turn, whatever became of the requests before it. -/
def setMode (newmode : BitVec 32) (m : IoMux) : Bool × IoMux :=
  let r₁ := if has newmode gpiomodeInput || has newmode gpiomodeInout then m.setIe else m.clrIe
  let r₂ := if has newmode gpiomodeOutput || has newmode gpiomodeInout then r₁.2.setOe else r₁.2.clrOe
  let r₃ := if has newmode gpiomodeWpu then r₂.2.setWpu else r₂.2.clrWpu
  let r₄ := if has newmode gpiomodeWpd then r₃.2.setWpd else r₃.2.clrWpd
  let r₅ := if has newmode gpiomodeOd then r₄.2.setOd else r₄.2.clrOd
  (r₁.1 && r₂.1 && r₃.1 && r₄.1 && r₅.1, r₅.2)

/-- `set_function`. A function needs a `fin` or a `fout`; the pad has no GPIO function of its own. -/
def setFunction (newfunction : GpioFunction) (m : IoMux) : IoMux :=
  if newfunction = m.function then m
  else match newfunction with
    | .analog =>
      if m.anaok then
        { (m.setMode gpiomodeNone).2 with function := .analog, driveok := false, funcPending := true }
      else m
    | .gpio => m
    | .func k =>
      if m.fin.length ≤ k ∧ m.fout ≤ k then m else { m with function := .func k, funcPending := true }

/-- `get_val`, sampling a pad that reads `sample`. -/
def getVal (m : IoMux) (sample : GnLogic) : Bool :=
  if m.function = .analog then false
  else if !m.ie then false
  else match sample.scLogic with
    | .one => true
    | .zero => false
    | .z => m.wpu
    | .x => false

/-! ## §3 — the threads -/

/-- The level and the enable of the selected function: what `drive_func` copies. A function with no
`fin` drives nothing; the `fen` is optional and a missing one does not enable. -/
def funcLevel (m : IoMux) : Bool :=
  match m.function with
  | .func k => if k < m.fin.length then m.fin.getD k false else false
  | _ => false

def funcEnable (m : IoMux) : Bool :=
  match m.function with
  | .func k => if k < m.fin.length then (if m.forceoe then m.oe else m.fen.getD k false) else false
  | _ => false

/-- One turn of `drive_func`. -/
def driveFunc (m : IoMux) : IoMux :=
  { m with
    driveok := m.funcEnable
    pindrive := m.funcLevel
    drivePending := true
    funcPending := false
    watched := m.function }

/-- The value `drive` chooses from the function, the flags and an enable and level to drive. -/
def padValue (m : IoMux) (driveok pindrive : Bool) : GnLogic :=
  if m.function = .analog then .logicZ
  else if m.wpu && m.wpd then .logicX
  else if !driveok then (if m.wpu then .logicW1 else if m.wpd then .logicW0 else .logicZ)
  else if pindrive && m.wpu then .logicW1
  else if !pindrive && m.wpd then .logicW0
  else if pindrive && m.od then .logicZ
  else if pindrive then .logic1
  else .logic0

/-- One turn of `drive`. -/
def drive (m : IoMux) : IoMux :=
  { m with pad := m.padValue m.driveok m.pindrive, drivePending := false }

/-- The signal on `fin[k]` changes to `v`. `drive_func` wakes when it sleeps on that signal. -/
def finChange (k : Nat) (v : Bool) (m : IoMux) : IoMux :=
  { m with
    fin := m.fin.set k v
    funcPending := m.funcPending
      || (decide (m.watched = .func k) && decide (k < m.fin.length) && m.fin.getD k false != v) }

/-- The signal on `fen[k]` changes to `v`; it is slept on only with a `fin` of the same function. -/
def fenChange (k : Nat) (v : Bool) (m : IoMux) : IoMux :=
  { m with
    fen := m.fen.set k v
    funcPending := m.funcPending
      || (decide (m.watched = .func k) && decide (k < m.fin.length) && decide (k < m.fen.length)
          && m.fen.getD k false != v) }

/-- No thread of the block has anything left to do. -/
def Settled (m : IoMux) : Prop := m.drivePending = false ∧ m.funcPending = false

instance (m : IoMux) : Decidable m.Settled := inferInstanceAs (Decidable (_ ∧ _))

/-- Both threads run until they sleep again, `drive_func` first. -/
def settle (m : IoMux) : IoMux :=
  let m₁ := if m.funcPending then m.driveFunc else m
  if m₁.drivePending then m₁.drive else m₁

theorem settled_settle (m : IoMux) : m.settle.Settled := by
  unfold settle Settled
  cases hf : m.funcPending <;> cases hd : m.drivePending <;> simp [driveFunc, drive, hf, hd]

end IoMux

end Espmod.Gpio
