/-
# Espmod.Gpio.Routes — the input side of the matrix

Each peripheral input of the model is served by a multiplexer over 43 inputs: the 40 pins, a direct
signal, and two tie signals. `mux_in` serves one signal; `mux_pcnt` serves the four inputs of each of
the eight pulse counters and keeps its selections in `function[unit][input]`, with one event for all
of them. Both are threads that copy the selected inputs and sleep on them.
-/
import Espmod.Lib.Follower
import Mathlib.Data.List.Range

namespace Espmod.Gpio

open Espmod.Lib

/-! ## §1 — constants -/

def gpiomatrixCnt : Nat := 40
def gpiomatrixDirect : Nat := 40
def gpiomatrixLogic0 : Nat := 41
def gpiomatrixLogic1 : Nat := 42
def gpiomatrixAll : Nat := 43

/-- The pins for which `pinset` registers an `io_mux`. -/
def gpioPins : List Nat :=
  [0, 1, 2, 3, 4, 5, 12, 13, 14, 15, 16, 17, 18, 19, 21, 22, 23, 25, 26, 27, 32, 33, 34, 35, 36, 37,
    38, 39]

/-- `getgpio(pin) != NULL`. -/
def getgpio (pin : Nat) : Bool := gpioPins.contains pin

/-- The signals served by a `mux_in`: UART RX, HSPI, VSPI and I2C, in the order `updateth` copies
them. -/
def muxInSignals : List Nat :=
  [14, 17, 198,
    65, 64, 63, 66, 67, 68, 69, 70,
    10, 9, 8, 12, 13, 11,
    30, 96, 29, 95]

def pcntSigCh0In0Idx : Nat := 39
def pcntCtrlCh1In4Idx : Nat := 58
def pcntSigCh0In5Idx : Nat := 71
def pcntCtrlCh1In7Idx : Nat := 82

/-- The signal indexes of the pulse counters. There is a gap after the fifth unit. -/
def isPcnt (sig : Nat) : Bool :=
  decide (pcntSigCh0In0Idx ≤ sig ∧ sig ≤ pcntCtrlCh1In4Idx
    ∨ pcntSigCh0In5Idx ≤ sig ∧ sig ≤ pcntCtrlCh1In7Idx)

/-- The entry of `function` that `mux_pcnt::mux` finds for a signal index: the unit, and the input of
the unit in the order `sig_ch0`, `sig_ch1`, `ctrl_ch0`, `ctrl_ch1`. -/
def pcntSlot (bit : Nat) : Nat × Fin 4 :=
  match bit with
  | 39 => (0, 0) | 43 => (1, 0) | 47 => (2, 0) | 51 => (3, 0)
  | 55 => (4, 0) | 71 => (5, 0) | 75 => (6, 0) | 79 => (7, 0)
  | 40 => (0, 1) | 44 => (1, 1) | 48 => (2, 1) | 52 => (3, 1)
  | 56 => (4, 1) | 72 => (5, 1) | 76 => (6, 1) | 80 => (7, 1)
  | 41 => (0, 2) | 45 => (1, 2) | 49 => (2, 2) | 53 => (3, 2)
  | 57 => (4, 2) | 73 => (5, 2) | 77 => (6, 2) | 81 => (7, 2)
  | 42 => (0, 3) | 46 => (1, 3) | 50 => (2, 3) | 54 => (3, 3)
  | 58 => (4, 3) | 74 => (5, 3) | 78 => (6, 3)
  | _ => (7, 3)

/-- Different pulse-counter signals have different entries. -/
theorem pcntSlot_inj {a b : Nat} (ha : isPcnt a = true) (hb : isPcnt b = true)
    (h : pcntSlot a = pcntSlot b) : a = b := by
  have hall : ∀ a ∈ List.range 83, ∀ b ∈ List.range 83, isPcnt a = true → isPcnt b = true →
      pcntSlot a = pcntSlot b → a = b := by decide +kernel
  have hbound : ∀ c, isPcnt c = true → c ∈ List.range 83 := by
    intro c hc
    have hc' : pcntSigCh0In0Idx ≤ c ∧ c ≤ pcntCtrlCh1In4Idx
      ∨ pcntSigCh0In5Idx ≤ c ∧ c ≤ pcntCtrlCh1In7Idx := by simpa [isPcnt] using hc
    simp only [pcntCtrlCh1In4Idx, pcntCtrlCh1In7Idx] at hc'
    rw [List.mem_range]
    omega
  exact hall a (hbound a ha) b (hbound b hb) ha hb h

/-! ## §2 — the multiplexers -/

/-- A `mux_in`. -/
abbrev MuxIn := Follower (Fin 1) Nat Bool

/-- `mux_in::mux`. -/
def MuxIn.mux (gpiosel : Nat) (f : MuxIn) : MuxIn :=
  if gpiomatrixAll ≤ gpiosel then f else Follower.select 0 gpiosel f

/-- `mux_pcnt`: one thread for each unit, with the four inputs of the unit. -/
abbrev MuxPcnt := Nat → Follower (Fin 4) Nat Bool

/-- `mux_pcnt::mux`. An unchanged selection is not announced; a change wakes the thread of every
unit. -/
def MuxPcnt.mux (bit gpiosel : Nat) (p : MuxPcnt) : MuxPcnt :=
  if gpiomatrixAll ≤ gpiosel ∨ gpiosel < gpiomatrixCnt ∧ getgpio gpiosel = false then p
  else if (p (pcntSlot bit).1).sel (pcntSlot bit).2 = gpiosel then p
  else fun u =>
    if u = (pcntSlot bit).1 then Follower.select (pcntSlot bit).2 gpiosel (p u) else (p u).wake

/-- The input multiplexers, the `mux_in`s under the index of the signal they serve. -/
structure Routes where
  muxIn : Nat → MuxIn
  muxPcnt : MuxPcnt

namespace Routes

/-- After construction: a `mux_in` selects its high tie, a pulse counter its low one; every thread is
about to run for the first time. -/
def new : Routes where
  muxIn _ := ⟨fun _ => gpiomatrixLogic1, fun _ => false, fun _ => gpiomatrixLogic1, true⟩
  muxPcnt _ := ⟨fun _ => gpiomatrixLogic0, fun _ => false, fun _ => gpiomatrixLogic0, true⟩

/-- The signal indexes of the two loops of `updateth`. -/
def pcntLoop : List Nat :=
  List.range' pcntSigCh0In0Idx (pcntCtrlCh1In4Idx - pcntSigCh0In0Idx)
    ++ List.range' pcntSigCh0In5Idx (pcntCtrlCh1In7Idx - pcntSigCh0In5Idx)

/-- The part of `updateth` that copies the input selections into the multiplexers. -/
def copy (funcInSel : Nat → BitVec 6) (r : Routes) : Routes where
  muxIn sig := if muxInSignals.contains sig then (r.muxIn sig).mux (funcInSel sig).toNat else r.muxIn sig
  muxPcnt := pcntLoop.foldl (fun p bit => p.mux bit (funcInSel bit).toNat) r.muxPcnt

end Routes

end Espmod.Gpio
