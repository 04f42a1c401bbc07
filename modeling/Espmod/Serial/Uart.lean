/-
# Espmod.Serial.Uart — two UARTs on a line

`outtake` sends a start bit, eight data bits and the stop bits, each for its time. `intake` waits for
the line to change; if it has fallen it goes to the middle of the first data bit and looks at the line
eight times, one bit period apart, and one period after the last look it gives the character to its
FIFO, or drops it when that is full.

Time is in nanoseconds. The threads that are due run in any order; when none is, the update phase comes,
and time goes on when no process is due and nothing waits for an update. The dead time and the automatic
detection of the rate are not modelled.
-/
import Espmod.Lib.Fifo
import Espmod.Lib.Signal

namespace Espmod.Serial

open Espmod.Lib

/-! ## §1 — the threads -/

/-- The period that `set_baud` computes. -/
def setBaud (rate : Nat) : Nat := 8680 * (115200 / rate)

/-- Where `outtake` is, and until when it waits. -/
inductive Tx where
  /-- in `to.read()` -/
  | idle
  /-- behind the start bit and `cnt` data bits -/
  | sending (msg : BitVec 8) (cnt due : Nat)
  | stopping (due : Nat)
deriving Repr, DecidableEq

/-- Where `intake` is, and until when it waits. -/
inductive Rx where
  /-- before the loop -/
  | rising
  /-- at the beginning of the loop -/
  | listening
  /-- in the start bit -/
  | half (due : Nat)
  /-- behind `cnt` looks at the line -/
  | bits (msg : BitVec 8) (cnt due : Nat)
deriving Repr, DecidableEq

/-- The time a thread waits for. -/
def Tx.due : Tx → Option Nat
  | .idle => none
  | .sending _ _ due => some due
  | .stopping due => some due

def Rx.due : Rx → Option Nat
  | .half due => some due
  | .bits _ _ due => some due
  | _ => none

/-- The receiver waits for a change of the line. -/
def Rx.sensitive : Rx → Bool
  | .rising => true
  | .listening => true
  | _ => false

/-- `tx` of the one module connected to `rx` of the other. -/
structure Uart where
  period : Nat
  stopbits : Int
  now : Nat
  toFifo : Fifo (BitVec 8)
  fromFifo : Fifo (BitVec 8)
  line : Signal Bool
  tx : Tx
  rx : Rx
  /-- the line has changed while the receiver waited for it, and the receiver has not run since -/
  woken : Bool
  /-- what was written into the FIFO of the sender -/
  written : List (BitVec 8)
  /-- what the sender has begun to send, and when -/
  sent : List (BitVec 8 × Nat)
  /-- what the receiver has taken from the line, when it looked at its FIFO, and whether there was room -/
  arrived : List ((BitVec 8 × Nat) × Bool)
  /-- what was read from the FIFO of the receiver -/
  consumed : List (BitVec 8)
  /-- for each time so far, whether there was room in the FIFO of the receiver when the time began -/
  room : Nat → Bool

namespace Uart

/-- The user of the sender writes or sets the stop bits, the user of the receiver reads, one of the two
threads runs, a delta cycle is over, or time goes on. -/
inductive Event where
  | produce (msg : BitVec 8)
  | setStop (stopbits : Int)
  | consume
  | outtake
  | intake
  | delta
  | advance (d : Nat)

/-- When both threads have begun, on a line with any level. -/
def init (level : Bool) (period : Nat) (stopbits : Int) (toSize fromSize : Nat) : Uart where
  period := period
  stopbits := stopbits
  now := 0
  toFifo := Fifo.init toSize
  fromFifo := Fifo.init fromSize
  line := (Signal.init level).write true
  tx := .idle
  rx := if level then .listening else .rising
  woken := false
  written := []
  sent := []
  arrived := []
  consumed := []
  room := fun _ => decide (0 < fromSize)

/-- A write blocks while there is no room. -/
def produce (msg : BitVec 8) (u : Uart) : Uart :=
  if u.toFifo.numFree = 0 then u
  else { u with toFifo := u.toFifo.write msg, written := u.written ++ [msg] }

def consume (u : Uart) : Uart :=
  match u.fromFifo.ready with
  | [] => u
  | msg :: _ => { u with fromFifo := u.fromFifo.read, consumed := u.consumed ++ [msg] }

/-- How long the stop bits are. -/
def stopTime (u : Uart) : Nat :=
  if u.stopbits < 2 then u.period
  else if u.stopbits = 2 then u.period + u.period / 2
  else u.period * 2

/-- The sender from one wait to the next. -/
def outtake (u : Uart) : Uart :=
  match u.tx with
  | .idle =>
    match u.toFifo.ready with
    | [] => u
    | msg :: _ =>
      { u with
        toFifo := u.toFifo.read
        line := u.line.write false
        tx := .sending msg 0 (u.now + u.period)
        sent := u.sent ++ [(msg, u.now)] }
  | .sending msg cnt due =>
    if due = u.now then
      if cnt < 8 then
        { u with
          line := u.line.write (msg.getLsbD cnt)
          tx := .sending msg (cnt + 1) (u.now + u.period) }
      else { u with line := u.line.write true, tx := .stopping (u.now + u.stopTime) }
    else u
  | .stopping due => if due = u.now then { u with tx := .idle } else u

/-- `msg | pos`, when the line is high. -/
def takeBit (msg : BitVec 8) (cnt : Nat) (incomming : Bool) : BitVec 8 :=
  if incomming then msg ||| 1#8 <<< cnt else msg

/-- The receiver from one wait to the next. -/
def intake (u : Uart) : Uart :=
  match u.rx with
  | .rising =>
    if u.woken then { u with woken := false, rx := if u.line.cur then .listening else .rising } else u
  | .listening =>
    if u.woken then
      { u with woken := false, rx := if u.line.cur then .listening else .half (u.now + u.period / 2) }
    else u
  | .half due => if due = u.now then { u with rx := .bits 0 0 (u.now + u.period) } else u
  | .bits msg cnt due =>
    if due = u.now then
      if cnt < 8 then
        { u with rx := .bits (takeBit msg cnt u.line.cur) (cnt + 1) (u.now + u.period) }
      else if u.fromFifo.numFree = 0 then
        { u with rx := .listening, arrived := u.arrived ++ [((msg, u.now), false)] }
      else
        { u with
          rx := .listening
          fromFifo := u.fromFifo.write msg
          arrived := u.arrived ++ [((msg, u.now), true)] }
    else u

/-- A thread is due. -/
def Busy (u : Uart) : Prop :=
  u.woken = true ∨ u.rx.due = some u.now ∨ u.tx.due = some u.now ∨ (u.tx = .idle ∧ u.toFifo.ready ≠ [])

instance (u : Uart) : Decidable u.Busy := by
  unfold Busy
  infer_instance

/-- Nothing waits for the update phase. -/
def Still (u : Uart) : Prop :=
  u.line.Quiet ∧ u.toFifo.fresh = [] ∧ u.toFifo.taken = 0 ∧ u.fromFifo.fresh = [] ∧
    u.fromFifo.taken = 0

instance (u : Uart) : Decidable u.Still := by
  unfold Still
  infer_instance

/-- The update phase. -/
def delta (u : Uart) : Uart :=
  if u.Busy then u
  else
    { u with
      toFifo := u.toFifo.update
      fromFifo := u.fromFifo.update
      line := u.line.update
      woken := u.line.next ≠ u.line.cur && u.rx.sensitive }

/-- The time after `d`, or when a thread is due. -/
def stop (d : Nat) (u : Uart) : Nat :=
  min (u.now + d) (min (u.rx.due.getD (u.now + d)) (u.tx.due.getD (u.now + d)))

def advance (d : Nat) (u : Uart) : Uart :=
  if u.Busy ∨ ¬ u.Still then u
  else
    { u with
      now := u.stop d
      room := fun t => if u.now < t ∧ t ≤ u.stop d then decide (0 < u.fromFifo.numFree) else u.room t }

def step (u : Uart) : Event → Uart
  | .produce msg => u.produce msg
  | .setStop stopbits => { u with stopbits := stopbits }
  | .consume => u.consume
  | .outtake => u.outtake
  | .intake => u.intake
  | .delta => u.delta
  | .advance d => u.advance d

/-- A step that is none of the users'. -/
def Own : Event → Prop
  | .produce _ => False
  | .setStop _ => False
  | .consume => False
  | _ => True

/-- When the receiver looks at its FIFO for a byte that was begun at a time: half a bit period after its
last data bit is over. -/
def look (u : Uart) (begun : Nat) : Nat := begun + u.period / 2 + 9 * u.period

end Uart

end Espmod.Serial
