/-
# Espmod.Socket.Receive — `fillbuffers` and `takerequest` as a byte-driven machine

The receiver thread runs from one `WiFiSerial.bl_read()` to the next without giving up the processor
(a notification is immediate), so it is a machine that takes one byte at a time: `Pc` names the read
it is suspended in and `rx` runs it to the next one. Its locals `ind` and `port` live across reads,
while other threads change the table; `crashed` is an access outside `_fdlist` or through the NULL
pointer that a connect request hands to `takerequest`.
-/
import Espmod.Socket.Table
import Espmod.Socket.Send

namespace Espmod.Socket

open Espmod.Lib.Text

/-! ## §1 — state -/

/-- The read `fillbuffers` is suspended in. -/
inductive Pc where
  | top
  /-- the character after `0xff` -/
  | esc
  | digits
  /-- skipping the line of a close -/
  | flush
  /-- the line of an answer, into the buffer at `ind` -/
  | yn
  /-- a control message, into the buffer at index 0 -/
  | control
  /-- in `takerequest`, with the text collected so far -/
  | request (connect firstcolon : Bool) (msg : Bytes)
  | crashed
  deriving DecidableEq, Repr

/-- The globals of `sockets.cpp` and the locals of `fillbuffers`. -/
structure Sockets where
  fdlist : List Fd
  controlfd : Int
  portclosed : Bool
  /-- the static of `__espm_sendmsg` -/
  lastport : Int
  /-- the characters written to `WiFiSerial` -/
  tx : Bytes
  /-- how often `__fifowrite_ev` was notified -/
  notified : Nat
  pc : Pc
  ind : Option Nat
  port : Int
  deriving DecidableEq, Repr

/-- `_controlport`. -/
def controlport : Int := -1

namespace Sockets

/-- `fillbuffers` up to its first read: the control descriptor is the first one. -/
def boot : Sockets where
  fdlist := [Fd.new 1 (-1)]
  controlfd := 1
  portclosed := false
  lastport := -1
  tx := []
  notified := 0
  pc := .top
  ind := none
  port := -1

/-- A control message, blocking: `(void)__espm_sendmsg(_controlport, msg)`. -/
def sendControl (s : Sockets) (room : Nat) (msg : Bytes) : Sockets :=
  let (out, _) := sendmsg s.lastport room (fun _ => 0) controlport (cstr msg) .ESCAPENONE true
  { s with tx := s.tx ++ out, lastport := nextLastport controlport }

/-- `_fdlist[ind].buffer.push_back` of several characters. -/
def pushAt (s : Sockets) (ind : Nat) (bs : Bytes) : Sockets :=
  if ind < s.fdlist.length then { s with fdlist := update s.fdlist ind (·.push bs) }
  else { s with pc := .crashed }

/-- `__fifowrite_ev.notify()`. -/
def notify (s : Sockets) : Sockets := { s with notified := s.notified + 1 }

/-! ## §2 — requests -/

/-- `"%d.%d.%d.%d:%d"`. -/
def fmtRequest : List Directive :=
  [.convD, .lit (chr '.'), .convD, .lit (chr '.'), .convD, .lit (chr '.'), .convD, .lit (chr ':'),
    .convD]

/-- The descriptor a request is for. -/
def receiver (fdlist : List Fd) (connect : Bool) (port : Int) : Option Nat :=
  fdlist.findIdx? fun f => f.islistening && f.port == port &&
    (connect && f.type == .STREAM || !connect && f.type != .STREAM)

/-- The answer to a rejected connect request, built in a buffer of ten characters. -/
def rejection (port : Int) (msg : Bytes) : Bytes :=
  ((0xff :: showInt port) ++ [chr 'n']).take 9 ++ msg

/-- `takerequest` after its last read. -/
def takerequest (s : Sockets) (room : Nat) (connect : Bool) (msg : Bytes) : Sockets :=
  match scanf fmtRequest (cstr msg) with
  | [_, _, _, _, port] =>
    match receiver s.fdlist connect port with
    | none =>
      if connect then { s with pc := .top }.sendControl room (rejection port msg)
      else { s with pc := .top }
    | some it =>
      let f := s.fdlist.getD it (Fd.new 0 0)
      if f.type ≠ .STREAM then { s with pc := .top, ind := some it }
      else if f.connections = f.maxconnect then
        { s with pc := .top }.sendControl room (rejection port msg)
      else
        { s with pc := .top, fdlist := update s.fdlist it (·.queue msg) }
  | _ => if connect then { s with pc := .crashed } else { s with pc := .top, ind := none }

/-! ## §3 — one character -/

def isDigit (c : UInt8) : Bool := chr '0' ≤ c && c ≤ chr '9'

/-- The digit's value, `(int)(escaped - '0')`. -/
def digit (c : UInt8) : Int := c.toNat - 48

/-- What an `int` holds of a value: the host's arithmetic wraps where the language leaves it open. -/
def int (v : Int) : Int := v.bmod (2 ^ 32)

/-- A port was closed since the last data character: find the index again. -/
def refresh (s : Sockets) : Sockets :=
  if s.portclosed then { s with ind := getnotlisten s.fdlist s.port, portclosed := false } else s

/-- A data character: the branch that does not look at control sequences. -/
def data (s : Sockets) (token : UInt8) : Sockets :=
  let s := { s with pc := .top }.refresh
  match s.ind with
  | none => s.notify
  | some ind => s.notify.pushAt ind [token]

/-- The character behind the digits of a port. -/
def terminator (s : Sockets) (escaped : UInt8) : Sockets :=
  match getnotlisten s.fdlist s.port with
  | none => { s with pc := .top, ind := none }
  | some ind =>
    if escaped = chr '!' then { s with pc := .flush, ind := some ind }
    else if escaped = chr 'y' ∨ escaped = chr 'n' then
      { s with pc := .yn, ind := some ind }.pushAt ind [0xff, escaped]
    else { s with pc := .top, ind := some ind }

/-- The first character of a control sequence. -/
def escape (s : Sockets) (escaped : UInt8) : Sockets :=
  if isDigit escaped then { s with pc := .digits, port := digit escaped }
  else if escaped = chr 'c' then { s with pc := .request true false [] }
  else if escaped = chr 's' then { s with pc := .request false false [] }
  else { s with pc := .control }.pushAt 0 [0xff, escaped]

/-- **One character from `WiFiSerial.bl_read()`**; `room` is the free space of the transmit FIFO. -/
def rx (s : Sockets) (room : Nat) (c : UInt8) : Sockets :=
  match s.pc with
  | .top => if c = 0xff then { s with pc := .esc } else s.data c
  | .esc => if c = 0xff then s.data c else s.escape c
  | .digits =>
    if isDigit c then { s with port := int (s.port * 10 + digit c) } else s.terminator c
  | .flush => if c = chr '\n' then { s with pc := .top } else s
  | .yn =>
    match s.ind with
    | none => { s with pc := .crashed }
    | some ind =>
      if c = chr '\n' then ({ s with pc := .top }.notify).pushAt ind [c] else s.pushAt ind [c]
  | .control =>
    if c = chr '\n' then ({ s with pc := .top }.notify).pushAt 0 [c] else s.pushAt 0 [c]
  | .request connect firstcolon msg =>
    if c = chr ' ' then s
    else if c = chr '\n' ∨ (c = chr ':' ∧ firstcolon) then s.takerequest room connect (msg ++ [c])
    else { s with pc := .request connect (firstcolon || c == chr ':') (msg ++ [c]) }
  | .crashed => s

/-! ## §4 — the small facts -/

section Basic

variable {s : Sockets}

theorem pushAt_of_lt {ind : Nat} (h : ind < s.fdlist.length) (bs : Bytes) :
    s.pushAt ind bs = { s with fdlist := update s.fdlist ind (·.push bs) } := by
  rw [pushAt, if_pos h]

@[simp] theorem pushAt_notified (ind : Nat) (bs : Bytes) :
    (s.pushAt ind bs).notified = s.notified := by
  unfold pushAt
  split <;> rfl

@[simp] theorem refresh_notified : s.refresh.notified = s.notified := by
  unfold refresh
  split <;> rfl

@[simp] theorem sendControl_fdlist (room : Nat) (msg : Bytes) :
    (s.sendControl room msg).fdlist = s.fdlist := rfl
@[simp] theorem sendControl_pc (room : Nat) (msg : Bytes) : (s.sendControl room msg).pc = s.pc := rfl
@[simp] theorem sendControl_controlfd (room : Nat) (msg : Bytes) :
    (s.sendControl room msg).controlfd = s.controlfd := rfl
@[simp] theorem sendControl_ind (room : Nat) (msg : Bytes) :
    (s.sendControl room msg).ind = s.ind := rfl
@[simp] theorem sendControl_port (room : Nat) (msg : Bytes) :
    (s.sendControl room msg).port = s.port := rfl
@[simp] theorem sendControl_portclosed (room : Nat) (msg : Bytes) :
    (s.sendControl room msg).portclosed = s.portclosed := rfl
@[simp] theorem sendControl_notified (room : Nat) (msg : Bytes) :
    (s.sendControl room msg).notified = s.notified := rfl

end Basic

end Sockets

end Espmod.Socket
