/-
# Espmod.Web.Bench — the test bench's threads, wait by wait

The threads of a test read lines and characters, accept and make connections and open ports while
`fillbuffers` sorts the characters of the firmware into `_portlist`. A read looks its port up once and
keeps the index, over its waits and over all the characters of a line; a drained port that is closed is
erased by whoever drains it, and every entry behind it moves down.

A `Task` is what a thread goes on with: the read of one character, the end of a line, or the rest of a
message that finds no space. Each is a step of its own, so the model has every interleaving of the code
and those in which another thread comes between two characters of a line. Next to the buffers it keeps
the tag of each character, the port of the frame it came in.
-/
import Espmod.Web.Client

namespace Espmod.Web

open Espmod.Lib Espmod.Lib.Text
open Espmod.Socket.Sockets (isDigit int fmtRequest)

/-! ## §1 — frames -/

namespace Webclient

/-- The port that the last frame names, `none` behind a datagram header that selects nothing. A control
message does not change it. -/
def nextFrame (s : Webclient) (c : UInt8) (frame : Option Int) : Option Int :=
  match s.pc with
  | .digits => if isDigit c then frame else some s.port
  | .header firstcolon msg =>
    if c = chr ':' ∧ firstcolon then
      match scanf fmtRequest (cstr (msg ++ [c])) with
      | [_, _, _, _, port] => (getnotclosed s.portlist port).map fun _ => port
      | _ => none
    else frame
  | _ => frame

/-- The port a character belongs to, in a frame: control messages are those of port -1. -/
def tag (s : Webclient) (c : UInt8) (frame : Option Int) : Option Int :=
  match s.pc with
  | .esc => if c = 0xff then frame else some (-1)
  | .control => some (-1)
  | _ => frame

/-- The index at which `fillbuffers` changes `_portlist` with a character. -/
def target (s : Webclient) (c : UInt8) : Option Nat :=
  match s.pc with
  | .top => if c = 0xff then none else s.selected
  | .esc => if c = 0xff then s.selected else if isDigit c ∨ c = chr 's' then none else some 0
  | .digits =>
    if c = chr 'y' ∨ c = chr 'n' then getnotclosed s.portlist s.port else none
  | .flush => if c = chr '\n' then s.ind else none
  | .yn => s.ind
  | .control => some 0
  | _ => none

end Webclient

/-! ## §2 — threads -/

/-- A port number of the test as the `int` it is kept as. -/
def asInt (port : UInt32) : Int := int port.toNat

/-- What a line is read for. -/
inductive LineFor where
  | readln
  | expectconnect (ip port : UInt32)
  | connectclient (toport : UInt32)
  deriving DecidableEq, Repr

/-- What a character is read for: by itself, or for a line, with the text and the flag so far. -/
inductive ReadFor where
  | read
  | readln (k : LineFor) (msg : Bytes) (crseen : Bool)
  deriving DecidableEq, Repr

/-- What comes behind a message. -/
inductive SendFor where
  | connectclient (toport : UInt32)
  | done
  deriving DecidableEq, Repr

/-- What a thread goes on with. -/
inductive Task where
  | idle
  /-- `read(port, ind)`; `since` is the last notification seen by the wait it is in -/
  | reading (port : Int) (ind : Nat) (k : ReadFor) (since : Option Nat)
  /-- behind a line -/
  | line (k : LineFor) (msg : Bytes)
  /-- with `left` characters that have found no space yet -/
  | sending (k : SendFor) (left : Nat)
  deriving DecidableEq, Repr

/-- What the claim is about: a character returned by a read on a port, with its tag, and a change that
`fillbuffers` makes with a character of a frame, with the port of the entry; `none` outside the vector. -/
inductive Record where
  | returned (port : Int) (tag : Option Int)
  | changed (tag entry : Option Int)
  deriving DecidableEq, Repr

/-- The test bench. -/
structure Bench where
  client : Webclient
  frame : Option Int
  /-- the tags of the characters in the buffers -/
  tags : List (List (Option Int))
  tx : Bytes
  threads : List Task
  records : List Record
  deriving DecidableEq

namespace Bench

def portAt (w : Bench) (ind : Nat) : Option Int := (w.client.portlist[ind]?).map WifiPort.port

def setTask (r : Nat) (t : Task) (w : Bench) : Bench := { w with threads := w.threads.set r t }

/-- An access outside `_portlist`: nothing is said about what follows. -/
def crash (r : Nat) (w : Bench) : Bench :=
  { w with client := { w.client with pc := .crashed } }.setTask r .idle

/-- `_portlist.push_back(wifiport_t(port))`. -/
def pushBack (port : Int) (w : Bench) : Bench :=
  { w with
    client := { w.client with portlist := w.client.portlist ++ [⟨port, false, []⟩] }
    tags := w.tags ++ [[]] }

/-- `_portlist.erase(_portlist.begin()+ind)` and `_portclosed = true`. -/
def eraseAt (ind : Nat) (w : Bench) : Bench :=
  { w with
    client := { w.client with portlist := w.client.portlist.eraseIdx ind, portclosed := true }
    tags := w.tags.eraseIdx ind }

/-- `_portlist[ind].buffer.pop_front()`, by a read on `port`. -/
def popFront (port : Int) (ind : Nat) (w : Bench) : Bench :=
  { w with
    client := { w.client with
      portlist := w.client.portlist.modify ind fun e => { e with buffer := e.buffer.tail } }
    tags := w.tags.modify ind List.tail
    records := w.records ++ [Record.returned port ((w.tags[ind]?.bind List.head?).join)] }

/-- `_portlist[ind].buffer.clear()`. -/
def clear (ind : Nat) (w : Bench) : Bench :=
  { w with
    client := { w.client with
      portlist := w.client.portlist.modify ind fun e => { e with buffer := [] } }
    tags := w.tags.modify ind fun _ => [] }

/-- The entry at `ind` is closed. -/
def closedAt (w : Bench) (ind : Nat) : Bool := (w.client.portlist[ind]?).elim false WifiPort.closed

/-- `webclient::flush`. -/
def flush (port : Int) (w : Bench) : Bench :=
  match getind w.client.portlist port with
  | none => w
  | some ind => if w.closedAt ind then (w.clear ind).eraseAt ind else w.clear ind

/-! ## §3 — reading -/

/-- The call goes on behind `read(port, ind)`; `got` is what it returns, `none` for -1. -/
def goOn (r : Nat) (port : Int) (ind : Nat) (k : ReadFor) (got : Option UInt8) (w : Bench) : Bench :=
  match k with
  | .read => w.setTask r .idle
  | .readln k msg crseen =>
    match got with
    | none => w.setTask r (.line k msg)
    | some c =>
      if c = chr '\n' ∧ crseen then w.setTask r (.line k msg)
      else
        let msg := if crseen then msg ++ [chr '\r'] else msg
        if c = chr '\r' then w.setTask r (.reading port ind (.readln k msg true) none)
        else w.setTask r (.reading port ind (.readln k (msg ++ [c]) false) none)

/-- A read drains a closed port. -/
def drains (e : WifiPort) : Bool := e.buffer.tail.isEmpty && e.closed

/-- `webclient::read(port, ind)` from the test of its loop, up to its end or to its wait. -/
def readAt (r : Nat) (port : Int) (ind : Nat) (k : ReadFor) (w : Bench) : Bench :=
  match w.client.portlist[ind]? with
  | none => w.crash r
  | some e =>
    match e.buffer with
    | [] =>
      if e.closed then (w.eraseAt ind).goOn r port ind k none
      else w.setTask r (.reading port ind k (some w.client.notified))
    | c :: _ =>
      let w := w.popFront port ind
      if drains e then (w.eraseAt ind).goOn r port ind k (some c) else w.goOn r port ind k (some c)

/-- `webclient::read(port)`, up to its first test. -/
def startRead (r : Nat) (port : Int) (w : Bench) : Bench :=
  match getind w.client.portlist port with
  | none => w
  | some ind => w.setTask r (.reading port ind .read none)

/-- `webclient::readln(port)`, up to its first read. -/
def startLine (r : Nat) (port : Int) (k : LineFor) (w : Bench) : Bench :=
  match getind w.client.portlist port with
  | none => w.setTask r (.line k [])
  | some ind => w.setTask r (.reading port ind (.readln k [] false) none)

/-! ## §4 — messages -/

/-- `sendf(-1, false, …)`: what does not fit into `room` is waited for. -/
def sendf (r room : Nat) (k : SendFor) (text : Bytes) (w : Bench) : Bench :=
  let msg := cstr (text.take 127)
  { w with tx := w.tx ++ msg }.setTask r (.sending k (msg.length - room))

/-- The call goes on behind its message. -/
def sent (r : Nat) (k : SendFor) (w : Bench) : Bench :=
  match k with
  | .connectclient toport =>
    (w.pushBack (asInt toport)).startLine r (asInt toport) (.connectclient toport)
  | .done => w.setTask r .idle

/-- `macstr`. -/
def macstr : Bytes := str "55:32:77:aa:bb:38"

/-- `"\\xff""c %39[^:]:%u"`: the address and the port of a connect request. -/
def scanConnect (msg : Bytes) : Option (Bytes × Int) :=
  match msg with
  | a :: b :: rest =>
    if a = 0xff ∧ b = chr 'c' then
      let rest := skipSpace rest
      let ip := (rest.take 39).takeWhile (· ≠ chr ':')
      match rest.drop ip.length with
      | c :: rest =>
        if ip ≠ [] ∧ c = chr ':' then
          match scanf [.convU] rest with
          | [port] => some (ip, port)
          | _ => none
        else none
      | [] => none
    else none
  | _ => none

/-- `"\\xff""y %x:%x:%x:%x:%x:%x"`. -/
def fmtMac : List Directive :=
  [.lit 0xff, .lit (chr 'y'), .blank, .convX, .lit (chr ':'), .convX, .lit (chr ':'), .convX,
    .lit (chr ':'), .convX, .lit (chr ':'), .convX, .lit (chr ':'), .convX]

/-- The answer carries a MAC address. -/
def macOk (msg : Bytes) : Bool :=
  let a := scanf fmtMac (cstr msg)
  a.length == 6 && a.all fun v => v ≤ 0xff

/-- `msg.find("\\xff""y") == 0`. -/
def isAccepted (msg : Bytes) : Bool := msg.take 2 == [0xff, chr 'y']

-- `IPAddress::fromString`
variable (fromString : Bytes → Option UInt32)

/-- The request in the line is the expected one. `luck` is the outcome of comparing variables that were
not set. -/
def expected (ip port : UInt32) (msg : Bytes) (luck : Bool) : Bool :=
  match scanConnect (cstr msg) with
  | none => luck
  | some (gotipstr, gotport) =>
    match fromString gotipstr with
    | none => luck
    | some gotip => gotip == ip && gotport == port.toNat

/-- The call goes on behind its line. -/
def lineDone (r room : Nat) (luck : Bool) (k : LineFor) (msg : Bytes) (w : Bench) : Bench :=
  match k with
  | .readln => w.setTask r .idle
  | .expectconnect ip port =>
    if expected fromString ip port msg luck then
      (w.pushBack (asInt port)).sendf r room .done
        (0xff :: showInt (asInt port) ++ str "y " ++ macstr ++ str "\r\n")
    else w.sendf r room .done (0xff :: showInt (asInt port) ++ str "n\r\n")
  | .connectclient toport =>
    if isAccepted msg = false then
      match getind w.client.portlist (asInt toport) with
      | none => w.setTask r .idle
      | some ind => (w.eraseAt ind).setTask r .idle
    else if macOk msg = false then
      match getind w.client.portlist (asInt toport) with
      | none => w.crash r
      | some _ => w.setTask r .idle
    else w.setTask r .idle

/-! ## §5 — steps -/

/-- Something that happens: a character for `fillbuffers`, the beginning of a call by thread `r`, or a
thread going on. -/
inductive Step where
  | rx (c : UInt8)
  | read (r : Nat) (port : Int)
  | readln (r : Nat) (port : Int)
  | flush (port : Int)
  | expectconnect (r : Nat) (ip port : UInt32)
  | connectclient (r room : Nat) (toip : Bytes) (toport : UInt32)
  | openudpport (port : Int)
  | turn (r room : Nat) (luck : Bool)
  deriving DecidableEq, Repr

/-- The new tags of a buffer that characters were appended to. -/
def retag (tag : Option Int) (e : WifiPort) (ts : List (Option Int)) : List (Option Int) :=
  ts ++ List.replicate (e.buffer.length - ts.length) tag

/-- `fillbuffers` with one character. -/
def rx (c : UInt8) (w : Bench) : Bench :=
  let frame := w.client.nextFrame c w.frame
  let tag := w.client.tag c frame
  let client := w.client.rx c
  { w with
    client
    frame
    tags := List.zipWith (retag tag) client.portlist w.tags
    records := w.records ++ ((w.client.target c).map fun ind => .changed tag (w.portAt ind)).toList }

/-- A thread goes on, if its wait is over. -/
def turn (r room : Nat) (luck : Bool) (w : Bench) : Bench :=
  match w.threads[r]? with
  | some (.reading port ind k since) =>
    if since = some w.client.notified then w else w.readAt r port ind k
  | some (.line k msg) => w.lineDone fromString r room luck k msg
  | some (.sending k left) =>
    if room < left then w.setTask r (.sending k (left - room)) else w.sent r k
  | _ => w

/-- A thread that is in no call. -/
def free (w : Bench) (r : Nat) : Bool := w.threads[r]? == some .idle

/-- `"\\xff""c %s:%u\\r\\n"`. -/
def connectText (toip : Bytes) (toport : UInt32) : Bytes :=
  0xff :: str "c " ++ toip ++ [chr ':'] ++ showNat 10 toport.toNat ++ str "\r\n"

/-- **The step function.** -/
def step (w : Bench) : Step → Bench
  | .rx c => w.rx c
  | .read r port => if w.free r then w.startRead r port else w
  | .readln r port => if w.free r then w.startLine r port .readln else w
  | .flush port => w.flush port
  | .expectconnect r ip port =>
    if w.free r then (w.flush (asInt port)).startLine r (-1) (.expectconnect ip port) else w
  | .connectclient r room toip toport =>
    if w.free r then (w.flush (-1)).sendf r room (.connectclient toport) (connectText toip toport)
    else w
  | .openudpport port => w.pushBack port
  | .turn r room luck => w.turn fromString r room luck

/-- `fillbuffers` at its first read, and threads in no call. -/
def start (n : Nat) : Bench where
  client := Webclient.boot
  frame := none
  tags := [[]]
  tx := []
  threads := List.replicate n .idle
  records := []

end Bench

end Espmod.Web
