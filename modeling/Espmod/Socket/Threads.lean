/-
# Espmod.Socket.Threads — the calls of several threads, wait by wait

`espm_recv`, `espm_read`, `espm_accept` and `espm_connect` read under one semaphore, `__oneread`, and
hold it while they wait for characters; `espm_accept`, `espm_connect` and `espm_close` send under
another, `__onewrite`, and hold it while the transmit FIFO is full. A thread that waits gives way to
the others, and whatever it computed before the wait it uses afterwards: the index of its descriptor
above all.

A `Task` is the wait a thread is suspended in, with the locals it will go on with. A step runs one
thread from its wait to the next one. Taking a semaphore is always a step of its own: where the
semaphore is free the thread would go on at once, so the model has every interleaving of the code and
those in which others come first. Each use of an entry of `_fdlist` through an index is recorded with
the descriptor of the call and the number of the entry it met.
-/
import Espmod.Socket.Calls
import Espmod.Socket.Wakeup

namespace Espmod.Socket

open Espmod.Lib.Text

/-! ## §1 — waits -/

/-- What a call does with what it reads. `ind` is the index computed when the call began. -/
inductive ReadFor where
  | recv (fd : Int) (len : Nat) (waitall dontwait : Bool)
  | accept (fd : Int) (ind : Nat)
  | connect (fd : Int) (ind : Nat)
  deriving DecidableEq, Repr

/-- A call of `espm_close` that is waiting for a nested one, with the next pass of its loop. -/
structure CloseFrame where
  fd : Int
  ind : Nat
  pass : Nat
  deriving DecidableEq, Repr

/-- What a call does when its control message is sent. -/
inductive WriteFor where
  | accept (fd : Int) (ind : Nat) (afd : Int)
  | connect (fd : Int) (ind : Nat)
  | close (fd : Int) (ind : Nat) (callers : List CloseFrame)
  deriving DecidableEq, Repr

/-- The wait a thread is suspended in. -/
inductive Task where
  | idle
  /-- about to take `__oneread` -/
  | readSem (k : ReadFor)
  /-- holding `__oneread`, waiting for characters at `ind`, with what has been read so far -/
  | reading (k : ReadFor) (ind : Nat) (reader : Reader) (got : Bytes) (since : Nat)
  /-- about to take `__onewrite` -/
  | writeSem (k : WriteFor) (msg : Bytes)
  /-- holding `__onewrite`, with `left` characters that have found no space yet -/
  | sending (k : WriteFor) (resp left : Nat)
  /-- between two passes of the loop of the innermost `espm_close` -/
  | closing (frames : List CloseFrame)
  deriving DecidableEq, Repr

/-- A use of an entry of `_fdlist` by a call on `fd`: the number of the entry the index met, `none`
outside the vector, and the characters taken from its buffer. -/
structure Access where
  fd : Int
  entry : Option Int
  taken : Bytes
  deriving DecidableEq, Repr

/-- The sockets, the semaphores and the threads. `adapter` is what the MAC and IP address of the
interface print as, and `count` what lies on the stack where `__espm_readline` starts to count. -/
structure Firmware where
  net : Sockets
  adapter : Bytes
  count : BitVec 32
  oneread : Bool
  onewrite : Bool
  threads : List Task
  accesses : List Access
  deriving DecidableEq

namespace ReadFor

/-- The descriptor of the call. -/
def fd : ReadFor → Int
  | recv fd _ _ _ => fd
  | accept fd _ => fd
  | connect fd _ => fd

end ReadFor

namespace Firmware

def entryAt (w : Firmware) (ind : Nat) : Option Int := (w.net.fdlist[ind]?).map Fd.fdn

def setTask (r : Nat) (t : Task) (w : Firmware) : Firmware := { w with threads := w.threads.set r t }

def setFdlist (fdlist : List Fd) (w : Firmware) : Firmware := { w with net := { w.net with fdlist } }

def touch (fd : Int) (ind : Nat) (taken : Bytes) (w : Firmware) : Firmware :=
  { w with accesses := w.accesses ++ [⟨fd, w.entryAt ind, taken⟩] }

/-- An access outside `_fdlist`: nothing is said about what follows. -/
def crash (r : Nat) (w : Firmware) : Firmware :=
  { w with net := { w.net with pc := .crashed } }.setTask r .idle

/-! ## §2 — reading -/

/-- `espm_accept` behind its line, up to the wait for `__onewrite`. -/
def acceptLine (r : Nat) (fd : Int) (ind : Nat) (msg : Bytes) (w : Firmware) : Firmware :=
  if Sockets.lineCount w.count msg < 0 ∨ (scanf Sockets.fmtAccept (cstr msg)).length ≠ 5 then
    w.setTask r .idle
  else
    match alloc w.net.fdlist fd with
    | none => w.setTask r .idle
    | some (afd, fdlist) =>
      let w := w.setFdlist fdlist
      match getind fdlist afd with
      | none => w.setTask r .idle
      | some aind =>
        let w := (w.touch fd ind []).touch afd aind []
        match fdlist[ind]? with
        | none => w.crash r
        | some f =>
          (w.setFdlist (update fdlist aind (·.accepted f))).setTask r
            (.writeSem (.accept fd ind afd) (Sockets.acceptMsg f.port w.adapter))

/-- `msg.find("\\xffy") == 0`. -/
def isGranted (msg : Bytes) : Bool := msg.take 2 == [0xff, chr 'y']

/-- `espm_connect` behind its line. -/
def connectLine (r : Nat) (fd : Int) (ind : Nat) (msg : Bytes) (w : Firmware) : Firmware :=
  if 0 ≤ Sockets.lineCount w.count msg ∧ isGranted msg then
    let w := w.touch fd ind []
    match w.net.fdlist[ind]? with
    | none => w.crash r
    | some _ =>
      (w.setFdlist (update w.net.fdlist ind fun f => { f with connected := true, bound := false })
        ).setTask r .idle
  else w.setTask r .idle

/-- The call goes on behind what it has read; a line comes with its CR LF. -/
def readDone (r : Nat) (k : ReadFor) (got : Bytes) (w : Firmware) : Firmware :=
  match k with
  | .recv _ _ _ _ => w.setTask r .idle
  | .accept fd ind => w.acceptLine r fd ind (got.take (got.length - 2))
  | .connect fd ind => w.connectLine r fd ind (got.take (got.length - 2))

/-- The loop of `__espm_readline` or `__espm_receive` from a point at which `got` has been read, up to
its end, where `__oneread` is posted, or to its next wait. -/
def read (r : Nat) (k : ReadFor) (ind : Nat) (reader : Reader) (got : Bytes) (w : Firmware) :
    Firmware :=
  match w.net.fdlist[ind]? with
  | none => (w.touch k.fd ind []).crash r
  | some f =>
    let (reader', rest) := reader.run f.buffer
    let taken := f.buffer.take (f.buffer.length - rest.length)
    let w := (w.touch k.fd ind taken).setFdlist (update w.net.fdlist ind (·.consume rest))
    match reader' with
    | some reader' => w.setTask r (.reading k ind reader' (got ++ taken) w.net.notified)
    | none => { w with oneread := false }.readDone r k (got ++ taken)

/-- The call returns from its reading section without having read anything more. -/
def readFail (r : Nat) (w : Firmware) : Firmware := { w with oneread := false }.setTask r .idle

/-- `__espm_receive` from its beginning. The test for other flags lets every call through: the
comparison in it binds closer than the mask. -/
def receive (r : Nat) (fd : Int) (len : Nat) (waitall dontwait : Bool) (w : Firmware) : Firmware :=
  match getind w.net.fdlist fd with
  | none => w.readFail r
  | some ind =>
    let f := w.net.fdlist.getD ind (Fd.new 0 0)
    if f.type = .STREAM ∧ !f.connected then w.readFail r
    else if f.type ≠ .STREAM ∧ !f.bound then w.readFail r
    else if (dontwait ∨ f.flags &&& O_NONBLOCK ≠ 0) ∧ (f.buffer = [] ∨ len = 0) then w.readFail r
    else if f.closed ∧ f.buffer = [] then w.readFail r
    else if len = 0 then w.readFail r
    else if waitall then w.read r (.recv fd len waitall dontwait) ind (.receive (len - 1)) []
    else
      ((w.touch fd ind (f.buffer.take len)).setFdlist
        (update w.net.fdlist ind (·.consume (f.buffer.drop len)))).readFail r

/-- A call with `__oneread` just taken. -/
def startRead (r : Nat) (k : ReadFor) (w : Firmware) : Firmware :=
  match k with
  | .recv fd len waitall dontwait => w.receive r fd len waitall dontwait
  | .accept fd _ =>
    match getind w.net.fdlist fd with
    | none => w.readFail r
    | some ind => w.read r k ind (.readline false) []
  | .connect fd ind₀ =>
    let w := w.touch fd ind₀ []
    match w.net.fdlist[ind₀]? with
    | none => w.crash r
    | some f =>
      match getind w.net.fdlist f.fdn with
      | none => w.readFail r
      | some ind => w.read r k ind (.readline false) []

/-! ## §3 — closing -/

/-- `espm_close` returns to the loop it was called from, if it was. -/
def closeReturn (r : Nat) (callers : List CloseFrame) (w : Firmware) : Firmware :=
  w.setTask r (if callers = [] then .idle else .closing callers)

/-- `_fdlist.erase(_fdlist.begin()+ind)`. -/
def erase (r : Nat) (fd : Int) (ind : Nat) (callers : List CloseFrame) (w : Firmware) : Firmware :=
  let w := w.touch fd ind []
  if ind < w.net.fdlist.length then
    { w with net := { w.net with fdlist := w.net.fdlist.eraseIdx ind, portclosed := true }
      }.closeReturn r callers
  else w.crash r

/-- The part of `espm_close` behind the loop. -/
def closeFinish (r : Nat) (fd : Int) (ind : Nat) (callers : List CloseFrame) (w : Firmware) :
    Firmware :=
  let w := w.touch fd ind []
  match w.net.fdlist[ind]? with
  | none => w.crash r
  | some f =>
    if f.connected then w.setTask r (.writeSem (.close fd ind callers) (Sockets.closeMsg f.port))
    else w.erase r fd ind callers

/-- `espm_close` from its beginning. -/
def closeEnter (r : Nat) (fd : Int) (callers : List CloseFrame) (w : Firmware) : Firmware :=
  match getind w.net.fdlist fd with
  | none => w.closeReturn r callers
  | some ind =>
    if fd = w.net.controlfd then w.closeReturn r callers
    else
      let f := w.net.fdlist.getD ind (Fd.new 0 0)
      match getind w.net.fdlist f.owner with
      | none => w.closeFinish r fd ind callers
      | some o =>
        if f.islistening then w.setTask r (.closing (⟨fd, ind, 0⟩ :: callers))
        else (w.setFdlist (update w.net.fdlist o Fd.release)).closeFinish r fd ind callers

/-- One pass of the loop of the innermost `espm_close`. -/
def closePass (r : Nat) (frames : List CloseFrame) (w : Firmware) : Firmware :=
  match frames with
  | [] => w.setTask r .idle
  | frame :: callers =>
    match w.net.fdlist[frame.pass]? with
    | none => w.closeFinish r frame.fd frame.ind callers
    | some e => w.closeEnter r e.owner ({ frame with pass := frame.pass + 1 } :: callers)

/-! ## §4 — sending -/

/-- `__espm_sendmsg` of a control message, with `__onewrite` just taken. What does not fit into `room`
is waited for. A connecting call sets the channel's time-out first, from its entry. -/
def startWrite (r room : Nat) (k : WriteFor) (msg : Bytes) (w : Firmware) : Firmware :=
  let w := match k with
    | .connect fd ind => w.touch fd ind []
    | _ => w
  let (out, resp) := sendmsg w.net.lastport room (fun _ => 0) controlport (cstr msg) .ESCAPENONE true
  { w with
    net := { w.net with tx := w.net.tx ++ out, lastport := nextLastport controlport }
    }.setTask r (.sending k resp (out.length - room))

/-- The call goes on behind its message, with `__onewrite` posted. -/
def writeDone (r : Nat) (k : WriteFor) (resp : Nat) (w : Firmware) : Firmware :=
  match k with
  | .accept fd ind afd =>
    if resp = 0 then w.closeEnter r afd [] else (w.touch fd ind []).setTask r .idle
  | .connect fd ind => w.setTask r (.readSem (.connect fd ind))
  | .close fd ind callers => w.erase r fd ind callers

/-! ## §5 — steps -/

/-- `"\\xff""c %s:%d\\r\\n"` in a buffer of fifty characters. -/
def connectMsg (ip : Bytes) (port : UInt16) : Bytes :=
  (0xff :: str "c " ++ ip ++ [chr ':'] ++ showInt port.toNat ++ str "\r\n").take 49

/-- `espm_connect` with a legal address, up to the wait for `__onewrite`. -/
def connect (r : Nat) (fd : Int) (ip : Bytes) (port : UInt16) (w : Firmware) : Firmware :=
  match getind w.net.fdlist fd with
  | none => w
  | some ind =>
    let f := w.net.fdlist.getD ind (Fd.new 0 0)
    if f.type = .DGRAM then { w with net := (w.net.espmBind fd (some port)).1 }
    else if f.connected then w
    else
      ((w.touch fd ind []).setFdlist
        (update w.net.fdlist ind fun f => { f with port := port.toNat })).setTask r
          (.writeSem (.connect fd ind) (connectMsg ip port))

/-- `espm_accept` with legal arguments, up to the wait for `__oneread`. -/
def accept (r : Nat) (fd : Int) (w : Firmware) : Firmware :=
  match getind w.net.fdlist fd with
  | none => w
  | some ind =>
    let f := w.net.fdlist.getD ind (Fd.new 0 0)
    if f.type ≠ .STREAM ∧ f.type ≠ .SEQPACKET then w
    else if !f.islistening then w
    else if f.closed ∧ f.buffer = [] then w
    else if f.flags &&& O_NONBLOCK = O_NONBLOCK ∧ f.buffer = [] then w
    else w.setTask r (.readSem (.accept fd ind))

/-- Something that happens: a character for the receiver, a call that does not wait, the beginning of
a call by thread `r`, or what the wait of a thread was for; or the stack changes. `espm_read` is `recv`
with `waitall`. -/
inductive Step where
  | rx (room : Nat) (c : UInt8)
  | socket (domain : Int) (type : SockType) (protocol : Int)
  | bind (fd : Int) (address : Option UInt16)
  | listen (fd backlog : Int)
  | recv (r : Nat) (fd : Int) (len : Nat) (waitall dontwait : Bool)
  | accept (r : Nat) (fd : Int)
  | connect (r : Nat) (fd : Int) (ip : Bytes) (port : UInt16)
  | close (r : Nat) (fd : Int)
  | turn (r room : Nat)
  | timeout (r : Nat)
  | count (p : BitVec 32)
  deriving DecidableEq, Repr

/-- A thread goes on, if its wait is over: the semaphore is free, a character has been notified, there
is space for the rest of the message. -/
def turn (r room : Nat) (w : Firmware) : Firmware :=
  match w.threads[r]? with
  | some (.readSem k) => if w.oneread then w else { w with oneread := true }.startRead r k
  | some (.reading k ind reader got since) =>
    if since = w.net.notified then w else w.read r k ind reader got
  | some (.writeSem k msg) =>
    if w.onewrite then w else { w with onewrite := true }.startWrite r room k msg
  | some (.sending k resp left) =>
    if room < left then w.setTask r (.sending k resp (left - room))
    else { w with onewrite := false }.writeDone r k resp
  | some (.closing frames) => w.closePass r frames
  | _ => w

/-- A thread that is in no call. -/
def free (w : Firmware) (r : Nat) : Bool := w.threads[r]? == some .idle

def step (w : Firmware) : Step → Firmware
  | .rx room c => { w with net := w.net.rx room c }
  | .socket domain type protocol => { w with net := (w.net.espmSocket domain type protocol).1 }
  | .bind fd address => { w with net := (w.net.espmBind fd address).1 }
  | .listen fd backlog => { w with net := (w.net.espmListen fd backlog).1 }
  | .recv r fd len waitall dontwait =>
    if w.free r then w.setTask r (.readSem (.recv fd len waitall dontwait)) else w
  | .accept r fd => if w.free r then w.accept r fd else w
  | .connect r fd ip port => if w.free r then w.connect r fd ip port else w
  | .close r fd => if w.free r then w.closeEnter r fd [] else w
  | .turn r room => w.turn r room
  | .timeout r =>
    match w.threads[r]? with
    | some (.reading _ _ _ _ _) => w.readFail r
    | _ => w
  | .count p => { w with count := p }

end Firmware

end Espmod.Socket
