/-
# Espmod.Socket.Calls — `espm_socket`, `espm_bind`, `espm_listen`, `espm_accept`, `espm_close`

The calls of the firmware, each run to its end. `espm_accept` blocks while its descriptor holds no
complete line, and then it is `none`. `espm_close` calls itself over a vector it is changing and goes
on with an index computed before: `bounds` is an index that has left the vector by then, `depth` a
recursion that exceeds the stack.
-/
import Espmod.Socket.Receive

namespace Espmod.Socket

open Espmod.Lib.Text

/-- What a call may do outside the language's rules. -/
inductive Fault where
  | bounds
  | depth
  deriving DecidableEq, Repr

/-- One step of the simulation: a character for the receiver, or a call of a firmware thread. -/
inductive Event where
  | rx (room : Nat) (c : UInt8)
  | socket (domain : Int) (type : SockType) (protocol : Int)
  | bind (socket : Int) (address : Option UInt16)
  | listen (socket backlog : Int)
  /-- `p` is what the stack holds where `__espm_readline` counts -/
  | accept (room depth : Nat) (text : Bytes) (p : BitVec 32) (socket : Int)
  | close (room depth : Nat) (socket : Int)
  /-- a reader takes characters from the front of a buffer -/
  | take (socket : Int) (n : Nat)

/-- The step is a call of a firmware thread. -/
def Event.isCall : Event → Prop
  | .rx _ _ => False
  | _ => True

theorem Event.eq_rx {e : Event} (h : ¬ e.isCall) : ∃ room c, e = .rx room c := by
  cases e with
  | rx room c => exact ⟨room, c, rfl⟩
  | _ => exact absurd trivial h

/-- The steps in which the receiver gets these characters. -/
def Event.feed (room : Nat) (cs : Bytes) : List Event := cs.map (.rx room)

def AF_INET : Int := 2
def O_NONBLOCK : UInt32 := 1

namespace Sockets

/-! ## §1 — making descriptors -/

/-- `espm_socket`. -/
def espmSocket (s : Sockets) (domain : Int) (type : SockType) (protocol : Int) : Sockets × Int :=
  if domain ≠ AF_INET then (s, -1)
  else if type ≠ .STREAM ∧ type ≠ .DGRAM then (s, -1)
  else if protocol ≠ 0 then (s, -1)
  else
    match alloc s.fdlist (-1) with
    | none => (s, -1)
    | some (fd, fdlist) =>
      match getind fdlist fd with
      | none => ({ s with fdlist }, -1)
      | some ind => ({ s with fdlist := update fdlist ind fun f => { f with type } }, fd)

/-- `espm_bind`; `address` is the port in host order, or `none` for an address the call refuses. -/
def espmBind (s : Sockets) (socket : Int) (address : Option UInt16) : Sockets × Int :=
  match getind s.fdlist socket, address with
  | some ind, some port =>
    if (s.fdlist.getD ind (Fd.new 0 0)).bound then (s, -1)
    else
      ({ s with fdlist := update s.fdlist ind (·.bindTo port) }, 0)
  | _, _ => (s, -1)

/-- `espm_listen`. -/
def espmListen (s : Sockets) (socket backlog : Int) : Sockets × Int :=
  match getind s.fdlist socket with
  | none => (s, -1)
  | some ind =>
    let f := s.fdlist.getD ind (Fd.new 0 0)
    if !f.bound then (s, -1)
    else if f.type ≠ .STREAM ∧ f.type ≠ .SEQPACKET then (s, -1)
    else ({ s with fdlist := update s.fdlist ind (·.listenFor backlog) }, 0)

/-! ## §2 — closing -/

/-- `"\\xff%d!\\r\\n"` in a buffer of fifteen characters. -/
def closeMsg (port : Int) : Bytes := ((0xff :: showInt port) ++ str "!\r\n").take 14

/-- The loop of `espm_close` over the whole vector, whose bound is read again in every pass. `close` is
the nested call, `owned` what `ownerind >= 0` said before the loop. -/
def closeOwners (close : Sockets → Int → Except Fault (Sockets × List Int)) (owned : Bool) :
    List Nat → Sockets → List Int → Except Fault (Sockets × List Int)
  | [], s, closed => .ok (s, closed)
  | i :: is, s, closed =>
    match s.fdlist[i]? with
    | none => .ok (s, closed)
    | some e =>
      if owned then
        match close s e.owner with
        | .error fault => .error fault
        | .ok (s, more) => closeOwners close owned is s (closed ++ more)
      else closeOwners close owned is s closed

/-- The end of `espm_close`, with the index computed at its beginning. -/
def eraseAt (s : Sockets) (room ind : Nat) (closed : List Int) (fd : Int) :
    Except Fault (Sockets × List Int) :=
  match s.fdlist[ind]? with
  | none => .error .bounds
  | some f =>
    let s := if f.connected then s.sendControl room (closeMsg f.port) else s
    .ok ({ s with fdlist := s.fdlist.eraseIdx ind, portclosed := true }, closed ++ [fd])

/-- `espm_close` with at most `depth` nested calls, while the simulation is running. Next to the
state it returns the numbers it closed: none when the call is refused. -/
def closeRec (room : Nat) : Nat → Sockets → Int → Except Fault (Sockets × List Int)
  | 0, _, _ => .error .depth
  | depth + 1, s, fd =>
    match getind s.fdlist fd with
    | none => .ok (s, [])
    | some ind =>
      if fd = s.controlfd then .ok (s, [])
      else
        let f := s.fdlist.getD ind (Fd.new 0 0)
        let ownerind := getind s.fdlist f.owner
        if f.islistening then
          match closeOwners (closeRec room depth) ownerind.isSome (List.range s.fdlist.length) s [] with
          | .error fault => .error fault
          | .ok (s, closed) => s.eraseAt room ind closed fd
        else
          match ownerind with
          | none => s.eraseAt room ind [] fd
          | some o => { s with fdlist := update s.fdlist o Fd.release }.eraseAt room ind [] fd

/-- `espm_close`; `depth` is how many nested calls the stack has room for. -/
def espmClose (s : Sockets) (room depth : Nat) (fd : Int) : Except Fault (Sockets × List Int) :=
  closeRec room (depth + 1) s fd

/-! ## §3 — accepting -/

/-- `__espm_readline` on the characters that have arrived: the line without its CR LF and what is
left, or `none` while the line is not complete. -/
def readline : Bool → Bytes → Bytes → Option (Bytes × Bytes)
  | _, _, [] => none
  | crseen, msg, c :: cs =>
    if c = chr '\n' ∧ crseen then some (msg, cs)
    else
      let msg := if crseen then msg ++ [chr '\r'] else msg
      if c = chr '\r' then readline true msg cs else readline false (msg ++ [c]) cs

/-- The count that `__espm_readline` returns for a line: nothing sets the variable it starts from. -/
def lineCount (p : BitVec 32) (msg : Bytes) : Int := (p + BitVec.ofNat 32 msg.length).toInt

/-- `"\\xff""c %d.%d.%d.%d:%d"`. -/
def fmtAccept : List Directive := .lit 0xff :: .lit (chr 'c') :: .blank :: fmtRequest

/-- The accept message; `text` is what the adapter's MAC and IP address print as. -/
def acceptMsg (port : Int) (text : Bytes) : Bytes :=
  ((0xff :: showInt port) ++ str "y " ++ text ++ [chr ':'] ++ showInt port ++ str "\r\n").take 79

/-- `espm_accept` after the line `msg` of its descriptor, which is the entry `f` at `ind`; `rest` is
what the line leaves in the buffer. -/
def acceptLine (s : Sockets) (room depth : Nat) (text : Bytes) (p : BitVec 32) (fd : Int) (ind : Nat)
    (f : Fd) (msg rest : Bytes) : Except Fault (Sockets × Int) :=
  let s := { s with fdlist := update s.fdlist ind (·.consume rest) }
  if lineCount p msg < 0 then .ok (s, -1)
  else if (scanf fmtAccept (cstr msg)).length ≠ 5 then .ok (s, -1)
  else
    match alloc s.fdlist fd with
    | none => .ok (s, -1)
    | some (afd, fdlist) =>
      match getind fdlist afd with
      | none => .ok ({ s with fdlist }, -1)
      | some aind =>
        let fdlist := update fdlist aind (·.accepted f)
        let (out, resp) := sendmsg s.lastport room (fun _ => 0) controlport
          (cstr (acceptMsg f.port text)) .ESCAPENONE true
        let s := { s with fdlist, tx := s.tx ++ out, lastport := nextLastport controlport }
        if resp = 0 then (s.espmClose room depth afd).map fun p => (p.1, -1) else .ok (s, afd)

/-- `espm_accept` with legal address arguments; `none` while it blocks. -/
def espmAccept (s : Sockets) (room depth : Nat) (text : Bytes) (p : BitVec 32) (fd : Int) :
    Option (Except Fault (Sockets × Int)) :=
  match getind s.fdlist fd with
  | none => some (.ok (s, -1))
  | some ind =>
    let f := s.fdlist.getD ind (Fd.new 0 0)
    if f.type ≠ .STREAM ∧ f.type ≠ .SEQPACKET then some (.ok (s, -1))
    else if !f.islistening then some (.ok (s, -1))
    else if f.closed ∧ f.buffer = [] then some (.ok (s, -1))
    else if f.flags &&& O_NONBLOCK = O_NONBLOCK ∧ f.buffer = [] then some (.ok (s, -1))
    else (readline false [] f.buffer).map fun (msg, rest) => s.acceptLine room depth text p fd ind f msg rest

/-! ## §4 — the threads together -/

/-- The state after a call whose fault takes the whole simulation down. -/
def settle (s : Sockets) : Except Fault (Sockets × List Int) → Sockets
  | .ok (s', _) => s'
  | .error _ => { s with pc := .crashed }

/-- **The step function.** A call that blocks leaves the state as it is. -/
def step (s : Sockets) : Event → Sockets
  | .rx room c => s.rx room c
  | .socket domain type protocol => (s.espmSocket domain type protocol).1
  | .bind socket address => (s.espmBind socket address).1
  | .listen socket backlog => (s.espmListen socket backlog).1
  | .accept room depth text p fd =>
    match s.espmAccept room depth text p fd with
    | none => s
    | some (.ok (s', _)) => s'
    | some (.error _) => { s with pc := .crashed }
  | .close room depth fd => s.settle (s.espmClose room depth fd)
  | .take fd n =>
    match getind s.fdlist fd with
    | none => s
    | some ind => { s with fdlist := update s.fdlist ind fun f => f.consume (f.buffer.drop n) }

end Sockets

end Espmod.Socket
