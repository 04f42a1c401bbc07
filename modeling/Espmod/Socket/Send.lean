/-
# Espmod.Socket.Send — `__espm_sendmsg`, the character stream towards the test bench

Data of all sockets shares one channel with the control messages: a `0xff` introduces a port prefix
or a control message, and a data byte `0xff` is meant to be sent twice. The static `lastport`
remembers whose data the channel carries, so a prefix is only sent when the port changes.
-/
import Espmod.Lib.Text

namespace Espmod.Socket

open Espmod.Lib.Text

/-- The `ESCAPE…` constants. -/
inductive EscStyle where
  | ESCAPENONE
  | ESCAPEALL
  | ESCAPEFROMCOLON
  deriving DecidableEq, Repr

/-- `msg[p] == 0xff` for a `const char *msg`: `char` is signed on the simulation host, so the byte is
sign-extended before it is compared with the `int` constant. -/
def isFF (c : UInt8) : Bool := c.toInt8.toInt == 0xff

/-- **No `char` equals `0xff`.** -/
theorem isFF_eq_false (c : UInt8) : isFF c = false := by
  have hlt : c.toInt8.toInt < 2 ^ 7 := Int8.toInt_lt c.toInt8
  simp only [isFF, beq_eq_false_iff_ne, ne_eq]
  omega

/-- `"\\xff%d:"`. -/
def portPrefix (port : Int) : Bytes := 0xff :: (showInt port ++ [chr ':'])

/-- The port string of a message: none when the port has not changed, none for a control message. -/
def portstr (lastport port : Int) : Bytes :=
  if port ≥ 0 ∧ lastport ≠ port then portPrefix port else []

/-- The static `lastport` after a message. -/
def nextLastport (port : Int) : Int := if port ≥ 0 then port else -1

/-- The main loop from character `p` on; `free p` is what `availableForWrite()` says there. Returns
what was written and how many characters of the message were taken. -/
def sendLoop (escstyle : EscStyle) (wait : Bool) (free : Nat → Nat) :
    Bool → Nat → Bytes → Bytes × Nat
  | _, p, [] => ([], p)
  | escape, p, c :: cs =>
    let escape := escape || (escstyle = .ESCAPEFROMCOLON && c == chr ':')
    if !wait && (free p == 0 || isFF c && free p == 1 && escape) then ([], p)
    else
      let (out, resp) := sendLoop escstyle wait free escape (p + 1) cs
      ((if escape && isFF c then [c, c] else [c]) ++ out, resp)

/-- `__espm_sendmsg`: the characters written and the return value. A call with `size < 0` passes the
text up to its NUL. `room` is the free space when the message starts. -/
def sendmsg (lastport : Int) (room : Nat) (free : Nat → Nat) (port : Int) (msg : Bytes)
    (escstyle : EscStyle) (wait : Bool) : Bytes × Nat :=
  let portstr := portstr lastport port
  let m₀ := msg.getD 0 0
  let m₁ := msg.getD 1 0
  if (room < portstr.length + 1 && !isFF m₀) || (room < portstr.length + 2 && isFF m₀ && isFF m₁) then
    ([], 0)
  else
    let (out, resp) := sendLoop escstyle wait free (escstyle = .ESCAPEALL) 0 msg
    (portstr ++ out, resp)

/-- A blocking send takes the whole message and, since no `char` equals `0xff`, writes it as it
is. -/
theorem sendLoop_wait (escstyle : EscStyle) (free : Nat → Nat) (msg : Bytes) :
    ∀ (escape : Bool) (p : Nat),
      sendLoop escstyle true free escape p msg = (msg, p + msg.length) := by
  induction msg with
  | nil => intro escape p; rfl
  | cons c cs ih =>
    intro escape p
    simp only [sendLoop, isFF_eq_false, ih]
    simp
    omega

/-- **What a blocking send writes** when there is room for its prefix and a character. -/
theorem sendmsg_wait {lastport : Int} {room : Nat} {port : Int} (free : Nat → Nat) (msg : Bytes)
    (escstyle : EscStyle) (hroom : (portstr lastport port).length + 1 ≤ room) :
    sendmsg lastport room free port msg escstyle true = (portstr lastport port ++ msg, msg.length) := by
  have hfull : ¬ room < (portstr lastport port).length + 1 := by omega
  simp [sendmsg, isFF_eq_false, sendLoop_wait, hfull]

/-- How many characters of a message find space, from character `p` on: all of them when the call
waits for it. -/
def spaceFor (wait : Bool) (free : Nat → Nat) : Nat → Bytes → Nat
  | _, [] => 0
  | p, _ :: cs => if !wait && free p == 0 then 0 else spaceFor wait free (p + 1) cs + 1

theorem sendLoop_space (escstyle : EscStyle) (wait : Bool) (free : Nat → Nat) (msg : Bytes) :
    ∀ (escape : Bool) (p : Nat), sendLoop escstyle wait free escape p msg =
      (msg.take (spaceFor wait free p msg), p + spaceFor wait free p msg) := by
  induction msg with
  | nil => exact fun escape p => rfl
  | cons c cs ih =>
    intro escape p
    rw [sendLoop, spaceFor]
    simp only [isFF_eq_false, Bool.false_and, Bool.and_false, Bool.or_false, ih]
    split
    · rfl
    · simp
      omega

/-- **What a send writes and returns**: nothing without space for its prefix and one character, else the
prefix and the characters that find space. -/
theorem sendmsg_space (lastport : Int) (room : Nat) (free : Nat → Nat) (port : Int) (msg : Bytes)
    (escstyle : EscStyle) (wait : Bool) : sendmsg lastport room free port msg escstyle wait =
      if room < (portstr lastport port).length + 1 then ([], 0)
      else
        (portstr lastport port ++ msg.take (spaceFor wait free 0 msg), spaceFor wait free 0 msg) := by
  simp [sendmsg, isFF_eq_false, sendLoop_space]

end Espmod.Socket
