/-
# Espmod.Pn532.Response — the answers of the PN532 model

`resp_th` is woken for each command that `process_th` has executed. It acknowledges the command, and when
the acknowledge has been read and the delays are over it writes the response into the queue to the host.
The queue holds sixteen bytes. A longer response keeps the thread inside `pushresp` until the host has
read enough of it, and only then is the command cleared; a command that is notified meanwhile is lost.

An event is followed by everything that needs no time: a new command is taken, the response thread writes
what has room, and `irqmanage_th` reports a queue that was read empty.
-/
import Mathlib.Data.List.Basic
import Espmod.Pn532.Process

namespace Espmod.Pn532

open Espmod.Lib.Text (Bytes)

/-! ## §1 — the frames to the host -/

/-- `pushack`. -/
def pushack : Bytes := [0x00, 0x00, 0xFF, 0x00, 0xFF, 0x00]

/-- `pushsyntaxerr`. -/
def pushsyntaxerr : Bytes := [0x00, 0x00, 0xFF, 0x01, 0xFF, 0x7F, 0x81, 0x00]

/-- `pushpreamble`, `pushandcalc` for each byte of the packet, the checksum and the last zero. -/
def pushframe (len : Nat) (cmd : UInt8) (packet : Bytes) : Bytes :=
  let cksum := 0xd5 + cmd + packet.sum
  [0x00, 0x00, 0xFF, UInt8.ofNat len, UInt8.ofNat (0x100 - len), 0xd5, cmd] ++ packet ++
    [UInt8.ofNat (0x100 - cksum.toNat), 0x00]

namespace Mif

/-- All zeros, and no blocks. -/
def zero : Mif where
  tags := 0
  sensRes := 0
  selRes := 0
  uidLength := 0
  uidValue := 0
  cmd := 0
  mode := 0
  cmdbad := false
  lastincmd := 0
  bn := 0
  maxtg := 0
  brty := 0
  mem := fun _ => .new
  len := 0
  timeout := 0
  useirq := false
  delay := 0
  predelay := 0
  retries := 0
  mxrtypassiveactivation := 0

/-- The targets of an `InListPassiveTarget` response, with their `uidValue` after the last. -/
def targets (m : Mif) : Bytes :=
  m.tags :: (List.range m.tags.toNat).flatMap (fun i =>
    [UInt8.ofNat (i + 1), (m.sensRes >>> 8).toUInt8, (m.sensRes &&& 0xff).toUInt8, m.selRes,
      m.uidLength]) ++
    [(m.uidValue >>> 24).toUInt8, ((m.uidValue &&& 0xff0000) >>> 16).toUInt8,
      ((m.uidValue &&& 0xff00) >>> 8).toUInt8, (m.uidValue &&& 0xff).toUInt8]

/-- The four bytes of an `InDataExchange` response without data. -/
def exchanged (m : Mif) (status : UInt8) : Bytes := [status, m.lastincmd.toUInt8, 0x02, 0x03]

/-- What `pushresp` writes, `none` for `RESP_RETRY`. -/
def pushresp (m : Mif) : Option Bytes :=
  if m.cmd = 0x4a ∧ m.cmdbad = false then
    if m.tags > 0 then
      some (pushframe (1 + 1 + m.tags.toNat * (1 + 2 + 1 + 1 + m.uidLength.toNat) + 1) 0x4B m.targets)
    else if m.retries = 0xff then none
    else if m.retries > 0 then none
    else some (pushframe 0x3 0x4B [0])
  else if m.cmd = 0x14 ∧ m.cmdbad = false then some (pushframe 0x2 0x15 [])
  else if m.cmd = 0x02 ∧ m.cmdbad = false then some (pushframe 0x06 0x3 [0x32, 0x01, 0x06, 0x07])
  else if m.cmd = 0x40 then
    if m.cmdbad then some (pushframe 0x06 0x41 (m.exchanged 0x55))
    else if m.lastincmd = 0x60 then some (pushframe 0x06 0x41 (m.exchanged 0x00))
    else if m.lastincmd = 0xA0 then some (pushframe 0x06 0x41 (m.exchanged 0x00))
    else if m.lastincmd = 0x30 then
      some (pushframe 21 0x41 (0x00 :: (m.mem m.bn.toNat).data.toList ++ [0x90, 0x00]))
    else some (pushframe 0x06 0x41 (m.exchanged 0x00))
  else some pushsyntaxerr

end Mif

/-- The ways through `pushresp`. -/
inductive Reply where
  /-- the targets that are there -/
  | targets
  /-- `RESP_RETRY` -/
  | again
  /-- no target -/
  | nobody
  | configured
  | firmware
  | exchanged (status : UInt8)
  /-- the data of a block -/
  | block
  | syntaxerr
deriving Repr, DecidableEq

/-- What is written on each of them. -/
def Reply.bytes (m : Mif) : Reply → Option Bytes
  | .targets =>
    some (pushframe (1 + 1 + m.tags.toNat * (1 + 2 + 1 + 1 + m.uidLength.toNat) + 1) 0x4B m.targets)
  | .again => none
  | .nobody => some (pushframe 0x3 0x4B [0])
  | .configured => some (pushframe 0x2 0x15 [])
  | .firmware => some (pushframe 0x06 0x3 [0x32, 0x01, 0x06, 0x07])
  | .exchanged status => some (pushframe 0x06 0x41 (m.exchanged status))
  | .block => some (pushframe 21 0x41 (0x00 :: (m.mem m.bn.toNat).data.toList ++ [0x90, 0x00]))
  | .syntaxerr => some pushsyntaxerr

namespace Mif

/-- The way that is taken. -/
def reply (m : Mif) : Reply :=
  if m.cmd = 0x4a ∧ m.cmdbad = false then
    if m.tags > 0 then .targets
    else if m.retries = 0xff then .again
    else if m.retries > 0 then .again
    else .nobody
  else if m.cmd = 0x14 ∧ m.cmdbad = false then .configured
  else if m.cmd = 0x02 ∧ m.cmdbad = false then .firmware
  else if m.cmd = 0x40 then
    if m.cmdbad then .exchanged 0x55
    else if m.lastincmd = 0x60 then .exchanged 0x00
    else if m.lastincmd = 0xA0 then .exchanged 0x00
    else if m.lastincmd = 0x30 then .block
    else .exchanged 0x00
  else .syntaxerr

/-- What is known of `mif` on each of them. -/
inductive Replies (m : Mif) : Reply → Prop where
  | targets (hcmd : m.cmd = 0x4a) (hok : m.cmdbad = false) (htags : m.tags > 0) : Replies m .targets
  | again (hcmd : m.cmd = 0x4a) : Replies m .again
  | nobody (hcmd : m.cmd = 0x4a) (hok : m.cmdbad = false) : Replies m .nobody
  | configured (hcmd : m.cmd = 0x14) (hok : m.cmdbad = false) : Replies m .configured
  | firmware (hcmd : m.cmd = 0x02) (hok : m.cmdbad = false) : Replies m .firmware
  | exchanged (hcmd : m.cmd = 0x40) (status : UInt8) : Replies m (.exchanged status)
  | block (hcmd : m.cmd = 0x40) (hok : m.cmdbad = false) (hread : m.lastincmd = 0x30) : Replies m .block
  | syntaxerr (hcmd : m.cmd ≠ 0x40)
      (hbad : m.cmd = 0x4a ∨ m.cmd = 0x14 ∨ m.cmd = 0x02 → m.cmdbad = true) : Replies m .syntaxerr

theorem replies (m : Mif) : m.Replies m.reply := by
  unfold reply
  split
  · rename_i hlist
    split
    · exact .targets hlist.1 hlist.2 ‹_›
    · split
      · exact .again hlist.1
      · split
        · exact .again hlist.1
        · exact .nobody hlist.1 hlist.2
  · rename_i hlist
    split
    · exact .configured (‹_ ∧ _›).1 (‹_ ∧ _›).2
    · rename_i hsam
      split
      · exact .firmware (‹_ ∧ _›).1 (‹_ ∧ _›).2
      · rename_i hfirm
        split
        · rename_i hexch
          split
          · exact .exchanged hexch _
          · rename_i hok
            split
            · exact .exchanged hexch _
            · split
              · exact .exchanged hexch _
              · split
                · exact .block hexch (Bool.eq_false_of_not_eq_true hok) ‹_›
                · exact .exchanged hexch _
        · rename_i hexch
          refine .syntaxerr hexch fun hcmd => Bool.eq_true_of_not_eq_false fun hok => ?_
          rcases hcmd with h | h | h
          · exact hlist ⟨h, hok⟩
          · exact hsam ⟨h, hok⟩
          · exact hfirm ⟨h, hok⟩

/-- **What `pushresp` writes**, by the way it takes. -/
theorem pushresp_reply (m : Mif) : m.pushresp = m.reply.bytes m := by
  unfold reply
  simp only [apply_ite (Reply.bytes m)]
  rfl

/-- What is left of the retries when `pushresp` asks for one more. -/
def retry (m : Mif) : Mif := { m with retries := if m.retries = 0xff then m.retries else m.retries - 1 }

def setcardnotpresent (m : Mif) : Mif :=
  { m with tags := 0, sensRes := 0, selRes := 0, uidLength := 0, uidValue := 0 }

def setcardpresent (m : Mif) (uid : UInt32) : Mif :=
  { m with
    tags := 1, sensRes := 0x5522, selRes := 0, uidLength := 4, uidValue := uid
    mem := fun pos => { m.mem pos with authenticated := false }
    lastincmd := 0, bn := 0 }

/-- `start_of_simulation`. What it does not set is as it happens to be, but the map is empty. -/
def start (m : Mif) : Mif :=
  { m.setcardnotpresent with mxrtypassiveactivation := 0xff, mem := fun _ => .new }

end Mif

/-! ## §2 — `resp_th` -/

namespace Pn532Base

/-- The places of the queue to the host. -/
def toSize : Nat := 16

/-- `resp_th` writes what has room; when all is written, `pushresp` clears the command and is done. -/
def pour (s : Pn532Base) : Pn532Base :=
  let room := toSize - s.toFifo.length
  let s := { s with toFifo := s.toFifo ++ s.writing.take room, writing := s.writing.drop room }
  if s.writing = [] then { s with mif := { s.mif with cmd := 0 }, opstate := .readout } else s

/-- `resp_th`, woken by `ack_ev`. -/
def respth (s : Pn532Base) : Pn532Base :=
  match s.opstate with
  | .ack => { s with toFifo := pushack, opstate := .ackRdout }
  | .ackRdout =>
    if s.mif.predelay ≠ 0 then { s with ack := true, opstate := .predelay }
    else { s with ack := true, opstate := .busy }
  | .predelay => { s with ack := true, opstate := .busy }
  | .busy =>
    match s.mif.pushresp with
    | none => { s with toFifo := [], mif := s.mif.retry, ack := true }
    | some resp => { s with toFifo := [], writing := resp }.pour
  | .readout => { s with opstate := .idle }
  | _ => s

/-- `resp_th`, woken by `newcommand_ev`, if it is not writing a response. -/
def wake (s : Pn532Base) : Pn532Base :=
  if s.newcommand = true then
    if s.writing = [] then { s with newcommand := false, ack := true, opstate := .ack }
    else { s with newcommand := false }
  else s

/-- Something was read from the queue to the host: a response that waited for room goes on; if there is
none and the queue is empty now, `irqmanage_th` wakes `resp_th`. -/
def drained (s : Pn532Base) : Pn532Base :=
  if s.writing ≠ [] then s.pour
  else if s.toFifo = [] ∧ (s.opstate = .ackRdout ∨ s.opstate = .readout) then { s with ack := false }.respth
  else s

/-! ## §3 — the module -/

/-- A byte comes from the host, or the host reads one; the time of `ack_ev` has come; or a card is
presented or taken away. -/
inductive Event where
  | byte (msg : UInt8)
  | read
  | expire
  | present (uid : UInt32)
  | remove
deriving Repr, DecidableEq

def receive (s : Pn532Base) (msg : UInt8) : Pn532Base :=
  let t := (s.process msg).wake
  if s.toFifo ≠ [] ∧ t.toFifo = [] then t.drained else t

def step (s : Pn532Base) : Event → Pn532Base
  | .byte msg => s.receive msg
  | .read => if s.toFifo = [] then s else { s with toFifo := s.toFifo.tail }.drained
  | .expire =>
    if s.ack = true then
      let s := { s with ack := false }
      if s.writing = [] then s.respth else s
    else s
  | .present uid => { s with mif := s.mif.setcardpresent uid }
  | .remove => { s with mif := s.mif.setcardnotpresent }

/-- At the start of simulation. The state of the parser is not set; this is the first of its values. -/
def start (m : Mif) : Pn532Base where
  mif := m.start
  pn532state := .idle
  wait := .top
  cksum := 0
  toFifo := []
  opstate := .off
  ack := false
  writing := []
  newcommand := false
  warnings := []
  taken := []
  executed := []

def run (s : Pn532Base) (es : List Event) : Pn532Base := es.foldl step s

end Pn532Base

end Espmod.Pn532
