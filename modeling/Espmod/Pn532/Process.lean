/-
# Espmod.Pn532.Process — the frame parser of the PN532 model

`process_th` takes the bytes of the host one at a time. Most of them it reads at the top of its loop, in
the state `pn532state`; the parameters of a command it reads in the middle of the `PDN` branch, with a
`grab` for each. A `Wait` says which of these reads the thread is in, and each of the routines below runs
from one read to the next.

What the parser reads besides the bytes is in `Mif` and in the queue to the host, which the other thread
changes as well (`Espmod.Pn532.Response`). Texts that the parser prints about accepted commands are left
out, the warnings are kept.
-/
import Espmod.Lib.Text
import Mathlib.Data.UInt

namespace Espmod.Pn532

open Espmod.Lib.Text (Bytes)

/-! ## §1 — the data -/

/-- `data_block_t`. -/
structure DataBlock where
  data : Vector UInt8 16
  authenticated : Bool
deriving DecidableEq

def DataBlock.new : DataBlock := ⟨Vector.replicate 16 0, false⟩

/-- `mif`. A block that the map does not have yet is as it will be made. -/
structure Mif where
  tags : UInt8
  sensRes : UInt32
  selRes : UInt8
  uidLength : UInt8
  uidValue : UInt32
  cmd : UInt8
  mode : UInt8
  cmdbad : Bool
  lastincmd : UInt16
  bn : UInt16
  maxtg : UInt16
  brty : UInt16
  mem : Nat → DataBlock
  len : Int
  timeout : Int
  useirq : Bool
  delay : Nat
  predelay : Nat
  retries : Nat
  mxrtypassiveactivation : Nat

inductive State where
  | idle | unlock1 | unlock2 | unlock3 | unlock4 | unlock5 | pd0 | pdn | dcs | lock
deriving Repr, DecidableEq

/-- The `grab` that `process_th` is in. -/
inductive Wait where
  /-- at the top of the loop -/
  | top
  | timeout
  | useirq
  | lastincmd
  | bn
  /-- a byte to write to the block -/
  | data (p : Fin 16)
  /-- a byte of a configuration item, with so many more to come -/
  | cfg (item : UInt8) (more : Nat)
  | brty
  /-- a byte of the payload that nothing takes -/
  | flush
deriving Repr, DecidableEq

inductive Warning where
  /-- `"Warning: got an illegal preamble."`, or with the number of the byte -/
  | illegalPreamble (byte : Nat)
  /-- `"Warning: got illegal LCS."` -/
  | illegalLcs
  /-- `"Warning: got illegal TFI %02x"` -/
  | illegalTfi (tfi : UInt8)
  /-- `"Got the DCS to be %02x when expected %02x"` -/
  | dcs (got : UInt8) (expected : Nat)
  /-- `"Relock did not match!"` -/
  | relock
deriving Repr, DecidableEq

/-- What `resp_th` is doing. -/
inductive Op where
  | off | idle | ack | ackRdout | predelay | busy | readout
deriving Repr, DecidableEq

structure Pn532Base where
  mif : Mif
  pn532state : State
  wait : Wait
  cksum : UInt8
  /-- the queue to the host -/
  toFifo : Bytes
  opstate : Op
  /-- `ack_ev` is notified for later -/
  ack : Bool
  /-- what `resp_th` has yet to write of a response -/
  writing : Bytes
  /-- `newcommand_ev` is notified -/
  newcommand : Bool
  warnings : List Warning
  /-- history: the command byte and the parameters read since -/
  taken : Bytes
  /-- history: what was taken for each of the commands executed -/
  executed : List Bytes

namespace Pn532Base

/-! ## §2 — `process_th` -/

def warn (s : Pn532Base) (w : Warning) : Pn532Base := { s with warnings := s.warnings ++ [w] }

/-- The loop that flushes the rest of the payload, and the end of the `PDN` branch. -/
def flushPayload (s : Pn532Base) : Pn532Base :=
  if s.mif.len > 0 then { s with wait := .flush } else { s with wait := .top, pn532state := .dcs }

/-- The checks of a baud rate type, and what follows. -/
def checkBrty (s : Pn532Base) : Pn532Base :=
  let s :=
    if s.mif.maxtg > 2 ∨ s.mif.maxtg ≤ 0 then { s with mif := { s.mif with cmdbad := true } } else s
  let s := if s.mif.brty ≠ 0 then { s with mif := { s.mif with cmdbad := true } } else s
  s.flushPayload

/-- A baud rate type is taken if there is one. -/
def grabBrty (s : Pn532Base) : Pn532Base :=
  if s.mif.len < 1 then { s with mif := { s.mif with cmdbad := true } }.checkBrty
  else { s with wait := .brty }

/-- A block has a first byte. -/
theorem block_pos : 0 < 16 := by decide

/-- The card command has come, with its block: what is done for it. -/
def cardCommand (s : Pn532Base) : Pn532Base :=
  let block := s.mif.mem s.mif.bn.toNat
  if s.mif.lastincmd = 0x60 ∧ s.mif.len ≥ 10 then
    let mem := Function.update s.mif.mem s.mif.bn.toNat { block with authenticated := true }
    { s with mif := { s.mif with mem := mem } }.flushPayload
  else if s.mif.lastincmd = 0xA0 ∧ s.mif.len ≥ 16 ∧ block.authenticated = true then
    { s with wait := .data ⟨0, block_pos⟩ }
  else if s.mif.lastincmd = 0x30 ∧ block.authenticated = true then s.flushPayload
  else { s with mif := { s.mif with cmdbad := false } }.flushPayload

/-- How many bytes a configuration item has. -/
def cfgBytes (item : UInt8) : Nat :=
  if item = 1 then 1 else if item = 2 then 3 else if item = 4 then 1 else if item = 5 then 3 else 0

/-- What the first byte of the parameters means to the command, up to the next `grab`. -/
def command (s : Pn532Base) (msg : UInt8) : Pn532Base :=
  if s.mif.cmd = 0x14 then
    let s : Pn532Base := { s with mif := { s.mif with mode := msg } }
    if s.mif.len < 2 then { s with mif := { s.mif with cmdbad := true } }.flushPayload
    else { s with wait := .timeout }
  else if s.mif.cmd = 0x40 then
    if s.mif.len < 2 then { s with mif := { s.mif with cmdbad := true } }.flushPayload
    else { s with wait := .lastincmd }
  else if s.mif.cmd = 0x32 then
    match cfgBytes msg with
    | 0 => s.grabBrty
    | more + 1 => { s with wait := .cfg msg more }
  else if s.mif.cmd = 0x4a then
    { s with mif := { s.mif with maxtg := msg.toUInt16 } }.grabBrty
  else s.flushPayload

/-- `mif.len = mif.len - 1`, for a byte of the parameters. -/
def count (s : Pn532Base) (msg : UInt8) : Pn532Base :=
  { s with mif := { s.mif with len := s.mif.len - 1 }, taken := s.taken ++ [msg] }

/-- The `PDN` branch up to its first `grab`. -/
def pdn (s : Pn532Base) (msg : UInt8) : Pn532Base :=
  ({ s with mif := { s.mif with cmdbad := false } }.count msg).command msg

/-- A command has come to its end: its delays are set and it is notified. -/
def execute (s : Pn532Base) : Pn532Base :=
  let m := s.mif
  let m :=
    if m.cmd = 0x4a then
      { m with predelay := 5, delay := 200, retries := m.mxrtypassiveactivation }
    else if m.cmd = 0x14 then { m with predelay := 5, delay := 20 }
    else if m.cmd = 0x02 then { m with predelay := 2, delay := 20 }
    else { m with predelay := 0, delay := 1 }
  { s with mif := m, newcommand := true, executed := s.executed ++ [s.taken] }

/-- A byte at the top of the loop. -/
def top (s : Pn532Base) (msg : UInt8) : Pn532Base :=
  match s.pn532state with
  | .idle =>
    if msg = 0 then { s with pn532state := .unlock1 }
    else { s.warn (.illegalPreamble 1) with pn532state := .idle }
  | .unlock1 =>
    if msg = 0 then { s with pn532state := .unlock2 }
    else { s.warn (.illegalPreamble 2) with pn532state := .idle }
  | .unlock2 =>
    if msg = 0 then { s with pn532state := .unlock2 }
    else if msg = 0xff then { s with pn532state := .unlock3 }
    else { s.warn (.illegalPreamble 3) with pn532state := .idle }
  | .unlock3 => { s with mif := { s.mif with len := msg.toNat }, pn532state := .unlock4 }
  | .unlock4 =>
    let s : Pn532Base := { s with cksum := 0 }
    let s := if 0x100 - s.mif.len ≠ msg.toNat then s.warn .illegalLcs else s
    { s with pn532state := .unlock5 }
  | .unlock5 =>
    let s :=
      if msg ≠ 0xD4 then { s.warn (.illegalTfi msg) with pn532state := .idle } else s
    { s with mif := { s.mif with len := s.mif.len - 1 }, pn532state := .pd0 }
  | .pd0 =>
    let s : Pn532Base := { s with mif := { s.mif with cmd := msg, len := s.mif.len - 1 }, taken := [msg] }
    let s : Pn532Base := { s with pn532state := if s.mif.len = 0 then .dcs else .pdn }
    { s with cksum := s.cksum + s.toFifo.sum, toFifo := [] }
  | .pdn => s.pdn msg
  | .dcs =>
    let s :=
      if s.cksum ≠ 0 then s.warn (.dcs msg (0x100 - (s.cksum - msg).toNat)) else s
    { s with pn532state := .lock }
  | .lock =>
    let s := if msg ≠ 0 then s.warn .relock else s
    { s with pn532state := .idle }.execute

/-- A byte in the middle of the `PDN` branch goes where it belongs. -/
def take (s : Pn532Base) (msg : UInt8) : Wait → Pn532Base
  | .top => s.top msg
  | .timeout => { { s with mif := { s.mif with timeout := msg.toNat } }.count msg with wait := .useirq }
  | .useirq => ({ s with mif := { s.mif with useirq := msg ≠ 0 } }.count msg).flushPayload
  | .lastincmd =>
    { { s with mif := { s.mif with lastincmd := msg.toUInt16 } }.count msg with wait := .bn }
  | .bn => ({ s with mif := { s.mif with bn := msg.toUInt16 } }.count msg).cardCommand
  | .data p =>
    let block := s.mif.mem s.mif.bn.toNat
    let mem := Function.update s.mif.mem s.mif.bn.toNat { block with data := block.data.set p msg }
    let s : Pn532Base := { s with mif := { s.mif with mem := mem } }.count msg
    if h : p.val + 1 < 16 then { s with wait := .data ⟨p.val + 1, h⟩ } else s.flushPayload
  | .cfg item (more + 1) => { s.count msg with wait := .cfg item more }
  | .cfg item 0 =>
    let s := if item = 5 then { s with mif := { s.mif with mxrtypassiveactivation := msg.toNat } } else s
    (s.count msg).grabBrty
  | .brty => ({ s with mif := { s.mif with brty := msg.toUInt16 } }.count msg).checkBrty
  | .flush => (s.count msg).flushPayload

/-- `process_th` from one `grab` to the next. -/
def process (s : Pn532Base) (msg : UInt8) : Pn532Base :=
  { s with cksum := s.cksum + msg }.take msg s.wait

end Pn532Base

end Espmod.Pn532
