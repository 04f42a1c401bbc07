/-
# Espmod.Pn532.Writer — the responses of the PN532 model, byte by byte

`Espmod.Pn532.Response` fixes a response when it starts. In the source `pushresp` reads `mif` for every
byte it pushes: a thread that waits for room holds the byte it is about to write, and what follows is
read when it goes on, from a `mif` that the parser and the card may have changed meanwhile. Here the
rest of a response is what is left of the program, and `Writer` is the thread inside of `to.write`.

The two agree as long as nothing changes what the rest of a response is read from (`view_run`).
-/
import Espmod.Lib.Run
import Espmod.Pn532.Answers

namespace Espmod.Pn532

open Espmod.Lib (Throughout)
open Espmod.Lib.Text (Bytes)

/-! ## §1 — `pushresp` as a program -/

/-- Where a byte of a response is read from. -/
inductive Source where
  | const (b : UInt8)
  | tags
  /-- `mif.sens_res>>8` -/
  | sensHigh
  /-- `mif.sens_res&0xff` -/
  | sensLow
  | selRes
  | uidLength
  /-- `mif.uidValue>>24`, and so on down to the lowest byte -/
  | uid24
  | uid16
  | uid8
  | uid0
  | lastincmd

def Source.read (m : Mif) : Source → UInt8
  | .const b => b
  | .tags => m.tags
  | .sensHigh => (m.sensRes >>> 8).toUInt8
  | .sensLow => (m.sensRes &&& 0xff).toUInt8
  | .selRes => m.selRes
  | .uidLength => m.uidLength
  | .uid24 => (m.uidValue >>> 24).toUInt8
  | .uid16 => ((m.uidValue &&& 0xff0000) >>> 16).toUInt8
  | .uid8 => ((m.uidValue &&& 0xff00) >>> 8).toUInt8
  | .uid0 => (m.uidValue &&& 0xff).toUInt8
  | .lastincmd => m.lastincmd.toUInt8

/-- A statement of `pushresp` that pushes. -/
inductive Put where
  /-- `to.write` of a constant -/
  | write (b : UInt8)
  /-- `pushandcalc` -/
  | pushandcalc (src : Source)
  /-- `pushandcalc(mif.mem[mif.bn].data[p])` -/
  | data (p : Fin 16)
  /-- the loop over the targets, from this one on -/
  | targets (i : Nat)
  /-- `to.write(0x100 - cksum)` -/
  | dcs

/-- `resp_th` inside of `to.write`. -/
structure Writer where
  /-- the byte it writes, which has been read -/
  byte : UInt8
  cksum : UInt8
  rest : List Put
  /-- history: the block that the byte is from -/
  block : Option Nat

namespace Mif

/-- `pushpreamble` of a response. -/
def pushpreamble (len : Nat) (cmd : UInt8) : List Put :=
  [.write 0x00, .write 0x00, .write 0xFF, .write (UInt8.ofNat len), .write (UInt8.ofNat (0x100 - len)),
    .pushandcalc (.const 0xd5), .pushandcalc (.const cmd)]

/-- The last two bytes of a frame. -/
def closing : List Put := [.dcs, .write 0x00]

/-- An `InDataExchange` response without data. -/
def exchange (status : UInt8) : List Put :=
  pushpreamble 0x06 0x41 ++
    [Put.pushandcalc (.const status), .pushandcalc .lastincmd, .pushandcalc (.const 0x02),
      .pushandcalc (.const 0x03)]

/-- The packet of a response with the data of a block. -/
def readBlock : List Put :=
  .pushandcalc (.const 0x00) :: (List.finRange 16).map .data ++
    [Put.pushandcalc (.const 0x90), .pushandcalc (.const 0x00)]

/-- What `pushresp` pushes, `none` for `RESP_RETRY`. -/
def program (m : Mif) : Option (List Put) :=
  if m.cmd = 0x4a ∧ m.cmdbad = false then
    if m.tags > 0 then
      some (pushpreamble (1 + 1 + m.tags.toNat * (1 + 2 + 1 + 1 + m.uidLength.toNat) + 1) 0x4B ++
        [Put.pushandcalc .tags, .targets 1, .pushandcalc .uid24, .pushandcalc .uid16, .pushandcalc .uid8,
          .pushandcalc .uid0] ++ closing)
    else if m.retries = 0xff then none
    else if m.retries > 0 then none
    else some (pushpreamble 0x3 0x4B ++ [Put.pushandcalc (.const 0)] ++ closing)
  else if m.cmd = 0x14 ∧ m.cmdbad = false then some (pushpreamble 0x2 0x15 ++ closing)
  else if m.cmd = 0x02 ∧ m.cmdbad = false then
    some (pushpreamble 0x06 0x3 ++
      [Put.pushandcalc (.const 0x32), .pushandcalc (.const 0x01), .pushandcalc (.const 0x06),
        .pushandcalc (.const 0x07)] ++ closing)
  else if m.cmd = 0x40 then
    if m.cmdbad then some (exchange 0x55 ++ closing)
    else if m.lastincmd = 0x60 then some (exchange 0x00 ++ closing)
    else if m.lastincmd = 0xA0 then some (exchange 0x00 ++ closing)
    else if m.lastincmd = 0x30 then
      some (pushpreamble 21 0x41 ++ readBlock ++ closing)
    else some (exchange 0x00 ++ closing)
  else some (pushsyntaxerr.map .write)

/-- The next byte of a program is read, up to the `to.write` that pushes it. -/
def next (m : Mif) (cksum : UInt8) : List Put → Option Writer
  | [] => none
  | .write b :: ps => some ⟨b, cksum, ps, none⟩
  | .pushandcalc src :: ps => some ⟨src.read m, cksum + src.read m, ps, none⟩
  | .data p :: ps =>
    let b := (m.mem m.bn.toNat).data.get p
    some ⟨b, cksum + b, ps, some m.bn.toNat⟩
  | .targets i :: ps =>
    if i ≤ m.tags.toNat then
      some ⟨UInt8.ofNat i, cksum + UInt8.ofNat i,
        .pushandcalc .sensHigh :: .pushandcalc .sensLow :: .pushandcalc .selRes ::
          .pushandcalc .uidLength :: .targets (i + 1) :: ps, none⟩
    else m.next cksum ps
  | .dcs :: ps => some ⟨UInt8.ofNat (0x100 - cksum.toNat), cksum, ps, none⟩

end Mif

/-- The next byte is the last of a frame. -/
def Pn532Base.AtLock (s : Pn532Base) : Prop := s.wait = .top ∧ s.pn532state = .lock

instance (s : Pn532Base) : Decidable s.AtLock := inferInstanceAs (Decidable (_ ∧ _))

/-! ## §2 — `resp_th` -/

/-- The module, with its response thread in the middle of a response. The field `writing` of `base` is
not used. -/
structure Chip where
  base : Pn532Base
  writer : Option Writer
  /-- history: what was pushed since the last command was executed -/
  since : Bytes
  /-- history: the blocks that data of responses was read from -/
  carried : List Nat
  /-- history: how many commands were executed before a card was presented last -/
  before : Nat

namespace Chip

open Pn532Base (toSize)

/-- `to.write` where there is room. -/
def push (c : Chip) (bs : Bytes) : Chip :=
  { c with base := { c.base with toFifo := c.base.toFifo ++ bs }, since := c.since ++ bs }

/-- On to the next `to.write`, or to the end of `pushresp`. -/
def advance (c : Chip) (cksum : UInt8) (ps : List Put) : Chip :=
  match c.base.mif.next cksum ps with
  | none =>
    { c with
      base := { c.base with mif := { c.base.mif with cmd := 0 }, opstate := .readout }
      writer := none }
  | some w => { c with writer := some w, carried := c.carried ++ w.block.toList }

/-- `resp_th` writes into so many free places. -/
def pourN : Nat → Chip → Chip
  | 0, c => c
  | room + 1, c =>
    match c.writer with
    | none => c
    | some w => pourN room ((c.push [w.byte]).advance w.cksum w.rest)

def pour (c : Chip) : Chip := c.pourN (toSize - c.base.toFifo.length)

/-- `resp_th`, woken by `ack_ev`. -/
def respth (c : Chip) : Chip :=
  match c.base.opstate with
  | .ack => { c with base := c.base.respth, since := c.since ++ pushack }
  | .busy =>
    match c.base.mif.program with
    | none => { c with base := { c.base with toFifo := [], mif := c.base.mif.retry, ack := true } }
    | some ps => ({ c with base := { c.base with toFifo := [] } }.advance 0 ps).pour
  | _ => { c with base := c.base.respth }

/-- `resp_th`, woken by `newcommand_ev`, if it is not writing a response. -/
def wake (c : Chip) : Chip :=
  if c.base.newcommand = true then
    if c.writer.isNone then
      { c with base := { c.base with newcommand := false, ack := true, opstate := .ack } }
    else { c with base := { c.base with newcommand := false } }
  else c

/-- Something was read from the queue to the host. -/
def drained (c : Chip) : Chip :=
  if c.writer.isSome then c.pour
  else if c.base.toFifo = [] ∧ (c.base.opstate = .ackRdout ∨ c.base.opstate = .readout) then
    { c with base := { c.base with ack := false } }.respth
  else c

/-! ## §3 — the module -/

/-- `process_th` takes a byte. -/
def parse (c : Chip) (msg : UInt8) : Chip :=
  { c with base := c.base.process msg, since := if c.base.AtLock then [] else c.since }

def receive (c : Chip) (msg : UInt8) : Chip :=
  let d := (c.parse msg).wake
  if c.base.toFifo ≠ [] ∧ d.base.toFifo = [] then d.drained else d

open Pn532Base in
def step (c : Chip) : Event → Chip
  | .byte msg => c.receive msg
  | .read =>
    if c.base.toFifo = [] then c
    else { c with base := { c.base with toFifo := c.base.toFifo.tail } }.drained
  | .expire =>
    if c.base.ack = true then
      let c := { c with base := { c.base with ack := false } }
      if c.writer.isNone then c.respth else c
    else c
  | .present uid =>
    { c with
      base := { c.base with mif := c.base.mif.setcardpresent uid }
      before := c.base.executed.length }
  | .remove => { c with base := { c.base with mif := c.base.mif.setcardnotpresent } }

/-- At the start of simulation. -/
def start (m : Mif) : Chip := ⟨Pn532Base.start m, none, [], [], 0⟩

end Chip

/-! ## §4 — the bytes of a program -/

/-- The statement adds what it pushes to the checksum. -/
def Put.Summed : Put → Prop
  | .write _ => False
  | .pushandcalc _ => True
  | .data _ => True
  | .targets _ => True
  | .dcs => False

namespace Mif

variable (m : Mif)

/-- What the loop over the targets pushes. -/
def targetBytes (i : Nat) : Bytes :=
  (List.range' i (m.tags.toNat + 1 - i)).flatMap fun i =>
    [UInt8.ofNat i, (m.sensRes >>> 8).toUInt8, (m.sensRes &&& 0xff).toUInt8, m.selRes, m.uidLength]

/-- What a statement adds to the checksum. -/
def summed : Put → Bytes
  | .write _ => []
  | .pushandcalc src => [src.read m]
  | .data p => [(m.mem m.bn.toNat).data.get p]
  | .targets i => m.targetBytes i
  | .dcs => []

/-- What a program pushes when nothing changes meanwhile. -/
def flat (m : Mif) (cksum : UInt8) : List Put → Bytes
  | [] => []
  | .write b :: ps => b :: m.flat cksum ps
  | .pushandcalc src :: ps => src.read m :: m.flat (cksum + src.read m) ps
  | .data p :: ps =>
    (m.mem m.bn.toNat).data.get p :: m.flat (cksum + (m.mem m.bn.toNat).data.get p) ps
  | .targets i :: ps => m.targetBytes i ++ m.flat (cksum + (m.targetBytes i).sum) ps
  | .dcs :: ps => UInt8.ofNat (0x100 - cksum.toNat) :: m.flat cksum ps

variable {m} {cksum : UInt8} {ps qs : List Put}

theorem targetBytes_of_lt {i : Nat} (h : ¬ i ≤ m.tags.toNat) : m.targetBytes i = [] := by
  have hzero : m.tags.toNat + 1 - i = 0 := by omega
  unfold targetBytes
  rw [hzero]
  rfl

theorem targetBytes_of_le {i : Nat} (h : i ≤ m.tags.toNat) :
    m.targetBytes i = [UInt8.ofNat i, (m.sensRes >>> 8).toUInt8, (m.sensRes &&& 0xff).toUInt8,
      m.selRes, m.uidLength] ++ m.targetBytes (i + 1) := by
  have hsucc : m.tags.toNat + 1 - i = m.tags.toNat + 1 - (i + 1) + 1 := by omega
  unfold targetBytes
  rw [hsucc, List.range'_succ, List.flatMap_cons]

/-- **Byte by byte**, a program pushes what it pushes as a whole. -/
theorem flat_next : ∀ {cksum : UInt8}, m.flat cksum ps =
    (m.next cksum ps).elim [] fun w => w.byte :: m.flat w.cksum w.rest := by
  induction ps with
  | nil => exact fun {_} => rfl
  | cons p ps ih =>
    intro cksum
    cases p with
    | targets i =>
      rw [flat, next]
      by_cases hi : i ≤ m.tags.toNat
      · rw [if_pos hi, targetBytes_of_le hi]
        simp only [Option.elim_some, flat, Source.read, List.cons_append, List.nil_append,
          List.sum_cons, UInt8.add_assoc]
      · rw [if_neg hi, targetBytes_of_lt hi, List.nil_append, List.sum_nil, UInt8.add_zero]
        exact ih
    | _ => rfl

/-- What is left of a frame to be received does not show in a response. -/
theorem flat_len (n : Int) : ∀ {cksum : UInt8},
    ({ m with len := n } : Mif).flat cksum ps = m.flat cksum ps := by
  induction ps with
  | nil => exact fun {_} => rfl
  | cons p ps ih =>
    intro cksum
    cases p with
    | write b => exact congrArg (b :: ·) ih
    | pushandcalc src =>
      have hread : src.read { m with len := n } = src.read m := by cases src <;> rfl
      rw [flat, flat, hread, ih]
    | data p => exact congrArg ((m.mem m.bn.toNat).data.get p :: ·) ih
    | targets i => exact congrArg (m.targetBytes i ++ ·) ih
    | dcs => exact congrArg (_ :: ·) ih

/-- Statements that are summed push what they add. -/
theorem flat_summed (qs : List Put) : ∀ {cksum : UInt8}, (∀ p ∈ ps, p.Summed) →
    m.flat cksum (ps ++ qs) =
      ps.flatMap m.summed ++ m.flat (cksum + (ps.flatMap m.summed).sum) qs := by
  induction ps with
  | nil =>
    intro cksum _
    simp
  | cons p ps ih =>
    intro cksum h
    have hrest : ∀ q ∈ ps, q.Summed := fun q hq => h q (List.mem_cons_of_mem _ hq)
    have hp := h p (List.mem_cons_self ..)
    cases p with
    | write b => exact hp.elim
    | dcs => exact hp.elim
    | _ =>
      simp only [List.cons_append, flat, summed, List.flatMap_cons, List.nil_append, List.sum_cons,
        List.sum_append, List.append_assoc, ih hrest, UInt8.add_assoc]

/-- **A frame.** -/
theorem flat_frame (len : Nat) (cmd : UInt8) (h : ∀ p ∈ ps, p.Summed) :
    m.flat 0 (pushpreamble len cmd ++ ps ++ closing) = pushframe len cmd (ps.flatMap m.summed) := by
  have hbody : m.flat (0 + 0xd5 + cmd) (ps ++ closing) = _ := flat_summed closing h
  rw [List.append_assoc]
  unfold pushpreamble
  simp only [List.cons_append, List.nil_append, flat, Source.read]
  rw [hbody, UInt8.zero_add]
  simp only [closing, flat, pushframe, List.cons_append, List.nil_append]

theorem flat_write (bs : Bytes) : m.flat cksum (bs.map .write) = bs := by
  induction bs with
  | nil => rfl
  | cons b bs ih => exact congrArg (b :: ·) ih

theorem flat_exchange (status : UInt8) :
    m.flat 0 (exchange status ++ closing) = pushframe 0x06 0x41 (m.exchanged status) :=
  flat_frame 0x06 0x41 (by simp [Put.Summed])

theorem summed_readBlock : ∀ p ∈ readBlock, p.Summed := by
  intro p hp
  simp only [readBlock, List.mem_append, List.mem_cons, List.mem_map, List.not_mem_nil,
    or_false] at hp
  rcases hp with (rfl | ⟨p, _, rfl⟩) | rfl | rfl <;> trivial

theorem flatMap_readBlock :
    readBlock.flatMap m.summed = 0x00 :: (m.mem m.bn.toNat).data.toList ++ [0x90, 0x00] := by
  have hvector : (Vector.ofFn fun p => (m.mem m.bn.toNat).data.get p) = (m.mem m.bn.toNat).data := by
    ext p hp
    rw [Vector.getElem_ofFn]
    rfl
  have hdata : ((List.finRange 16).map Put.data).flatMap m.summed =
      (m.mem m.bn.toNat).data.toList := by
    rw [List.flatMap_map]
    show (List.finRange 16).flatMap (fun p => [(m.mem m.bn.toNat).data.get p]) = _
    rw [← List.map_eq_flatMap, ← List.ofFn_eq_map, ← Vector.toList_ofFn, hvector]
  unfold readBlock
  rw [List.cons_append, List.flatMap_cons, List.flatMap_append, hdata]
  rfl

end Mif

/-- The program of each way through `pushresp`. -/
def Reply.program (m : Mif) : Reply → Option (List Put)
  | .targets =>
    some (Mif.pushpreamble (1 + 1 + m.tags.toNat * (1 + 2 + 1 + 1 + m.uidLength.toNat) + 1) 0x4B ++
      [Put.pushandcalc .tags, .targets 1, .pushandcalc .uid24, .pushandcalc .uid16, .pushandcalc .uid8,
        .pushandcalc .uid0] ++ Mif.closing)
  | .again => none
  | .nobody => some (Mif.pushpreamble 0x3 0x4B ++ [Put.pushandcalc (.const 0)] ++ Mif.closing)
  | .configured => some (Mif.pushpreamble 0x2 0x15 ++ Mif.closing)
  | .firmware =>
    some (Mif.pushpreamble 0x06 0x3 ++
      [Put.pushandcalc (.const 0x32), .pushandcalc (.const 0x01), .pushandcalc (.const 0x06),
        .pushandcalc (.const 0x07)] ++ Mif.closing)
  | .exchanged status => some (Mif.exchange status ++ Mif.closing)
  | .block => some (Mif.pushpreamble 21 0x41 ++ Mif.readBlock ++ Mif.closing)
  | .syntaxerr => some (pushsyntaxerr.map .write)

namespace Mif

variable {m : Mif} {cksum : UInt8} {ps qs : List Put}

theorem program_reply (m : Mif) : m.program = m.reply.program m := by
  unfold reply
  simp only [apply_ite (Reply.program m)]
  rfl

/-- The list of the targets. -/
theorem flat_targets (m : Mif) : m.flat 0 (pushpreamble
      (1 + 1 + m.tags.toNat * (1 + 2 + 1 + 1 + m.uidLength.toNat) + 1) 0x4B ++
        [Put.pushandcalc .tags, .targets 1, .pushandcalc .uid24, .pushandcalc .uid16, .pushandcalc .uid8,
          .pushandcalc .uid0] ++ closing) =
    pushframe (1 + 1 + m.tags.toNat * (1 + 2 + 1 + 1 + m.uidLength.toNat) + 1) 0x4B m.targets := by
  have hrange : List.range' 1 m.tags.toNat = (List.range m.tags.toNat).map (· + 1) :=
    List.range'_eq_map_range.trans (List.map_congr_left fun i _ => Nat.add_comm 1 i)
  refine (flat_frame _ 0x4B ?_).trans ?_
  · simp [Put.Summed]
  · simp [summed, Source.read, targetBytes, targets, hrange, List.flatMap_map]

/-- **The program of a response pushes the response.** -/
theorem program_flat (m : Mif) : m.program.map (m.flat 0) = m.pushresp := by
  rw [program_reply, pushresp_reply]
  cases m.reply with
  | targets => exact congrArg some (flat_targets m)
  | again => rfl
  | nobody => exact congrArg some (flat_frame 0x3 0x4B (by simp [Put.Summed]))
  | configured => exact congrArg some (flat_frame 0x2 0x15 (List.forall_mem_nil Put.Summed))
  | firmware => exact congrArg some (flat_frame 0x06 0x3 (by simp [Put.Summed]))
  | exchanged status => exact congrArg some (flat_exchange status)
  | block =>
    exact congrArg some ((flat_frame 21 0x41 summed_readBlock).trans
      (congrArg (pushframe 21 0x41) flatMap_readBlock))
  | syntaxerr => exact congrArg some (flat_write pushsyntaxerr)

end Mif

/-! ## §5 — the two models of the response thread -/

namespace Chip

open Pn532Base (toSize)

variable {c : Chip} {w : Writer} {cksum : UInt8} {ps : List Put}

/-- What is left of a response, as `mif` is now. -/
def flat (c : Chip) : Bytes := c.writer.elim [] fun w => w.byte :: c.base.mif.flat w.cksum w.rest

/-- The module with the rest of a response fixed. -/
def view (c : Chip) : Pn532Base := { c.base with writing := c.flat }

theorem flat_none (h : c.writer = none) : c.flat = [] := by
  unfold flat
  rw [h]
  rfl

theorem flat_some (h : c.writer = some w) : c.flat = w.byte :: c.base.mif.flat w.cksum w.rest := by
  unfold flat
  rw [h]
  rfl

/-- On to the next byte. -/
theorem advance_some (h : c.base.mif.next cksum ps = some w) :
    c.advance cksum ps = { c with writer := some w, carried := c.carried ++ w.block.toList } := by
  unfold advance
  rw [h]

/-- The end of `pushresp`. -/
theorem advance_none (h : c.base.mif.next cksum ps = none) : c.advance cksum ps =
    { c with
      base := { c.base with mif := { c.base.mif with cmd := 0 }, opstate := .readout }
      writer := none } := by
  unfold advance
  rw [h]

/-- Nothing waits for room. -/
theorem pourN_none (h : c.writer = none) (room : Nat) : c.pourN room = c := by
  cases room with
  | zero => rfl
  | succ room => rw [pourN, h]

theorem pourN_some (h : c.writer = some w) (room : Nat) :
    c.pourN (room + 1) = pourN room ((c.push [w.byte]).advance w.cksum w.rest) := by
  rw [pourN, h]

theorem flat_advance (c : Chip) (cksum : UInt8) (ps : List Put) :
    (c.advance cksum ps).flat = c.base.mif.flat cksum ps := by
  rw [Mif.flat_next]
  cases h : c.base.mif.next cksum ps with
  | none =>
    rw [advance_none h]
    rfl
  | some w =>
    rw [advance_some h]
    rfl

/-- What is pushed and what is left then are together what was left before. -/
theorem since_pourN : ∀ (room : Nat) (c : Chip), ∃ bs,
    (c.pourN room).since = c.since ++ bs ∧ bs ++ (c.pourN room).flat = c.flat := by
  intro room
  induction room with
  | zero => exact fun c => ⟨[], (List.append_nil _).symm, rfl⟩
  | succ room ih =>
    intro c
    cases h : c.writer with
    | none =>
      rw [pourN_none h]
      exact ⟨[], (List.append_nil _).symm, rfl⟩
    | some w =>
      have hsince : ((c.push [w.byte]).advance w.cksum w.rest).since = c.since ++ [w.byte] := by
        unfold advance
        split <;> rfl
      obtain ⟨bs, hpushed, hrest⟩ := ih ((c.push [w.byte]).advance w.cksum w.rest)
      rw [pourN_some h]
      refine ⟨w.byte :: bs, ?_, ?_⟩
      · rw [hpushed, hsince, List.append_assoc, List.singleton_append]
      · rw [List.cons_append, hrest, flat_advance, flat_some h]
        rfl

/-- What the response thread changes from one `to.write` to another, or to the end of `pushresp`. -/
inductive Poured (c d : Chip) : Prop where
  | waits {w : Writer} (hwriter : d.writer = some w)
      (hbase : d.base = { c.base with toFifo := d.base.toFifo })
  | done (hwriter : d.writer = none)
      (hbase : d.base = { c.base with
        toFifo := d.base.toFifo, mif := { c.base.mif with cmd := 0 }, opstate := .readout })

theorem poured_advance (c : Chip) (cksum : UInt8) (ps : List Put) : Poured c (c.advance cksum ps) := by
  cases h : c.base.mif.next cksum ps with
  | none =>
    rw [advance_none h]
    exact .done rfl rfl
  | some w =>
    rw [advance_some h]
    exact .waits rfl rfl

theorem Poured.trans {d e : Chip} (h : Poured c d) (hwriter : d.writer = some w) (h' : Poured d e) :
    Poured c e := by
  cases h with
  | done hnone _ => exact absurd (hnone.symm.trans hwriter) (by simp)
  | waits _ hbase =>
    cases h' with
    | waits hwriter' hbase' =>
      refine .waits hwriter' ?_
      rw [hbase', hbase]
    | done hwriter' hbase' =>
      refine .done hwriter' ?_
      rw [hbase', hbase]

theorem poured_pourN : ∀ (room : Nat) {c : Chip} {w : Writer}, c.writer = some w →
    Poured c (c.pourN room) := by
  intro room
  induction room with
  | zero => exact fun h => .waits h rfl
  | succ room ih =>
    intro c w h
    have hpushed : Poured c (c.push [w.byte]) := .waits h rfl
    have hone := hpushed.trans h (poured_advance (c.push [w.byte]) w.cksum w.rest)
    rw [pourN_some h]
    cases hwriter : ((c.push [w.byte]).advance w.cksum w.rest).writer with
    | none =>
      rw [pourN_none hwriter]
      exact hone
    | some w' => exact hone.trans hwriter (ih hwriter)

theorem poured_pour (h : c.writer = some w) : Poured c c.pour := poured_pourN _ h

/-- A response begins. -/
theorem poured_begin (c : Chip) (cksum : UInt8) (ps : List Put) :
    Poured c (c.advance cksum ps).pour := by
  have hfirst := poured_advance c cksum ps
  cases h : (c.advance cksum ps).writer with
  | none =>
    unfold pour
    rw [pourN_none h]
    exact hfirst
  | some w => exact hfirst.trans h (poured_pour h)

/-- What has been pushed of a response that has begun, and what is left of it. -/
theorem since_begin (c : Chip) (cksum : UInt8) (ps : List Put) : ∃ bs,
    (c.advance cksum ps).pour.since = c.since ++ bs ∧
      bs ++ (c.advance cksum ps).pour.flat = c.base.mif.flat cksum ps := by
  have hsince : (c.advance cksum ps).since = c.since := by
    unfold advance
    split <;> rfl
  have hrest := since_pourN (toSize - (c.advance cksum ps).base.toFifo.length) (c.advance cksum ps)
  rwa [hsince, flat_advance] at hrest

/-- `pour` of the other model with so much room. -/
def pouredInto (s : Pn532Base) (room : Nat) : Pn532Base :=
  let s := { s with toFifo := s.toFifo ++ s.writing.take room, writing := s.writing.drop room }
  if s.writing = [] then { s with mif := { s.mif with cmd := 0 }, opstate := .readout } else s

/-- **Byte by byte or at once**, as much is written as there is room. -/
theorem view_pourN : ∀ (room : Nat) {c : Chip} {w : Writer}, c.writer = some w →
    (c.pourN room).view = pouredInto c.view room := by
  intro room
  induction room with
  | zero =>
    intro c w h
    have hsome : c.flat ≠ [] := by
      rw [flat_some h]
      exact List.cons_ne_nil _ _
    have hempty : c.view = { c.view with toFifo := c.base.toFifo ++ [] } := by
      rw [List.append_nil]
      rfl
    show c.view = if c.flat = [] then _ else _
    rw [if_neg hsome]
    exact hempty
  | succ room ih =>
    intro c w h
    rw [pourN_some h]
    cases hnext : (c.push [w.byte]).base.mif.next w.cksum w.rest with
    | none =>
      have hflat : c.flat = [w.byte] := by
        have hrest : c.base.mif.flat w.cksum w.rest = [] := by
          rw [Mif.flat_next, show c.base.mif.next w.cksum w.rest = none from hnext]
          rfl
        rw [flat_some h, hrest]
      rw [advance_none hnext, pourN_none rfl]
      unfold pouredInto view
      rw [hflat, List.take_succ_cons, List.take_nil, List.drop_succ_cons, List.drop_nil]
      rfl
    | some w' =>
      have hflat : c.flat = w.byte :: ((c.push [w.byte]).advance w.cksum w.rest).flat := by
        rw [flat_advance, flat_some h]
        rfl
      have hview : ((c.push [w.byte]).advance w.cksum w.rest).view =
          { c.view with
            toFifo := c.base.toFifo ++ [w.byte]
            writing := ((c.push [w.byte]).advance w.cksum w.rest).flat } := by
        rw [advance_some hnext]
        rfl
      have hwriter : ((c.push [w.byte]).advance w.cksum w.rest).writer = some w' := by
        rw [advance_some hnext]
      rw [ih hwriter, hview]
      unfold pouredInto view
      dsimp only
      rw [hflat, List.take_succ_cons, List.drop_succ_cons, List.append_assoc, List.singleton_append]

theorem view_pour (h : c.writer = some w) : c.pour.view = c.view.pour := view_pourN _ h

theorem pour_none (h : c.writer = none) : c.pour = c := pourN_none h _

/-- The other model, with nothing left to write. -/
theorem pour_nothing {s : Pn532Base} (h : s.writing = []) :
    s.pour = { s with mif := { s.mif with cmd := 0 }, opstate := .readout } := by
  simp [Pn532Base.pour, h]

/-- A response begins. -/
theorem view_begin (c : Chip) (cksum : UInt8) (ps : List Put) :
    (c.advance cksum ps).pour.view = { c.base with writing := c.base.mif.flat cksum ps }.pour := by
  have hflat := flat_advance c cksum ps
  cases hnext : c.base.mif.next cksum ps with
  | none =>
    rw [advance_none hnext] at hflat ⊢
    have hnil : c.base.mif.flat cksum ps = [] := hflat.symm
    rw [pour_none rfl, hnil, pour_nothing rfl]
    rfl
  | some w =>
    rw [advance_some hnext] at hflat ⊢
    rw [view_pour rfl, view, hflat]

theorem view_none (h : c.writer = none) : c.view = { c.base with writing := [] } := by
  unfold view
  rw [flat_none h]

/-- Where no response begins, the thread does not look at what is left of one. -/
theorem respth_writing {s : Pn532Base} (h : s.opstate ≠ .busy) (bs : Bytes) :
    ({ s with writing := bs } : Pn532Base).respth = { s.respth with writing := bs } := by
  unfold Pn532Base.respth
  dsimp only
  cases hop : s.opstate with
  | busy => exact absurd hop h
  | ackRdout =>
    dsimp only
    split <;> rfl
  | off => simp only [hop]
  | idle => simp only [hop]
  | _ => rfl

theorem respth_ack (h : c.base.opstate = .ack) :
    c.respth = { c with base := c.base.respth, since := c.since ++ pushack } := by
  unfold respth
  rw [h]

theorem respth_retry (h : c.base.opstate = .busy) (hprogram : c.base.mif.program = none) :
    c.respth = { c with
      base := { c.base with toFifo := [], mif := c.base.mif.retry, ack := true } } := by
  unfold respth
  rw [h]
  dsimp only
  rw [hprogram]

theorem respth_begin (h : c.base.opstate = .busy) (hprogram : c.base.mif.program = some ps) :
    c.respth = ({ c with base := { c.base with toFifo := [] } }.advance 0 ps).pour := by
  unfold respth
  rw [h]
  dsimp only
  rw [hprogram]

theorem respth_other (hack : c.base.opstate ≠ .ack) (hbusy : c.base.opstate ≠ .busy) :
    c.respth = { c with base := c.base.respth } := by
  unfold respth
  cases hop : c.base.opstate with
  | ack => exact absurd hop hack
  | busy => exact absurd hop hbusy
  | _ => rfl

/-- **The response thread, woken by its timer**, does the same in both models. -/
theorem view_respth (h : c.writer = none) : c.respth.view = c.view.respth := by
  rw [view_none h]
  by_cases hbusy : c.base.opstate = .busy
  · have hresp := Mif.program_flat c.base.mif
    have hother : ({ c.base with writing := [] } : Pn532Base).respth =
        (c.base.mif.pushresp).elim
          { c.base with toFifo := [], mif := c.base.mif.retry, ack := true, writing := [] }
          fun resp => { c.base with toFifo := [], writing := resp }.pour := by
      unfold Pn532Base.respth
      dsimp only
      rw [hbusy]
      cases c.base.mif.pushresp <;> rfl
    rw [hother, ← hresp]
    cases hprogram : c.base.mif.program with
    | none =>
      rw [respth_retry hbusy hprogram]
      exact view_none h
    | some ps =>
      rw [respth_begin hbusy hprogram]
      exact view_begin { c with base := { c.base with toFifo := [] } } 0 ps
  · rw [respth_writing hbusy]
    by_cases hack : c.base.opstate = .ack
    · rw [respth_ack hack]
      exact view_none h
    · rw [respth_other hack hbusy]
      exact view_none h

/-- **Something was read**: a response that waits goes on alike. -/
theorem view_drained (c : Chip) : c.drained.view = c.view.drained := by
  cases h : c.writer with
  | none =>
    have hnil : c.view.writing = [] := flat_none h
    have hidle : c.drained =
        if c.base.toFifo = [] ∧ (c.base.opstate = .ackRdout ∨ c.base.opstate = .readout) then
          { c with base := { c.base with ack := false } }.respth
        else c := by
      unfold drained
      rw [h]
      rfl
    rw [hidle, Pn532Base.drained, if_neg (not_not.mpr hnil)]
    by_cases hdone : c.base.toFifo = [] ∧ (c.base.opstate = .ackRdout ∨ c.base.opstate = .readout)
    · rw [if_pos hdone, if_pos (by exact hdone)]
      exact view_respth (c := { c with base := { c.base with ack := false } }) h
    · rw [if_neg hdone, if_neg (by exact hdone)]
  | some w =>
    have hsome : c.view.writing ≠ [] := by
      show c.flat ≠ []
      rw [flat_some h]
      exact List.cons_ne_nil _ _
    have hpour : c.drained = c.pour := by
      unfold drained
      rw [h]
      rfl
    rw [hpour, Pn532Base.drained, if_pos hsome, view_pour h]

theorem wake_quiet (h : c.base.newcommand = false) : c.wake = c := by
  unfold wake
  rw [if_neg (by rw [h]; exact Bool.false_ne_true)]

theorem wake_none (hnew : c.base.newcommand = true) (h : c.writer = none) :
    c.wake = { c with base := { c.base with newcommand := false, ack := true, opstate := .ack } } := by
  unfold wake
  rw [if_pos hnew, h]
  rfl

theorem wake_some (hnew : c.base.newcommand = true) (h : c.writer = some w) :
    c.wake = { c with base := { c.base with newcommand := false } } := by
  unfold wake
  rw [if_pos hnew, h]
  rfl

/-- **A new command** wakes the thread, or is lost to it, alike. -/
theorem view_wake (c : Chip) : c.wake.view = c.view.wake := by
  cases hnew : c.base.newcommand with
  | false =>
    have hquiet : c.view.wake = c.view := by
      unfold Pn532Base.wake
      rw [if_neg (by rw [show c.view.newcommand = false from hnew]; exact Bool.false_ne_true)]
    rw [wake_quiet hnew, hquiet]
  | true =>
    have hother : c.view.wake =
        if c.flat = [] then { c.view with newcommand := false, ack := true, opstate := .ack }
        else { c.view with newcommand := false } := by
      unfold Pn532Base.wake
      rw [if_pos (by exact hnew)]
      rfl
    rw [hother]
    cases h : c.writer with
    | none =>
      rw [wake_none hnew h, if_pos (flat_none h)]
      rfl
    | some w =>
      have hsome : c.flat ≠ [] := by
        rw [flat_some h]
        exact List.cons_ne_nil _ _
      rw [wake_some hnew h, if_neg hsome]
      rfl

/-- A byte that comes while no response waits. -/
theorem view_receive (hwriting : c.base.writing = []) (h : c.writer = none) (m : UInt8) :
    (c.receive m).view = c.view.receive m := by
  have hbase : c.view = c.base := by
    rw [view_none h, ← hwriting]
  have hparse : (c.parse m).view = c.base.process m := by
    have hkept : (c.base.process m).writing = [] :=
      (Pn532Base.outer_process c.base m).writing.trans hwriting
    rw [view_none (c := c.parse m) h, ← hkept]
    rfl
  have hwake : (c.parse m).wake.view = (c.base.process m).wake := by
    rw [view_wake, hparse]
  have hfifo : (c.parse m).wake.base.toFifo = (c.base.process m).wake.toFifo := by
    rw [← hwake]
    rfl
  rw [hbase]
  unfold receive Pn532Base.receive
  dsimp only
  rw [hfifo]
  split
  · rw [view_drained, hwake]
  · exact hwake

/-- Nothing changes what the rest of a response is read from. -/
def Undisturbed (c : Chip) (e : Pn532Base.Event) : Prop :=
  c.writer.isNone = true ∨ e = .read ∨ e = .expire

theorem step_expire_none (hack : c.base.ack = true) (h : c.writer = none) :
    c.step .expire = { c with base := { c.base with ack := false } }.respth := by
  unfold step
  dsimp only
  rw [if_pos hack, h]
  rfl

theorem step_expire_some (hack : c.base.ack = true) (h : c.writer = some w) :
    c.step .expire = { c with base := { c.base with ack := false } } := by
  unfold step
  dsimp only
  rw [if_pos hack, h]
  rfl

/-- The timer of a response. -/
theorem view_expire (c : Chip) : (c.step .expire).view = c.view.step .expire := by
  by_cases hack : c.base.ack = true
  · have hother : c.view.step .expire =
        if c.flat = [] then { c.view with ack := false }.respth else { c.view with ack := false } := by
      unfold Pn532Base.step
      dsimp only
      rw [if_pos (by exact hack)]
      rfl
    rw [hother]
    cases h : c.writer with
    | none =>
      rw [step_expire_none hack h, if_pos (flat_none h)]
      exact view_respth (c := { c with base := { c.base with ack := false } }) h
    | some w =>
      have hsome : c.flat ≠ [] := by
        rw [flat_some h]
        exact List.cons_ne_nil _ _
      rw [step_expire_some hack h, if_neg hsome]
      rfl
  · unfold step Pn532Base.step
    dsimp only
    rw [if_neg hack, if_neg (by exact hack)]

/-- The host reads. -/
theorem view_read (c : Chip) : (c.step .read).view = c.view.step .read := by
  unfold step Pn532Base.step
  dsimp only
  by_cases hempty : c.base.toFifo = []
  · rw [if_pos hempty, if_pos (by exact hempty)]
  · rw [if_neg hempty, if_neg (by exact hempty)]
    exact view_drained _

/-- **One step**, while nothing disturbs a response that waits. -/
theorem view_step (hwriting : c.base.writing = []) {e : Pn532Base.Event} (h : c.Undisturbed e) :
    (c.step e).view = c.view.step e := by
  have hnone : e ≠ .read → e ≠ .expire → c.writer = none := fun hread hexpire =>
    Option.isNone_iff_eq_none.mp (h.resolve_right (not_or.mpr ⟨hread, hexpire⟩))
  cases e with
  | byte m => exact view_receive hwriting (hnone nofun nofun) m
  | read => exact view_read c
  | expire => exact view_expire c
  | present uid =>
    have hwriter := hnone nofun nofun
    rw [view_none hwriter]
    exact view_none hwriter
  | remove =>
    have hwriter := hnone nofun nofun
    rw [view_none hwriter]
    exact view_none hwriter

theorem Poured.writing {d : Chip} (h : Poured c d) : d.base.writing = c.base.writing := by
  cases h with
  | waits _ hbase => rw [hbase]
  | done _ hbase => rw [hbase]

theorem writing_respth (c : Chip) : c.respth.base.writing = c.base.writing := by
  by_cases hbusy : c.base.opstate = .busy
  · cases hprogram : c.base.mif.program with
    | none => rw [respth_retry hbusy hprogram]
    | some ps =>
      rw [respth_begin hbusy hprogram]
      exact (poured_begin { c with base := { c.base with toFifo := [] } } 0 ps).writing
  · have hkept : c.base.respth.writing = c.base.writing := by
      have hsame : c.base.respth = { c.base.respth with writing := c.base.writing } :=
        respth_writing hbusy c.base.writing
      rw [hsame]
    by_cases hack : c.base.opstate = .ack
    · rw [respth_ack hack, hkept]
    · rw [respth_other hack hbusy, hkept]

theorem writing_drained (c : Chip) : c.drained.base.writing = c.base.writing := by
  unfold drained
  split
  · rename_i hsome
    obtain ⟨w, h⟩ := Option.isSome_iff_exists.mp hsome
    exact (poured_pour h).writing
  · split
    · exact writing_respth { c with base := { c.base with ack := false } }
    · rfl

theorem writing_wake (c : Chip) : c.wake.base.writing = c.base.writing := by
  unfold wake
  split
  · split <;> rfl
  · rfl

/-- `writing` of `base` stays as it is. -/
theorem writing_step (c : Chip) (e : Pn532Base.Event) :
    (c.step e).base.writing = c.base.writing := by
  cases e with
  | byte m =>
    have hreceived : (c.parse m).wake.base.writing = c.base.writing :=
      (writing_wake _).trans (Pn532Base.outer_process c.base m).writing
    unfold step receive
    dsimp only
    split
    · exact (writing_drained _).trans hreceived
    · exact hreceived
  | read =>
    unfold step
    dsimp only
    split
    · rfl
    · exact writing_drained _
  | expire =>
    unfold step
    dsimp only
    split
    · split
      · exact writing_respth _
      · rfl
    · rfl
  | present uid => rfl
  | remove => rfl

/-- **The two models agree** in every run in which nothing disturbs a response that waits. -/
theorem view_run (es : List Pn532Base.Event) (hwriting : c.base.writing = [])
    (h : Throughout Undisturbed step c es) : (es.foldl step c).view = c.view.run es := by
  induction es generalizing c with
  | nil => rfl
  | cons e es ih =>
    have hstep := view_step hwriting h.1
    have hrest := ih ((writing_step c e).trans hwriting) h.2
    rw [List.foldl_cons, hrest, hstep]
    rfl

end Chip

end Espmod.Pn532
