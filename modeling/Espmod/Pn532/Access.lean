/-
# Espmod.Pn532.Access — reading and writing the blocks of the card

The parser decides about an `InDataExchange`; the response thread answers it later, from what `mif`
holds by then. Here the blocks are followed over whole runs: data is read or written only in a block
that was authenticated after the card was presented, and an exchange that is not allowed is answered
with a failure and leaves the blocks as they were. The parser does not reject an exchange with a full
header (`cardCommand` clears `cmdbad` where it should set it), so this holds of runs in which every such
exchange is allowed.
-/
import Espmod.Pn532.Exchange

namespace Espmod.Pn532

open Espmod.Lib
open Espmod.Lib.Text (Bytes)

/-! ## §1 — what a response reads -/

/-- The statement pushes a byte of a block. -/
def Put.carries : Put → Bool
  | .data _ => true
  | _ => false

namespace Mif

variable {m : Mif} {cksum : UInt8} {ps : List Put} {w : Writer}

/-- Only a byte of a block is from a block, the one that `mif` names. -/
theorem next_carries (h : m.next cksum ps = some w) :
    (w.rest.any Put.carries = true → ps.any Put.carries = true) ∧
      ∀ n ∈ w.block.toList, n = m.bn.toNat ∧ ps.any Put.carries = true := by
  induction ps with
  | nil => cases h
  | cons put ps ih =>
    cases put with
    | data p =>
      obtain rfl := Option.some.inj h
      refine ⟨fun _ => rfl, fun n hn => ⟨?_, rfl⟩⟩
      exact List.mem_singleton.mp hn
    | targets i =>
      rw [next] at h
      split at h
      · obtain rfl := Option.some.inj h
        exact ⟨fun hrest => hrest, fun n hn => absurd hn List.not_mem_nil⟩
      · exact ih h
    | _ =>
      obtain rfl := Option.some.inj h
      exact ⟨fun hrest => hrest, fun n hn => absurd hn List.not_mem_nil⟩

/-- **Data of a block is in the answer to a read** that was not rejected. -/
theorem program_carries (h : m.program = some ps) (hdata : ps.any Put.carries = true) :
    m.cmd = 0x40 ∧ m.cmdbad = false ∧ m.lastincmd = 0x30 := by
  have hway := m.replies
  rw [program_reply] at h
  generalize m.reply = reply at h hway
  cases hway with
  | again _ => cases h
  | block hcmd hok hread => exact ⟨hcmd, hok, hread⟩
  | _ =>
    obtain rfl := Option.some.inj h
    exact absurd hdata Bool.false_ne_true

end Mif

/-! ## §2 — what the response thread does besides answering -/

namespace Chip

open Pn532Base (Event toSize)

variable {c d e : Chip} {w : Writer} {cksum : UInt8} {ps : List Put} {data : Bool}

/-- A byte of a block is still to be read for a response. -/
def reading (c : Chip) : Bool := c.writer.any fun w => w.rest.any Put.carries

/-- The thread goes on with a response: it reads from a block if there is data in what is left. -/
structure Reads (data : Bool) (c d : Chip) : Prop where
  bn : d.base.mif.bn = c.base.mif.bn
  before : d.before = c.before
  carried : ∃ ns, d.carried = c.carried ++ ns ∧ ∀ n ∈ ns, n = c.base.mif.bn.toNat ∧ data = true
  reading : d.reading = true → data = true

theorem Reads.trans (h : Reads data c d) (h' : Reads d.reading d e) : Reads data c e := by
  obtain ⟨ns, hcarried, hns⟩ := h.carried
  obtain ⟨ns', hcarried', hns'⟩ := h'.carried
  refine ⟨h'.bn.trans h.bn, h'.before.trans h.before, ⟨ns ++ ns', ?_, ?_⟩, ?_⟩
  · rw [hcarried', hcarried, List.append_assoc]
  · intro n hn
    rcases List.mem_append.mp hn with hn | hn
    · exact hns n hn
    · obtain ⟨hbn, hdata⟩ := hns' n hn
      exact ⟨hbn.trans (congrArg UInt16.toNat h.bn), h.reading hdata⟩
  · exact fun hread => h.reading (h'.reading hread)

theorem reads_refl (c : Chip) : Reads c.reading c c :=
  ⟨rfl, rfl, ⟨[], (List.append_nil _).symm, fun _ hn => absurd hn List.not_mem_nil⟩, fun h => h⟩

theorem reads_advance (c : Chip) (cksum : UInt8) (ps : List Put) :
    Reads (ps.any Put.carries) c (c.advance cksum ps) := by
  cases h : c.base.mif.next cksum ps with
  | none =>
    rw [advance_none h]
    exact ⟨rfl, rfl, ⟨[], (List.append_nil _).symm, fun _ hn => absurd hn List.not_mem_nil⟩,
      fun hread => absurd hread Bool.false_ne_true⟩
  | some w =>
    obtain ⟨hrest, hblock⟩ := Mif.next_carries h
    rw [advance_some h]
    exact ⟨rfl, rfl, ⟨w.block.toList, rfl, hblock⟩, hrest⟩

theorem reads_pourN : ∀ (room : Nat) (c : Chip), Reads c.reading c (c.pourN room) := by
  intro room
  induction room with
  | zero => exact reads_refl
  | succ room ih =>
    intro c
    cases h : c.writer with
    | none =>
      rw [pourN_none h]
      exact reads_refl c
    | some w =>
      have hreading : c.reading = w.rest.any Put.carries := by
        unfold reading
        rw [h]
        rfl
      have hone : Reads c.reading c ((c.push [w.byte]).advance w.cksum w.rest) := by
        have hadvance := reads_advance (c.push [w.byte]) w.cksum w.rest
        rw [hreading]
        exact ⟨hadvance.bn, hadvance.before, hadvance.carried, hadvance.reading⟩
      rw [pourN_some h]
      exact hone.trans (ih _)

/-- A response begins. -/
theorem reads_begin (c : Chip) (cksum : UInt8) (ps : List Put) :
    Reads (ps.any Put.carries) c (c.advance cksum ps).pour :=
  (reads_advance c cksum ps).trans (reads_pourN _ _)

/-- The parser, the blocks and the history of the commands are as they were. A response that comes to
its end clears the command, but not in the middle of a frame. -/
structure Calm (c d : Chip) : Prop where
  mem : d.base.mif.mem = c.base.mif.mem
  lastincmd : d.base.mif.lastincmd = c.base.mif.lastincmd
  bn : d.base.mif.bn = c.base.mif.bn
  cmdbad : d.base.mif.cmdbad = c.base.mif.cmdbad
  len : d.base.mif.len = c.base.mif.len
  wait : d.base.wait = c.base.wait
  state : d.base.pn532state = c.base.pn532state
  taken : d.base.taken = c.base.taken
  executed : d.base.executed = c.base.executed
  newcommand : d.base.newcommand = c.base.newcommand
  before : d.before = c.before
  cmd : c.base.MidFrame → d.base.mif.cmd = c.base.mif.cmd

theorem Calm.mid (h : Calm c d) : d.base.MidFrame ↔ c.base.MidFrame := by
  unfold Pn532Base.MidFrame
  rw [h.wait, h.state]

/-- A change of what is not the parser's. -/
theorem calm_base {op : Op} {ack : Bool} {fifo : Bytes} {wr : Option Writer} {since : Bytes}
    {carried : List Nat} : Calm c { c with
      base := { c.base with opstate := op, ack := ack, toFifo := fifo }
      writer := wr, since := since, carried := carried } :=
  ⟨rfl, rfl, rfl, rfl, rfl, rfl, rfl, rfl, rfl, rfl, rfl, fun _ => rfl⟩

theorem Poured.calm (h : Poured c d) (hbefore : d.before = c.before) (hmid : ¬ c.base.MidFrame) :
    Calm c d := by
  have hbase : d.base.mif.mem = c.base.mif.mem ∧ d.base.mif.lastincmd = c.base.mif.lastincmd ∧
      d.base.mif.bn = c.base.mif.bn ∧ d.base.mif.cmdbad = c.base.mif.cmdbad ∧
        d.base.mif.len = c.base.mif.len ∧ d.base.wait = c.base.wait ∧
          d.base.pn532state = c.base.pn532state ∧ d.base.taken = c.base.taken ∧
            d.base.executed = c.base.executed ∧ d.base.newcommand = c.base.newcommand := by
    cases h with
    | waits _ hbase =>
      rw [hbase]
      exact ⟨rfl, rfl, rfl, rfl, rfl, rfl, rfl, rfl, rfl, rfl⟩
    | done _ hbase =>
      rw [hbase]
      exact ⟨rfl, rfl, rfl, rfl, rfl, rfl, rfl, rfl, rfl, rfl⟩
  obtain ⟨hmem, hlast, hbn, hbad, hlen, hwait, hstate, htaken, hexec, hnew⟩ := hbase
  exact ⟨hmem, hlast, hbn, hbad, hlen, hwait, hstate, htaken, hexec, hnew, hbefore,
    fun hin => absurd hin hmid⟩

theorem Calm.trans (h : Calm c d) (h' : Calm d e) : Calm c e where
  mem := h'.mem.trans h.mem
  lastincmd := h'.lastincmd.trans h.lastincmd
  bn := h'.bn.trans h.bn
  cmdbad := h'.cmdbad.trans h.cmdbad
  len := h'.len.trans h.len
  wait := h'.wait.trans h.wait
  state := h'.state.trans h.state
  taken := h'.taken.trans h.taken
  executed := h'.executed.trans h.executed
  newcommand := h'.newcommand.trans h.newcommand
  before := h'.before.trans h.before
  cmd hmid := (h'.cmd (h.mid.mpr hmid)).trans (h.cmd hmid)

theorem Calm.exch {entry : Nat → DataBlock} (h : Calm c d) (hexch : c.base.Exch entry) :
    d.base.Exch entry := by
  have hclosing : c.base.Closing → d.base.Closing := by
    rintro ⟨hwait, hstate⟩
    exact ⟨h.wait.trans hwait, h.state ▸ hstate⟩
  have hmem := h.mem
  cases hexch with
  | begun hwait hstate htaken hmem' =>
    exact .begun (h.wait.trans hwait) (h.state.trans hstate) (h.taken.trans htaken) (hmem.trans hmem')
  | bare hclose htaken hmem' =>
    exact .bare (hclosing hclose) (h.taken.trans htaken) (hmem.trans hmem')
  | header hwait htaken hmem' =>
    exact .header (h.wait.trans hwait) (h.taken.trans htaken) (hmem.trans hmem')
  | block hwait htaken hlast hmem' =>
    exact .block (h.wait.trans hwait) (h.taken.trans htaken) (h.lastincmd.trans hlast)
      (hmem.trans hmem')
  | short hwait hbad hlen hge hmem' =>
    refine .short ?_ (h.cmdbad.trans hbad) (h.taken ▸ hlen) (h.taken ▸ hge) (hmem.trans hmem')
    rw [h.wait, h.taken, h.len]
    exact hwait.imp (fun hflush => hflush) hclosing
  | full hwait htaken hadm hdecided =>
    refine .full ?_ (h.taken.trans htaken) (h.len ▸ hadm) ⟨h.lastincmd.trans hdecided.lastincmd,
      h.bn.trans hdecided.bn, by rw [hmem]; exact hdecided.raised, by rw [hmem]; exact hdecided.kept⟩
    rw [h.wait, h.len]
    exact hwait.imp (fun hflush => hflush) (Or.imp (And.imp_left hclosing) fun hdata => hdata)

end Chip

/-! ## §3 — runs -/

/-- An authentication for this block, with its full parameter list. -/
def IsAuth (n : Nat) (cmd : Bytes) : Prop :=
  ∃ tg block more, cmd = 0x40 :: tg :: 0x60 :: block :: more ∧ block.toNat = n ∧ 10 ≤ more.length

/-- The block was authenticated after the card was presented. -/
def Chip.Authenticated (c : Chip) (n : Nat) : Prop :=
  ∃ cmd ∈ c.base.executed.drop c.before, IsAuth n cmd

/-- A response begins when the timer expires. -/
def Chip.Begins (c : Chip) : Prop :=
  c.base.ack = true ∧ c.writer = none ∧ c.base.opstate = .busy ∧ c.base.mif.pushresp ≠ none

/-- The module, with the blocks as they were when the last command byte came. -/
structure Watched extends Chip where
  /-- history -/
  entry : Nat → DataBlock

namespace Watched

open Pn532Base (Event)

def step (w : Watched) (e : Event) : Watched where
  toChip := w.toChip.step e
  entry :=
    match e with
    | .byte _ => if w.base.AtCommand then w.base.mif.mem else w.entry
    | _ => w.entry

/-- At the start of simulation. -/
def start (m : Mif) : Watched := ⟨Chip.start m, m.start.mem⟩

/-- The command that was executed last is an exchange that was not allowed. -/
def Denied (w : Watched) : Prop :=
  ∃ ps, w.base.executed.getLast? = some (0x40 :: ps) ∧ ¬ Allowed w.entry ps

/-- **Access control**, for a step. -/
structure Lawful (w : Watched) (e : Event) : Prop where
  /-- data is changed in an authenticated block only -/
  changed : ∀ n, ((w.step e).base.mif.mem n).data ≠ (w.base.mif.mem n).data → w.Authenticated n
  /-- and read for a response from such a block only -/
  carried : ∀ n ∈ (w.step e).carried.drop w.carried.length, w.Authenticated n
  /-- at its end, an exchange that is not allowed has left the blocks as they were -/
  unchanged : ∀ m, e = .byte m → w.base.AtLock → (w.step e).Denied → (w.step e).base.mif.mem = w.entry
  /-- its answer is a failure -/
  answered : e = .expire → w.Begins → w.Denied →
    (w.step e).since ++ (w.step e).flat = w.since ++ pushframe 0x06 0x41 (w.base.mif.exchanged 0x55)

/-- An exchange with a full header is allowed, and one without parameters is marked bad. No response
waits for room when a command byte comes, and none begins between the command byte and the end of a
frame. No card is presented in the middle of an exchange, or while data of a block is still to be read
for a response. -/
def Permitted (w : Watched) : Event → Prop
  | .byte m =>
    (w.base.wait = .bn →
      Admitted w.base.mif.mem w.base.mif.lastincmd.toUInt8 m (w.base.mif.len - 1)) ∧
      (w.base.AtLock → w.base.mif.cmd = 0x40 → 2 ≤ w.base.taken.length ∨ w.base.mif.cmdbad = true) ∧
        (w.base.AtCommand → w.writer.isNone = true)
  | .read => True
  | .expire => w.base.MidFrame → w.base.opstate = .busy → w.base.mif.pushresp = none
  | .present _ => (w.base.MidFrame → w.base.mif.cmd ≠ 0x40) ∧ w.reading = false
  | .remove => True

instance (w : Watched) : ∀ e, Decidable (Permitted w e)
  | .byte _ => inferInstanceAs (Decidable (_ ∧ _))
  | .read => inferInstanceAs (Decidable True)
  | .expire => inferInstanceAs (Decidable (_ → _))
  | .present _ => inferInstanceAs (Decidable (_ ∧ _))
  | .remove => inferInstanceAs (Decidable True)

/-- A response is yet to come. -/
def Pending (op : Op) : Prop := op = .ack ∨ op = .ackRdout ∨ op = .predelay ∨ op = .busy

/-- What is in `mif` answers the command that was executed last as it should be. -/
structure Settled (w : Watched) : Prop where
  denied : w.Denied → w.base.mif.cmd = 0x40 ∧ w.base.mif.cmdbad = true
  flag : w.base.mif.cmd = 0x40 → w.base.mif.cmdbad = false → w.base.mif.lastincmd = 0x30 →
    (w.base.mif.mem w.base.mif.bn.toNat).authenticated = true

/-- The blocks, without what an exchange has done of which the frame has not come to its end. -/
def blocks (w : Watched) : Nat → DataBlock :=
  if w.base.MidFrame ∧ w.base.mif.cmd = 0x40 then w.entry else w.base.mif.mem

/-- What holds in every state of such a run. -/
structure Guarded (w : Watched) : Prop where
  newcommand : w.base.newcommand = false
  begun : w.base.MidFrame → w.base.taken.head? = some w.base.mif.cmd
  alone : w.base.MidFrame → w.writer = none
  exch : w.base.MidFrame → w.base.mif.cmd = 0x40 → w.base.Exch w.entry
  other : w.base.mif.cmd ≠ 0x40 → ¬ Pn532Base.CardWait w.base.wait
  before : w.before ≤ w.base.executed.length
  known : ∀ n, (w.blocks n).authenticated = true → w.Authenticated n
  settled : ¬ w.base.MidFrame → Pending w.base.opstate → w.writer = none → w.Settled
  flag : w.reading = true → (w.base.mif.mem w.base.mif.bn.toNat).authenticated = true

variable {w : Watched} {d : Chip}

theorem blocks_out (h : ¬ w.base.MidFrame) : w.blocks = w.base.mif.mem :=
  if_neg fun hboth => h hboth.1

theorem blocks_other (h : w.base.mif.cmd ≠ 0x40) : w.blocks = w.base.mif.mem :=
  if_neg fun hboth => h hboth.2

theorem blocks_exch (hmid : w.base.MidFrame) (hcmd : w.base.mif.cmd = 0x40) : w.blocks = w.entry :=
  if_pos ⟨hmid, hcmd⟩

theorem blocks_entry (h : w.base.mif.mem = w.entry) : w.blocks = w.entry := by
  unfold blocks
  rw [h, ite_self]

theorem not_reading (h : d.writer = none) : ¬ d.reading = true := by
  unfold Chip.reading
  rw [h]
  exact Bool.false_ne_true

/-- What the response thread does leaves everything as it was, but for what it has to answer. -/
theorem Guarded.calm (h : Guarded w) (hc : Chip.Calm w.toChip d)
    (halone : w.base.MidFrame → d.writer = none)
    (hsettled : ¬ w.base.MidFrame → Pending d.base.opstate → d.writer = none →
      d.base.mif.cmd = w.base.mif.cmd ∧ w.Settled)
    (hflag : d.reading = true → (w.base.mif.mem w.base.mif.bn.toNat).authenticated = true) :
    Guarded ⟨d, w.entry⟩ := by
  refine ⟨hc.newcommand.trans h.newcommand, ?_, fun hmid => halone (hc.mid.mp hmid), ?_, ?_, ?_, ?_,
    ?_, ?_⟩
  · intro hmid
    have hin := hc.mid.mp hmid
    rw [hc.taken, hc.cmd hin]
    exact h.begun hin
  · intro hmid hcmd
    have hin := hc.mid.mp hmid
    exact hc.exch (h.exch hin ((hc.cmd hin).symm.trans hcmd))
  · intro hcmd
    dsimp only at hcmd ⊢
    rw [hc.wait]
    by_cases hin : w.base.MidFrame
    · exact h.other fun hw => hcmd ((hc.cmd hin).trans hw)
    · intro hcard
      refine hin (Or.inl ?_)
      rintro htop
      rw [htop] at hcard
      exact Pn532Base.cardWait_top hcard
  · show d.before ≤ d.base.executed.length
    rw [hc.before, hc.executed]
    exact h.before
  · have hblocks : blocks ⟨d, w.entry⟩ = w.blocks := by
      by_cases hin : w.base.MidFrame
      · unfold blocks
        dsimp only
        rw [hc.cmd hin, hc.mem, if_congr (and_congr_left' hc.mid) rfl rfl]
      · rw [blocks_out hin, blocks_out fun hmid => hin (hc.mid.mp hmid)]
        exact hc.mem
    intro n hn
    rw [hblocks] at hn
    show ∃ cmd ∈ d.base.executed.drop d.before, IsAuth n cmd
    rw [hc.executed, hc.before]
    exact h.known n hn
  · intro hmid hop hwriter
    obtain ⟨hcmd, hs⟩ := hsettled (fun hin => hmid (hc.mid.mpr hin)) hop hwriter
    refine ⟨?_, ?_⟩
    · rintro ⟨ps, hlast, hno⟩
      rw [hcmd, hc.cmdbad]
      exact hs.denied ⟨ps, hc.executed ▸ hlast, hno⟩
    · rw [hcmd, hc.cmdbad, hc.lastincmd, hc.mem, hc.bn]
      exact hs.flag
  · intro hread
    rw [hc.mem, hc.bn]
    exact hflag hread

/-- The thread has done its part: the invariant holds, and what it read from the blocks it was allowed
to. -/
structure Served (w : Watched) (d : Chip) : Prop where
  calm : Chip.Calm w.toChip d
  guarded : Guarded ⟨d, w.entry⟩
  carried : ∃ ns, d.carried = w.carried ++ ns ∧ ∀ n ∈ ns, w.Authenticated n

theorem Served.trans {e : Chip} (h : Served w d) (h' : Served ⟨d, w.entry⟩ e) : Served w e := by
  obtain ⟨ns, hcarried, hns⟩ := h.carried
  obtain ⟨ns', hcarried', hns'⟩ := h'.carried
  refine ⟨h.calm.trans h'.calm, h'.guarded, ns ++ ns', ?_, ?_⟩
  · rw [hcarried', ← List.append_assoc]
    exact congrArg (· ++ ns') hcarried
  · intro n hn
    rcases List.mem_append.mp hn with hn | hn
    · exact hns n hn
    · obtain ⟨cmd, hcmd, hauth⟩ := hns' n hn
      refine ⟨cmd, ?_, hauth⟩
      rw [← h.calm.executed, ← h.calm.before]
      exact hcmd

/-- The thread goes on with a response. -/
theorem Guarded.poured (h : Guarded w) {data : Bool} (hp : Chip.Poured w.toChip d)
    (hr : Chip.Reads data w.toChip d) (hout : ¬ w.base.MidFrame)
    (hflag : data = true → (w.base.mif.mem w.base.mif.bn.toNat).authenticated = true) :
    Served w d := by
  have hc : Chip.Calm w.toChip d := hp.calm hr.before hout
  refine ⟨hc, h.calm hc (fun hin => absurd hin hout) ?_ fun hread => hflag (hr.reading hread), ?_⟩
  · intro _ hop hnone
    cases hp with
    | waits hsome _ => exact absurd (hnone.symm.trans hsome) (by simp)
    | done _ hbase =>
      rw [hbase] at hop
      rcases hop with hop | hop | hop | hop <;> cases hop
  · obtain ⟨ns, hcarried, hns⟩ := hr.carried
    refine ⟨ns, hcarried, fun n hn => ?_⟩
    obtain ⟨rfl, hdata⟩ := hns n hn
    refine h.known _ ?_
    rw [blocks_out hout]
    exact hflag hdata

/-- The thread only changes what is its own, with no response that waits. -/
theorem Guarded.idles (h : Guarded w) (hc : Chip.Calm w.toChip d) (hwriter : d.writer = none)
    (hcarried : d.carried = w.carried) (hcmd : d.base.mif.cmd = w.base.mif.cmd)
    (hnone : w.writer = none) (hpending : Pending d.base.opstate → Pending w.base.opstate) :
    Served w d := by
  refine ⟨hc, h.calm hc (fun _ => hwriter) ?_ ?_, [], by rw [hcarried, List.append_nil], ?_⟩
  · exact fun hout hop _ => ⟨hcmd, h.settled hout (hpending hop) hnone⟩
  · exact fun hread => absurd hread (not_reading hwriter)
  · exact fun _ hn => absurd hn List.not_mem_nil

/-- Neither the thread nor what it has to answer is changed. -/
theorem Guarded.kept (h : Guarded w) (hc : Chip.Calm w.toChip d) (hwriter : d.writer = w.writer)
    (hcarried : d.carried = w.carried) (hcmd : d.base.mif.cmd = w.base.mif.cmd)
    (hop : d.base.opstate = w.base.opstate) : Served w d := by
  have hreading : d.reading = w.reading := by
    unfold Chip.reading
    rw [hwriter]
  refine ⟨hc, h.calm hc (fun hmid => hwriter.trans (h.alone hmid)) ?_ ?_, [], ?_,
    fun _ hn => absurd hn List.not_mem_nil⟩
  · intro hout hpending hnone
    exact ⟨hcmd, h.settled hout (hop ▸ hpending) (hwriter.symm.trans hnone)⟩
  · rw [hreading]
    exact h.flag
  · rw [hcarried, List.append_nil]

/-- The thread has nothing to do. -/
theorem Guarded.served (h : Guarded w) : Served w w.toChip := h.kept Chip.calm_base rfl rfl rfl rfl

/-- **The response thread is woken.** -/
theorem Guarded.respth (h : Guarded w) (hwriter : w.writer = none)
    (hbegin : w.base.MidFrame → w.base.opstate = .busy → w.base.mif.pushresp = none) :
    Served w w.toChip.respth := by
  by_cases hbusy : w.base.opstate = .busy
  · cases hprogram : w.base.mif.program with
    | none =>
      rw [Chip.respth_retry hbusy hprogram]
      have hc : Chip.Calm w.toChip { w.toChip with
          base := { w.base with toFifo := [], mif := w.base.mif.retry, ack := true } } :=
        ⟨rfl, rfl, rfl, rfl, rfl, rfl, rfl, rfl, rfl, rfl, rfl, fun _ => rfl⟩
      exact h.idles hc hwriter rfl rfl hwriter fun hop => hop
    | some ps =>
      have hout : ¬ w.base.MidFrame := by
        intro hmid
        have hresp := Mif.program_flat w.base.mif
        rw [hprogram, hbegin hmid hbusy] at hresp
        cases hresp
      have hs := h.settled hout (Or.inr (Or.inr (Or.inr hbusy))) hwriter
      have hempty := h.idles (d := { w.toChip with base := { w.base with toFifo := [] } })
        Chip.calm_base hwriter rfl rfl hwriter fun hop => hop
      rw [Chip.respth_begin hbusy hprogram]
      refine hempty.trans (hempty.guarded.poured (Chip.poured_begin _ 0 ps) (Chip.reads_begin _ 0 ps)
        hout ?_)
      intro hdata
      obtain ⟨hcmd, hbad, hlast⟩ := Mif.program_carries hprogram hdata
      exact hs.flag hcmd hbad hlast
  · have hidle : ∀ (op : Op) (ack : Bool) (fifo since : Bytes),
        (Pending op → Pending w.base.opstate) → Served w { w.toChip with
          base := { w.base with opstate := op, ack := ack, toFifo := fifo }, since := since } := by
      intro op ack fifo since hop
      exact h.idles Chip.calm_base hwriter rfl rfl hwriter hop
    have hsame : Served w w.toChip :=
      hidle w.base.opstate w.base.ack w.base.toFifo w.since fun hop => hop
    cases hop : w.base.opstate with
    | busy => exact absurd hop hbusy
    | ack =>
      rw [Chip.respth_ack hop, Pn532Base.respth, hop]
      exact hidle .ackRdout _ _ _ fun _ => Or.inl hop
    | ackRdout =>
      have hpending : Pending w.base.opstate := Or.inr (Or.inl hop)
      rw [Chip.respth_other (by rw [hop]; simp) hbusy, Pn532Base.respth, hop]
      dsimp only
      split
      · exact hidle .predelay true _ _ fun _ => hpending
      · exact hidle .busy true _ _ fun _ => hpending
    | predelay =>
      rw [Chip.respth_other (by rw [hop]; simp) hbusy, Pn532Base.respth, hop]
      exact hidle .busy true _ _ fun _ => Or.inr (Or.inr (Or.inl hop))
    | readout =>
      rw [Chip.respth_other (by rw [hop]; simp) hbusy, Pn532Base.respth, hop]
      exact hidle .idle _ _ _ fun hidle' => by rcases hidle' with h | h | h | h <;> cases h
    | off =>
      rw [Chip.respth_other (by rw [hop]; simp) hbusy, Pn532Base.respth, hop]
      exact hsame
    | idle =>
      rw [Chip.respth_other (by rw [hop]; simp) hbusy, Pn532Base.respth, hop]
      exact hsame

/-- **Something was read from the queue.** -/
theorem Guarded.drained (h : Guarded w) : Served w w.toChip.drained := by
  unfold Chip.drained
  by_cases hsome : w.writer.isSome = true
  · rw [if_pos hsome]
    obtain ⟨wr, hwriter⟩ := Option.isSome_iff_exists.mp hsome
    have hout : ¬ w.base.MidFrame := fun hmid => absurd ((h.alone hmid).symm.trans hwriter) (by simp)
    exact h.poured (Chip.poured_pour hwriter) (Chip.reads_pourN _ _) hout h.flag
  · rw [if_neg hsome]
    have hnone := Option.not_isSome_iff_eq_none.mp hsome
    split
    next hdone =>
      have hlost : Served w { w.toChip with base := { w.base with ack := false } } :=
        h.kept Chip.calm_base rfl rfl rfl rfl
      refine hlost.trans (hlost.guarded.respth hnone ?_)
      intro _ hbusy
      rw [show w.base.opstate = .busy from hbusy] at hdone
      exact absurd hdone.2 (by simp)
    next => exact h.served

/-! ## §4 — a step -/

/-- A byte in front of the command byte. -/
theorem Guarded.heading (h : Guarded w) {t : Pn532Base} (ht : Pn532Base.Heading w.base t)
    (hmid : ¬ w.base.MidFrame) : Guarded { w with base := t } := by
  have hout : ¬ ({ w with base := t } : Watched).base.MidFrame := ht.mid
  have hmif := ht.mif
  have hwait : t.wait = .top := by
    by_contra hwait
    exact ht.mid (Or.inl hwait)
  refine ⟨ht.newcommand.trans h.newcommand, fun hin => absurd hin hout, fun hin => absurd hin hout,
    fun hin => absurd hin hout, ?_, ?_, ?_, ?_, ?_⟩
  · intro _ hcard
    dsimp only at hcard
    rw [hwait] at hcard
    exact Pn532Base.cardWait_top hcard
  · show w.before ≤ t.executed.length
    rw [ht.executed]
    exact h.before
  · intro n hn
    rw [blocks_out hout] at hn
    show ∃ cmd ∈ t.executed.drop w.before, IsAuth n cmd
    rw [ht.executed]
    refine h.known n ?_
    rw [blocks_out hmid]
    dsimp only at hn
    rw [hmif] at hn
    exact hn
  · intro _ hop hwriter
    obtain ⟨hdenied, hflag⟩ := h.settled hmid (ht.opstate ▸ hop) hwriter
    refine ⟨?_, ?_⟩
    · rintro ⟨ps, hlast, hno⟩
      dsimp only at hlast ⊢
      rw [hmif]
      exact hdenied ⟨ps, ht.executed ▸ hlast, hno⟩
    · dsimp only
      rw [hmif]
      exact hflag
  · intro hread
    dsimp only
    rw [hmif]
    exact h.flag hread

/-- **The command byte**: the blocks are remembered as they are. -/
theorem Guarded.command (h : Guarded w) (hat : w.base.AtCommand) (hwriter : w.writer = none)
    (m : UInt8) : Guarded ⟨{ w.toChip with base := w.base.process m }, w.base.mif.mem⟩ := by
  have hout : ¬ w.base.MidFrame := by
    rintro (hmid | hmid | hmid | hmid)
    · exact hmid hat.1
    all_goals exact absurd (hat.2.symm.trans hmid) (by simp)
  have hstate : ∀ n : Int, (if n = 0 then State.dcs else State.pdn) = .dcs ∨
      (if n = 0 then State.dcs else State.pdn) = .pdn := by
    intro n
    split
    · exact Or.inl rfl
    · exact Or.inr rfl
  rw [Pn532Base.process_command hat]
  refine ⟨h.newcommand, fun _ => rfl, fun _ => hwriter, ?_, ?_, h.before, ?_, ?_, ?_⟩
  · intro _ hcmd
    obtain rfl : m = 0x40 := hcmd
    rcases hstate (w.base.mif.len - 1) with hst | hst
    · exact .bare ⟨hat.1, Or.inl hst⟩ rfl rfl
    · exact .begun hat.1 hst rfl rfl
  · intro _
    show ¬ Pn532Base.CardWait w.base.wait
    rw [hat.1]
    exact Pn532Base.cardWait_top
  · intro n hn
    refine h.known n ?_
    rw [blocks_out hout]
    rw [blocks_entry (by rfl)] at hn
    exact hn
  · intro hno
    refine absurd ?_ hno
    rcases hstate (w.base.mif.len - 1) with hst | hst
    · exact Or.inr (Or.inr (Or.inl hst))
    · exact Or.inr (Or.inl hst)
  · exact fun hread => absurd hread (not_reading hwriter)

/-- **A byte in the middle of a frame.** -/
theorem Guarded.inside (h : Guarded w) (hmid : w.base.MidFrame) (hlock : ¬ w.base.AtLock) {m : UInt8}
    (hadm : w.base.wait = .bn →
      Admitted w.base.mif.mem w.base.mif.lastincmd.toUInt8 m (w.base.mif.len - 1)) :
    Guarded { w with base := w.base.process m } := by
  have ht := Pn532Base.inside hmid hlock m
  have hwriter := h.alone hmid
  have hoff : w.base.mif.cmd ≠ 0x40 → Pn532Base.Off w.base (w.base.process m) :=
    fun hcmd => Pn532Base.off_process (h.other hcmd) (fun _ _ => hcmd) m
  refine ⟨ht.newcommand.trans h.newcommand, fun _ => ?_, fun _ => hwriter, ?_, ?_, ?_, ?_,
    fun hno => absurd ht.mid hno, fun hread => absurd hread (not_reading hwriter)⟩
  · obtain ⟨rest, hrest⟩ := ht.taken
    dsimp only
    rw [← hrest, ht.cmd, List.head?_append, h.begun hmid]
    rfl
  · intro _ hcmd
    have hcmd' : w.base.mif.cmd = 0x40 := ht.cmd.symm.trans hcmd
    exact (h.exch hmid hcmd').process hcmd' hlock hadm
  · intro hcmd
    exact (hoff fun hw => hcmd (ht.cmd.trans hw)).wait
  · show w.before ≤ (w.base.process m).executed.length
    rw [ht.executed]
    exact h.before
  · intro n hn
    show ∃ cmd ∈ (w.base.process m).executed.drop w.before, IsAuth n cmd
    rw [ht.executed]
    refine h.known n ?_
    by_cases hcmd : w.base.mif.cmd = 0x40
    · rw [blocks_exch (by exact ht.mid) (by exact ht.cmd.trans hcmd)] at hn
      rw [blocks_exch hmid hcmd]
      exact hn
    · rw [blocks_other (by exact fun hw => hcmd (ht.cmd.symm.trans hw))] at hn
      rw [blocks_other hcmd, ← (hoff hcmd).mem]
      exact hn

/-- **The last byte of a frame**: an exchange was allowed, or it has left the blocks alone. -/
theorem Guarded.lock (h : Guarded w) (hlock : w.base.AtLock)
    (hgood : w.base.mif.cmd = 0x40 → 2 ≤ w.base.taken.length ∨ w.base.mif.cmdbad = true)
    (m : UInt8) (since : Bytes) :
    Guarded { w with
      base := { w.base.process m with newcommand := false, ack := true, opstate := .ack }
      since := since } ∧
      (∀ ps, w.base.taken = 0x40 :: ps → ¬ Allowed w.entry ps →
        (w.base.process m).mif.mem = w.entry) := by
  have ht := Pn532Base.locked hlock m
  have hmid : w.base.MidFrame := Or.inr (Or.inr (Or.inr hlock.2))
  have hwriter := h.alone hmid
  have hnocard : ¬ Pn532Base.CardWait w.base.wait := by
    rw [hlock.1]
    exact Pn532Base.cardWait_top
  have hoff : Pn532Base.Off w.base (w.base.process m) :=
    Pn532Base.off_process hnocard
      (fun _ hpdn => absurd (hlock.2.symm.trans hpdn) (by simp)) m
  have hexch : ∀ ps, w.base.taken = 0x40 :: ps → w.base.mif.cmd = 0x40 := by
    intro ps htaken
    have hhead := h.begun hmid
    rw [htaken] at hhead
    exact (Option.some.inj hhead).symm
  -- what the exchange has come to
  have hends := fun hcmd => (h.exch hmid hcmd).ends hlock (hgood hcmd)
  have hdenied : ∀ ps, w.base.taken = 0x40 :: ps → ¬ Allowed w.entry ps →
      w.base.mif.cmd = 0x40 ∧ w.base.mif.cmdbad = true ∧ w.base.mif.mem = w.entry := by
    intro ps htaken hno
    have hcmd := hexch ps htaken
    rcases hends hcmd with ⟨tg, incmd, block, more, hfull, hadm, _⟩ | ⟨_, hbad, hmem⟩
    · obtain rfl : ps = tg :: incmd :: block :: more := (List.cons.inj (htaken.symm.trans hfull)).2
      exact absurd hadm hno
    · exact ⟨hcmd, hbad, hmem⟩
  have hlater : ∀ n, w.Authenticated n →
      ∃ cmd ∈ (w.base.process m).executed.drop w.before, IsAuth n cmd := by
    rintro n ⟨cmd, hcmd, hauth⟩
    refine ⟨cmd, ?_, hauth⟩
    rw [ht.executed, List.drop_append_of_le_length h.before]
    exact List.mem_append_left _ hcmd
  refine ⟨⟨rfl, fun hin => absurd hin ht.mid, fun hin => absurd hin ht.mid,
    fun hin => absurd hin ht.mid, fun _ => ?_, ?_, ?_, fun _ _ _ => ⟨?_, ?_⟩,
    fun hread => absurd hread (not_reading hwriter)⟩, ?_⟩
  · exact hoff.wait
  · show w.before ≤ (w.base.process m).executed.length
    rw [ht.executed, List.length_append]
    exact Nat.le_trans h.before (Nat.le_add_right _ _)
  · intro n hn
    rw [blocks_out (by exact ht.mid)] at hn
    have hflag : (w.base.mif.mem n).authenticated = true := by
      rw [← hoff.mem]
      exact hn
    by_cases hcmd : w.base.mif.cmd = 0x40
    · have hknown : (w.entry n).authenticated = true → w.Authenticated n := by
        intro hentry
        refine h.known n ?_
        rw [blocks_exch hmid hcmd]
        exact hentry
      rcases hends hcmd with ⟨tg, incmd, block, more, hfull, hadm, hdecided⟩ | ⟨_, _, hmem⟩
      · rcases hdecided.raised n hflag with hentry | ⟨hblock, hauth⟩
        · exact hlater n (hknown hentry)
        · -- the block is authenticated by this exchange
          refine ⟨w.base.taken, ?_, tg, block, more, hauth ▸ hfull, hblock.symm, ?_⟩
          · show w.base.taken ∈ (w.base.process m).executed.drop w.before
            rw [ht.executed, List.drop_append_of_le_length h.before]
            exact List.mem_append_right _ (List.mem_singleton_self _)
          · have hten := hadm.1 hauth
            omega
      · exact hlater n (hknown (hmem ▸ hflag))
    · refine hlater n (h.known n ?_)
      rw [blocks_other hcmd]
      exact hflag
  · rintro ⟨ps, hlast, hno⟩
    dsimp only at hlast ⊢
    rw [ht.executed, List.getLast?_concat] at hlast
    obtain ⟨hcmd, hbad, _⟩ := hdenied ps (Option.some.inj hlast) hno
    exact ⟨ht.cmd.trans hcmd, ht.cmdbad.trans hbad⟩
  · intro hcmd hbad hlast
    dsimp only at hcmd hbad hlast ⊢
    rw [ht.cmd] at hcmd
    rw [ht.cmdbad] at hbad
    rw [hoff.lastincmd] at hlast
    rw [hoff.mem, hoff.bn]
    rcases hends hcmd with ⟨tg, incmd, block, more, _, hadm, hdecided⟩ | ⟨_, hbad', _⟩
    · have hread : incmd = 0x30 := UInt8.toUInt16_inj.mp (hdecided.lastincmd.symm.trans hlast)
      rw [hdecided.bn, UInt8.toNat_toUInt16]
      exact hdecided.kept _ (hadm.2.2 hread)
    · exact absurd (hbad.symm.trans hbad') (by simp)
  · intro ps htaken hno
    exact hoff.mem.trans (hdenied ps htaken hno).2.2

/-- What is left to the response thread by a byte that is not the last of a frame. -/
def parsed (w : Watched) (m : UInt8) : Watched :=
  ⟨{ w.toChip with base := w.base.process m }, if w.base.AtCommand then w.base.mif.mem else w.entry⟩

theorem Guarded.parsed (h : Guarded w) {m : UInt8} (hok : Permitted w (.byte m))
    (hlock : ¬ w.base.AtLock) :
    Guarded (w.parsed m) ∧ (w.base.process m).executed = w.base.executed := by
  unfold Watched.parsed
  by_cases hat : w.base.AtCommand
  · rw [if_pos hat]
    refine ⟨h.command hat (Option.isNone_iff_eq_none.mp (hok.2.2 hat)) m, ?_⟩
    rw [Pn532Base.process_command hat]
  · rw [if_neg hat]
    by_cases hmid : w.base.MidFrame
    · exact ⟨h.inside hmid hlock hok.1, (Pn532Base.inside hmid hlock m).executed⟩
    · have ht := Pn532Base.heading hmid hat m
      exact ⟨h.heading ht hmid, ht.executed⟩

/-- A byte that is not the last of a frame. -/
theorem Guarded.received (h : Guarded w) {m : UInt8} (hok : Permitted w (.byte m))
    (hlock : ¬ w.base.AtLock) : Served (w.parsed m) (w.step (.byte m)).toChip := by
  have hparsed := (h.parsed hok hlock).1
  show Served (w.parsed m) (w.toChip.receive m)
  unfold Chip.receive
  dsimp only
  rw [Chip.parse_eq hlock, Chip.wake_quiet (by exact hparsed.newcommand)]
  split
  · exact hparsed.drained
  · exact hparsed.served

/-- The last byte of a frame. -/
theorem Guarded.step_lock (h : Guarded w) (hlock : w.base.AtLock) (m : UInt8) :
    w.step (.byte m) = { w with
      base := { w.base.process m with newcommand := false, ack := true, opstate := .ack }
      since := [] } := by
  have ht := Pn532Base.locked hlock m
  have hmid : w.base.MidFrame := Or.inr (Or.inr (Or.inr hlock.2))
  have hnocmd : ¬ w.base.AtCommand := by
    rintro ⟨_, hpd0⟩
    exact absurd (hlock.2.symm.trans hpd0) (by simp)
  have hparse : w.toChip.parse m = { w.toChip with base := w.base.process m, since := [] } := by
    unfold Chip.parse
    rw [if_pos hlock]
  have hfifo : ¬ (w.base.toFifo ≠ [] ∧ (w.base.process m).toFifo = []) := by
    rw [ht.toFifo]
    exact fun hboth => hboth.1 hboth.2
  have hstep : w.toChip.step (.byte m) = { w.toChip with
      base := { w.base.process m with newcommand := false, ack := true, opstate := .ack }
      since := [] } := by
    show w.toChip.receive m = _
    unfold Chip.receive
    dsimp only
    rw [hparse, Chip.wake_none (by exact ht.newcommand) (by exact h.alone hmid),
      if_neg (by exact hfifo)]
  unfold step
  dsimp only
  rw [hstep, if_neg hnocmd]

/-- **Data is changed** in an authenticated block only. -/
theorem Guarded.changed (h : Guarded w) {m : UInt8} {n : Nat}
    (hdata : ((w.base.process m).mif.mem n).data ≠ (w.base.mif.mem n).data) : w.Authenticated n := by
  obtain ⟨hn, p, hwait⟩ := Pn532Base.data_changed hdata
  have hmid : w.base.MidFrame := Or.inl (by rw [hwait]; simp)
  have hcmd : w.base.mif.cmd = 0x40 := by
    by_contra hcmd
    exact h.other hcmd (Or.inr (Or.inr ⟨p, hwait⟩))
  cases h.exch hmid hcmd with
  | begun htop _ _ _ => exact absurd (htop.symm.trans hwait) (by simp)
  | bare hclosing _ _ => exact absurd (hclosing.1.symm.trans hwait) (by simp)
  | header hother _ _ => exact absurd (hother.symm.trans hwait) (by simp)
  | block hother _ _ _ => exact absurd (hother.symm.trans hwait) (by simp)
  | short hother _ _ _ _ =>
    rcases hother with ⟨hflush, _⟩ | hclosing
    · exact absurd (hflush.symm.trans hwait) (by simp)
    · exact absurd (hclosing.1.symm.trans hwait) (by simp)
  | full hother _ hadm hdecided =>
    rcases hother with hflush | ⟨hclosing, _⟩ | ⟨_, _, hwrite⟩
    · exact absurd (hflush.symm.trans hwait) (by simp)
    · exact absurd (hclosing.1.symm.trans hwait) (by simp)
    · refine h.known n ?_
      rw [blocks_exch hmid hcmd, hn, hdecided.bn, UInt8.toNat_toUInt16]
      exact (hadm.2.1 hwrite).2

/-- **A byte of the host.** -/
theorem Guarded.byte (h : Guarded w) {m : UInt8} (hok : Permitted w (.byte m)) :
    Guarded (w.step (.byte m)) ∧ Lawful w (.byte m) := by
  by_cases hlock : w.base.AtLock
  · obtain ⟨hguarded, hleft⟩ := h.lock hlock (hok.2.1 hlock) m []
    have hexec := (Pn532Base.locked hlock m).executed
    have hstep := h.step_lock hlock m
    refine ⟨hstep ▸ hguarded, ?_, ?_, ?_, fun he => nomatch he⟩
    · intro n hdata
      rw [hstep] at hdata
      exact h.changed hdata
    · intro n hn
      rw [hstep] at hn
      exact absurd hn (by simp)
    · rintro _ _ _ ⟨ps, hlast, hno⟩
      rw [hstep] at hlast hno ⊢
      have hlast' : (w.base.process m).executed.getLast? = some (0x40 :: ps) := hlast
      rw [hexec, List.getLast?_concat] at hlast'
      exact hleft ps (Option.some.inj hlast') hno
  · obtain ⟨hparsed, hexec⟩ := h.parsed hok hlock
    have hserved := h.received hok hlock
    obtain ⟨ns, hcarried, hns⟩ := hserved.carried
    refine ⟨hserved.guarded, ?_, ?_, fun _ _ hlock' => absurd hlock' hlock, fun he => nomatch he⟩
    · intro n hdata
      rw [hserved.calm.mem] at hdata
      exact h.changed hdata
    · intro n hn
      rw [hcarried] at hn
      obtain ⟨cmd, hcmd, hauth⟩ := hns n (by rwa [show (w.parsed m).carried = w.carried from rfl,
        List.drop_left] at hn)
      refine ⟨cmd, ?_, hauth⟩
      rw [← hexec]
      exact hcmd

/-- What the thread does by itself is lawful, if what it begins to answer is answered well. -/
theorem Served.lawful {e : Event} (h : Served w (w.step e).toChip) (hbyte : ∀ m, e ≠ .byte m)
    (hanswered : e = .expire → w.Begins → w.Denied → (w.step e).since ++ (w.step e).flat =
      w.since ++ pushframe 0x06 0x41 (w.base.mif.exchanged 0x55)) : Lawful w e := by
  refine ⟨?_, ?_, fun m he => absurd he (hbyte m), hanswered⟩
  · intro n hdata
    rw [h.calm.mem] at hdata
    exact absurd rfl hdata
  · obtain ⟨ns, hcarried, hns⟩ := h.carried
    intro n hn
    rw [hcarried, List.drop_left] at hn
    exact hns n hn

/-- **A denied exchange is answered with a failure.** -/
theorem Guarded.answered (h : Guarded w) (hok : Permitted w .expire) (hbegins : w.Begins)
    (hdenied : w.Denied) : (w.step .expire).since ++ (w.step .expire).flat =
      w.since ++ pushframe 0x06 0x41 (w.base.mif.exchanged 0x55) := by
  obtain ⟨hack, hwriter, hbusy, hresp⟩ := hbegins
  have hout : ¬ w.base.MidFrame := fun hmid => hresp (hok hmid hbusy)
  obtain ⟨hcmd, hbad⟩ :=
    (h.settled hout (Or.inr (Or.inr (Or.inr hbusy))) hwriter).denied hdenied
  have hprogram : w.base.mif.program = some (Mif.exchange 0x55 ++ Mif.closing) := by
    unfold Mif.program
    rw [hcmd, hbad]
    rfl
  have hstep : (w.step .expire).toChip = ({ w.toChip with
      base := { w.base with ack := false, toFifo := [] } }.advance 0
        (Mif.exchange 0x55 ++ Mif.closing)).pour := by
    show w.toChip.step .expire = _
    unfold Chip.step
    dsimp only
    rw [if_pos hack, if_pos (by rw [hwriter]; rfl),
      Chip.respth_begin (by exact hbusy) (by exact hprogram)]
  obtain ⟨bs, hpushed, hrest⟩ := Chip.since_begin
    { w.toChip with base := { w.base with ack := false, toFifo := [] } } 0
    (Mif.exchange 0x55 ++ Mif.closing)
  rw [hstep, hpushed, List.append_assoc, hrest]
  exact congrArg (w.since ++ ·) (Mif.flat_exchange 0x55)

/-- A card is presented: no block is authenticated. -/
theorem Guarded.present (h : Guarded w) {uid : UInt32} (hok : Permitted w (.present uid)) :
    Guarded (w.step (.present uid)) := by
  have hno : ∀ n, ¬ ((w.step (.present uid)).base.mif.mem n).authenticated = true :=
    fun _ => Bool.false_ne_true
  refine ⟨h.newcommand, h.begun, h.alone, fun hmid hcmd => absurd hcmd (hok.1 hmid), h.other,
    Nat.le_refl _, ?_, ?_, fun hread => absurd (hread.symm.trans hok.2) (by simp)⟩
  · intro n hn
    have hblocks : (w.step (.present uid)).blocks = (w.step (.present uid)).base.mif.mem :=
      if_neg fun hboth => hok.1 hboth.1 hboth.2
    rw [hblocks] at hn
    exact absurd hn (hno n)
  · intro hmid hop hwriter
    refine ⟨(h.settled hmid hop hwriter).denied, ?_⟩
    intro _ _ hlast
    have hzero : (0 : UInt16) = 0x30 := hlast
    exact absurd hzero (by decide)

/-- **A step.** -/
theorem Guarded.step (h : Guarded w) {e : Event} (hok : Permitted w e) :
    Guarded (w.step e) ∧ Lawful w e := by
  cases e with
  | byte m => exact h.byte hok
  | read =>
    have hserved : Served w (w.step .read).toChip := by
      show Served w (w.toChip.step .read)
      unfold Chip.step
      dsimp only
      split
      · exact h.served
      · have htail : Served w { w.toChip with base := { w.base with toFifo := w.base.toFifo.tail } } :=
          h.kept Chip.calm_base rfl rfl rfl rfl
        exact htail.trans htail.guarded.drained
    exact ⟨hserved.guarded, hserved.lawful (fun m he => nomatch he) fun he => nomatch he⟩
  | expire =>
    have hserved : Served w (w.step .expire).toChip := by
      show Served w (w.toChip.step .expire)
      unfold Chip.step
      dsimp only
      split
      · have hlost : Served w { w.toChip with base := { w.base with ack := false } } :=
          h.kept Chip.calm_base rfl rfl rfl rfl
        split
        next hnone => exact hlost.trans (hlost.guarded.respth (Option.isNone_iff_eq_none.mp hnone) hok)
        next => exact hlost
      · exact h.served
    exact ⟨hserved.guarded, hserved.lawful (fun m he => nomatch he) fun _ => h.answered hok⟩
  | present uid =>
    refine ⟨h.present hok, ?_, ?_, (fun m he => nomatch he), (fun he => nomatch he)⟩
    · exact fun n hdata => absurd rfl hdata
    · exact fun n hn => absurd hn (by simp [Watched.step, Chip.step])
  | remove =>
    have hserved : Served w (w.step .remove).toChip := by
      have hcalm : Chip.Calm w.toChip (w.step .remove).toChip :=
        ⟨rfl, rfl, rfl, rfl, rfl, rfl, rfl, rfl, rfl, rfl, rfl, fun _ => rfl⟩
      exact h.kept hcalm rfl rfl rfl rfl
    exact ⟨hserved.guarded, hserved.lawful (fun m he => nomatch he) fun he => nomatch he⟩

theorem guarded_start (m : Mif) : Guarded (start m) := by
  have hout : ¬ (start m).base.MidFrame := by
    rintro (h | h | h | h)
    · exact h rfl
    all_goals cases h
  refine ⟨rfl, fun hmid => absurd hmid hout, fun _ => rfl, fun hmid => absurd hmid hout,
    fun _ => Pn532Base.cardWait_top, Nat.le_refl _, ?_, ?_, fun hread => nomatch hread⟩
  · intro n hn
    rw [blocks_out hout] at hn
    exact nomatch hn
  · rintro _ (hop | hop | hop | hop) <;> cases hop

/-- **Access control.** In every run, with the bytes of the host, its reads, the expiries and the cards
in any order, in which every exchange with a full header is allowed and one without parameters is marked
bad (by a command before it, the parser does not look at it), no response waits for room when a command
byte comes or begins in the middle of a frame, and no card is presented in the middle of an exchange or
of a response with data: data of a block is changed or read for a response only if the block was
authenticated after the card was presented, and an exchange that is not allowed has left the blocks as
they were and is answered with a failure. -/
theorem access_controlled (m : Mif) (es : List Event) (h : Throughout Permitted step (start m) es) :
    Throughout Lawful step (start m) es :=
  throughout_of_invariant (I := Guarded) (fun _ _ hg hok => (hg.step hok).1)
    (fun _ _ hg hok => (hg.step hok).2) es (start m) (guarded_start m) h

/-- The acknowledge is read, and the response is begun. -/
def acked : List Event :=
  Event.expire :: List.replicate 6 Event.read ++ ([.expire] : List Event)

/-- A card is presented and a block of it is read. -/
def readBlock : List Event :=
  Chip.sends [0x00, 0x00, 0xFF, 0x05, 0xFB, 0xD4, 0x40, 0x01, 0x30, 0x04, 0x00, 0x00] ++
    Event.expire :: List.replicate 6 Event.read

/-- A block is authenticated and read. -/
theorem access_controlled_read : Throughout Lawful step (start Mif.zero)
    (.present 0x12345678 ::
      Chip.sends [0x00, 0x00, 0xFF, 0x0F, 0xF1, 0xD4, 0x40, 0x01, 0x60, 0x04, 0xFF, 0xFF, 0xFF, 0xFF,
        0xFF, 0xFF, 0x12, 0x34, 0x56, 0x78, 0x00, 0x00] ++ acked ++ readBlock ++ [Event.expire, .read]) :=
  access_controlled Mif.zero _ (by decide +kernel)

/-- **A block that was not authenticated** is read like one that was. -/
theorem read_unauthenticated : ¬ Throughout Lawful step (start Mif.zero)
    (.present 0x12345678 :: readBlock ++ [Event.expire]) := by
  intro h
  have hlast := ((throughout_append _ [Event.expire] _).mp h).2.1
  generalize hw : (Event.present 0x12345678 :: readBlock).foldl step (start Mif.zero) = w at hlast
  have hread : 4 ∈ (w.step .expire).carried.drop w.carried.length := by
    rw [← hw]
    decide +kernel
  have hexec : w.base.executed.drop w.before = [[0x40, 0x01, 0x30, 0x04]] := by
    rw [← hw]
    decide +kernel
  obtain ⟨cmd, hcmd, tg, block, more, hauth, _⟩ := hlast.carried 4 hread
  rw [hexec, List.mem_singleton] at hcmd
  rw [hcmd] at hauth
  simp at hauth

end Watched

end Espmod.Pn532
