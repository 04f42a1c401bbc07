/-
# Espmod.Pn532.Ordering — an acknowledge and a response for each command

The response thread answers the command that is in `mif` when its delays are over. The parser puts the
command byte of the next frame there, and the thread clears it when a response has been written. So a
response that begins in the middle of a frame answers the wrong command, and one that still waits for
room when the next command byte comes clears that. Where neither happens, what is pushed after a command
was executed is its acknowledge and then its response.
-/
import Espmod.Lib.Run
import Espmod.Pn532.Writer

namespace Espmod.Pn532

open Espmod.Lib
open Espmod.Lib.Text (Bytes)

/-! ## §1 — where in a frame the parser is -/

namespace Pn532Base

/-- Between the command byte of a frame and its end. -/
def MidFrame (s : Pn532Base) : Prop :=
  s.wait ≠ .top ∨ s.pn532state = .pdn ∨ s.pn532state = .dcs ∨ s.pn532state = .lock

instance (s : Pn532Base) : Decidable s.MidFrame := inferInstanceAs (Decidable (_ ∨ _))

/-- The next byte is a command byte. -/
def AtCommand (s : Pn532Base) : Prop := s.wait = .top ∧ s.pn532state = .pd0

instance (s : Pn532Base) : Decidable s.AtCommand := inferInstanceAs (Decidable (_ ∧ _))

/-- A byte leaves the response thread and the card alone. -/
structure Apart (s t : Pn532Base) : Prop where
  toFifo : t.toFifo = s.toFifo
  opstate : t.opstate = s.opstate
  ack : t.ack = s.ack
  tags : t.mif.tags = s.mif.tags
  uidLength : t.mif.uidLength = s.mif.uidLength

/-- A byte in front of the command byte. -/
structure Heading (s t : Pn532Base) : Prop extends Apart s t where
  mif : t.mif = { s.mif with len := t.mif.len }
  newcommand : t.newcommand = s.newcommand
  executed : t.executed = s.executed
  mid : ¬ t.MidFrame

/-- A byte behind the command byte that is not the last. -/
structure Inside (s t : Pn532Base) : Prop extends Apart s t where
  cmd : t.mif.cmd = s.mif.cmd
  newcommand : t.newcommand = s.newcommand
  executed : t.executed = s.executed
  taken : s.taken <+: t.taken
  mid : t.MidFrame

variable {s : Pn532Base}

theorem heading (hmid : ¬ s.MidFrame) (hcmd : ¬ s.AtCommand) (m : UInt8) :
    Heading s (s.process m) := by
  unfold MidFrame at hmid
  push Not at hmid
  obtain ⟨hwait, hpdn, hdcs, hlock⟩ := hmid
  have hout : ∀ {t : Pn532Base}, t.wait = .top → t.pn532state ≠ .pdn → t.pn532state ≠ .dcs →
      t.pn532state ≠ .lock → ¬ t.MidFrame := by
    intro t h₁ h₂ h₃ h₄ hmid
    rcases hmid with h | h | h | h
    · exact h h₁
    · exact h₂ h
    · exact h₃ h
    · exact h₄ h
  rw [process_top hwait, top]
  cases hstate : s.pn532state with
  | pdn => exact absurd hstate hpdn
  | dcs => exact absurd hstate hdcs
  | lock => exact absurd hstate hlock
  | pd0 => exact absurd ⟨hwait, hstate⟩ hcmd
  | unlock3 =>
    exact ⟨⟨rfl, rfl, rfl, rfl, rfl⟩, rfl, rfl, rfl, hout hwait (by simp) (by simp) (by simp)⟩
  | unlock2 =>
    dsimp only
    split_ifs <;>
      exact ⟨⟨rfl, rfl, rfl, rfl, rfl⟩, rfl, rfl, rfl, hout hwait (by simp) (by simp) (by simp)⟩
  | _ =>
    dsimp only
    split <;>
      exact ⟨⟨rfl, rfl, rfl, rfl, rfl⟩, rfl, rfl, rfl, hout hwait (by simp) (by simp) (by simp)⟩

/-- **The command byte.** -/
theorem process_command (h : s.AtCommand) (m : UInt8) :
    s.process m = { s with
      mif := { s.mif with cmd := m, len := s.mif.len - 1 }, taken := [m]
      pn532state := if s.mif.len - 1 = 0 then .dcs else .pdn
      cksum := s.cksum + m + s.toFifo.sum, toFifo := [] } := by
  rw [process_top h.1, top, h.2]

theorem inside (hmid : s.MidFrame) (hlock : ¬ s.AtLock) (m : UInt8) : Inside s (s.process m) := by
  have hinner : Inner (s.added m) (s.process m) →
      ((s.process m).wait = .top → (s.process m).pn532state = .dcs) →
      (s.process m).executed = s.executed → (s.process m).taken = s.taken ++ [m] →
      Inside s (s.process m) := by
    intro h htop hexec htaken
    refine ⟨⟨h.toFifo, h.opstate, h.ack, h.tags, h.uidLength⟩, h.cmd, h.newcommand, hexec, ?_, ?_⟩
    · rw [htaken]
      exact List.prefix_append _ _
    · by_cases hwait : (s.process m).wait = .top
      · exact Or.inr (Or.inr (Or.inl (htop hwait)))
      · exact Or.inl hwait
  have hl : Loaded s.executed s.taken s.mif.len s := ⟨rfl, rfl, rfl⟩
  by_cases hwait : s.wait = .top
  · rcases hmid with h | h | h | h
    · exact absurd hwait h
    · have hat : At .pdn s.executed s := ⟨hwait, h, rfl⟩
      have hwithin : Within False _ _ _ _ := hat.pdn hl m fun hfalse => hfalse.elim
      exact hinner (inner_pdn hat m) (fun htop => (hwithin.top htop).1) hwithin.loaded.executed
        hwithin.loaded.taken
    · rw [process_top hwait, top, h]
      dsimp only
      split <;>
        exact ⟨⟨rfl, rfl, rfl, rfl, rfl⟩, rfl, rfl, rfl, List.prefix_refl _,
          Or.inr (Or.inr (Or.inr rfl))⟩
    · exact absurd ⟨hwait, h⟩ hlock
  · have hwithin : Within False s.executed s.taken s.mif.len s :=
      ⟨hl, fun htop => absurd htop hwait, fun _ hfalse => hfalse.elim⟩
    have hnext := hwithin.process hwait m
    exact hinner (inner_inside hwait m) (fun htop => (hnext.top htop).1) hnext.loaded.executed
      hnext.loaded.taken

/-- The last byte of a frame. -/
structure Locked (s t : Pn532Base) : Prop extends Apart s t where
  cmd : t.mif.cmd = s.mif.cmd
  cmdbad : t.mif.cmdbad = s.mif.cmdbad
  newcommand : t.newcommand = true
  executed : t.executed = s.executed ++ [s.taken]
  mid : ¬ t.MidFrame

theorem locked (h : s.AtLock) (m : UInt8) : Locked s (s.process m) := by
  have hexec : ∀ t : Pn532Base, t.execute.mif.cmd = t.mif.cmd ∧
      t.execute.mif.cmdbad = t.mif.cmdbad ∧ t.execute.mif.tags = t.mif.tags ∧
        t.execute.mif.uidLength = t.mif.uidLength := by
    intro t
    unfold execute
    dsimp only
    split_ifs <;> exact ⟨rfl, rfl, rfl, rfl⟩
  have hout : ∀ {t : Pn532Base}, t.wait = .top → t.pn532state = .idle → ¬ t.MidFrame := by
    intro t hwait hstate hmid
    rcases hmid with h | h | h | h
    · exact h hwait
    all_goals exact absurd (hstate.symm.trans h) (by simp)
  rw [process_top h.1, top, h.2]
  dsimp only
  split
  · obtain ⟨hcmd, hbad, htags, huid⟩ := hexec
      { { s with cksum := s.cksum + m }.warn .relock with pn532state := .idle }
    exact ⟨⟨rfl, rfl, rfl, htags, huid⟩, hcmd, hbad, rfl, rfl, hout h.1 rfl⟩
  · obtain ⟨hcmd, hbad, htags, huid⟩ := hexec { s with cksum := s.cksum + m, pn532state := .idle }
    exact ⟨⟨rfl, rfl, rfl, htags, huid⟩, hcmd, hbad, rfl, rfl, hout h.1 rfl⟩

end Pn532Base

/-! ## §2 — answers -/

/-- The commands that `process_th` accepts by name. `pushresp` has a response for all of them but the
last, RFConfiguration. -/
def Supported (cmd : UInt8) : Prop := cmd = 0x4a ∨ cmd = 0x14 ∨ cmd = 0x02 ∨ cmd = 0x40 ∨ cmd = 0x32

instance (cmd : UInt8) : Decidable (Supported cmd) := inferInstanceAs (Decidable (_ ∨ _))

/-- The response for a command: a frame with its code plus one, or a syntax error for a code that is not
supported. -/
def Answers (cmd : UInt8) (resp : Bytes) : Prop :=
  if Supported cmd then ∃ packet, resp = pushframe (packet.length + 2) (cmd + 1) packet
  else resp = pushsyntaxerr

namespace Mif

variable {m : Mif}

/-- There is no card, or one with an identifier of four bytes. -/
def OneCard (m : Mif) : Prop := m.tags = 0 ∨ m.tags = 1 ∧ m.uidLength = 4

/-- With a card there is one, and its identifier has four bytes. -/
theorem OneCard.one (h : m.OneCard) (htags : m.tags > 0) : m.tags = 1 ∧ m.uidLength = 4 := by
  rcases h with hzero | hone
  · rw [hzero] at htags
    exact absurd htags (UInt8.lt_irrefl 0)
  · exact hone

/-- The command is not RFConfiguration, and a supported one is not marked bad, unless it brings its own
failure status. -/
def Accepted (m : Mif) : Prop :=
  m.cmd ≠ 0x32 ∧ (m.cmd = 0x4a ∨ m.cmd = 0x14 ∨ m.cmd = 0x02 → m.cmdbad = false)

instance (m : Mif) : Decidable m.Accepted := inferInstanceAs (Decidable (_ ∧ _))

theorem answers_frame {cmd : UInt8} (h : Supported cmd) {len : Nat} {code : UInt8} {packet : Bytes}
    (hlen : len = packet.length + 2) (hcode : code = cmd + 1) :
    Answers cmd (pushframe len code packet) := by
  unfold Answers
  rw [if_pos h]
  exact ⟨packet, by rw [hlen, hcode]⟩

/-- **What `pushresp` writes answers the command in `mif`.** -/
theorem pushresp_answers (hcard : m.OneCard) (hacc : m.Accepted) {resp : Bytes}
    (h : m.pushresp = some resp) : Answers m.cmd resp := by
  have hway := m.replies
  rw [pushresp_reply] at h
  generalize m.reply = reply at h hway
  cases hway with
  | targets hcmd _ htags =>
    obtain ⟨hone, huid⟩ := hcard.one htags
    obtain rfl := Option.some.inj h
    refine answers_frame (Or.inl hcmd) ?_ (by rw [hcmd]; rfl)
    simp [targets, hone, huid]
  | again _ => cases h
  | nobody hcmd _ =>
    obtain rfl := Option.some.inj h
    exact answers_frame (Or.inl hcmd) rfl (by rw [hcmd]; rfl)
  | configured hcmd _ =>
    obtain rfl := Option.some.inj h
    exact answers_frame (Or.inr (Or.inl hcmd)) rfl (by rw [hcmd]; rfl)
  | firmware hcmd _ =>
    obtain rfl := Option.some.inj h
    exact answers_frame (Or.inr (Or.inr (Or.inl hcmd))) rfl (by rw [hcmd]; rfl)
  | exchanged hcmd status =>
    obtain rfl := Option.some.inj h
    exact answers_frame (Or.inr (Or.inr (Or.inr (Or.inl hcmd)))) rfl (by rw [hcmd]; rfl)
  | block hcmd _ _ =>
    obtain rfl := Option.some.inj h
    exact answers_frame (Or.inr (Or.inr (Or.inr (Or.inl hcmd)))) (by simp) (by rw [hcmd]; rfl)
  | syntaxerr hcmd hbad =>
    -- a command that is not marked bad has another way
    have hmarked : ¬ (m.cmd = 0x4a ∨ m.cmd = 0x14 ∨ m.cmd = 0x02) := fun hsupp =>
      Bool.false_ne_true ((hacc.2 hsupp).symm.trans (hbad hsupp))
    have hno : ¬ Supported m.cmd := by
      rintro (hlist | hsam | hfirm | hexch | hrf)
      · exact hmarked (Or.inl hlist)
      · exact hmarked (Or.inr (Or.inl hsam))
      · exact hmarked (Or.inr (Or.inr hfirm))
      · exact hcmd hexch
      · exact hacc.1 hrf
    unfold Answers
    rw [if_neg hno]
    exact (Option.some.inj h).symm

end Mif

/-! ## §3 — runs -/

namespace Chip

open Pn532Base (Event)

/-- The code of the command that was executed last. -/
def code (c : Chip) : Option UInt8 := c.base.executed.getLast?.bind List.head?

/-- **One acknowledge and one response**: since a command was executed nothing was pushed and its
acknowledge is due, or its acknowledge was pushed and so much of one response for it. -/
def Ordered (c : Chip) : Prop :=
  ∀ cmd ∈ c.code, c.since = [] ∧ c.base.opstate = .ack ∧ c.base.ack = true ∨
    ∃ resp part, Answers cmd resp ∧ part <+: resp ∧ c.since = pushack ++ part

/-- When a command byte comes no response waits for room, and no response begins between the command
byte and the end of a frame; a supported command is not rejected. Cards come and go while no response
waits. -/
def InOrder (c : Chip) : Event → Prop
  | .byte _ =>
    (c.base.AtCommand → c.writer.isNone = true) ∧ (c.base.AtLock → c.base.mif.Accepted)
  | .read => True
  | .expire => c.base.MidFrame → c.base.opstate = .busy → c.base.mif.pushresp = none
  | .present _ => c.writer.isNone = true
  | .remove => c.writer.isNone = true

instance (c : Chip) : ∀ e, Decidable (InOrder c e)
  | .byte _ => inferInstanceAs (Decidable (_ ∧ _))
  | .read => inferInstanceAs (Decidable True)
  | .expire => inferInstanceAs (Decidable (_ → _))
  | .present _ => inferInstanceAs (Decidable (_ = true))
  | .remove => inferInstanceAs (Decidable (_ = true))

/-- The command that was executed last is still in `mif`, as it was then, unless the next has begun. -/
def Held (c : Chip) (cmd : UInt8) : Prop :=
  ¬ c.base.MidFrame → c.base.mif.cmd = cmd ∧ c.base.mif.Accepted

/-- How far the answer to a command has come. -/
inductive Stage (c : Chip) (cmd : UInt8) : Prop where
  /-- the acknowledge is due -/
  | due (hop : c.base.opstate = .ack) (hack : c.base.ack = true) (hsince : c.since = [])
      (hwriter : c.writer = none) (hheld : Held c cmd)
  /-- the acknowledge was pushed -/
  | acked (hop : c.base.opstate = .ackRdout ∨ c.base.opstate = .predelay ∨ c.base.opstate = .busy)
      (hsince : c.since = pushack) (hwriter : c.writer = none) (hheld : Held c cmd)
  /-- a response waits for room -/
  | writing {w : Writer} {part : Bytes} (hop : c.base.opstate = .busy) (hwriter : c.writer = some w)
      (hans : Answers cmd (part ++ c.flat)) (hsince : c.since = pushack ++ part)
      (hmid : ¬ c.base.MidFrame)
  /-- the response was pushed -/
  | answered {resp : Bytes} (hop : c.base.opstate = .readout ∨ c.base.opstate = .idle)
      (hwriter : c.writer = none) (hans : Answers cmd resp) (hsince : c.since = pushack ++ resp)

/-- What holds in every state of such a run. -/
structure Lined (c : Chip) : Prop where
  newcommand : c.base.newcommand = false
  card : c.base.mif.OneCard
  /-- the command byte of the frame that has begun -/
  begun : c.base.MidFrame → c.base.taken.head? = some c.base.mif.cmd
  quiet : c.code = none → c.base.opstate = .off ∧ c.base.ack = false ∧ c.writer = none
  stage : ∀ cmd ∈ c.code, Stage c cmd

variable {c : Chip} {cmd : UInt8} {w : Writer}

theorem Stage.ordered (h : Stage c cmd) : c.since = [] ∧ c.base.opstate = .ack ∧ c.base.ack = true ∨
    ∃ resp part, Answers cmd resp ∧ part <+: resp ∧ c.since = pushack ++ part := by
  cases h with
  | due hop hack hsince _ _ => exact Or.inl ⟨hsince, hop, hack⟩
  | acked _ hsince _ _ =>
    have hsome : ∃ resp, Answers cmd resp := by
      unfold Answers
      split
      · exact ⟨_, [], rfl⟩
      · exact ⟨_, rfl⟩
    obtain ⟨resp, hans⟩ := hsome
    exact Or.inr ⟨resp, [], hans, List.nil_prefix, by rw [hsince, List.append_nil]⟩
  | writing _ _ hans hsince _ => exact Or.inr ⟨_, _, hans, List.prefix_append _ _, hsince⟩
  | answered _ _ hans hsince => exact Or.inr ⟨_, _, hans, List.prefix_refl _, hsince⟩

theorem Lined.writer_none (h : Lined c) (hmid : c.base.MidFrame) : c.writer = none := by
  cases hcode : c.code with
  | none => exact (h.quiet hcode).2.2
  | some cmd =>
    cases h.stage cmd hcode with
    | due _ _ _ hwriter _ => exact hwriter
    | acked _ _ hwriter _ => exact hwriter
    | writing _ _ _ _ hout => exact absurd hmid hout
    | answered _ hwriter _ _ => exact hwriter

theorem code_congr {c d : Chip} (h : d.base.executed = c.base.executed) : d.code = c.code := by
  unfold code
  rw [h]

/-- **A response that goes on** is answered, or waits again. -/
theorem Stage.poured {d : Chip} {p : Bytes} (hop : c.base.opstate = .busy)
    (hmid : ¬ c.base.MidFrame) (hp : Poured c d) (hans : Answers cmd (p ++ d.flat))
    (hsince : d.since = pushack ++ p) : Stage d cmd := by
  cases hp with
  | waits hwriter hbase =>
    refine .writing ?_ hwriter hans hsince ?_
    · rw [hbase]
      exact hop
    · rw [hbase]
      exact hmid
  | done hwriter hbase =>
    rw [flat_none hwriter, List.append_nil] at hans
    refine .answered (Or.inl ?_) hwriter hans hsince
    rw [hbase]

/-- What the thread keeps while it writes a response. -/
theorem Lined.poured {d : Chip} (h : Lined c) (hmid : ¬ c.base.MidFrame) (hp : Poured c d)
    (hcode : c.code ≠ none) (hstage : ∀ cmd ∈ c.code, Stage d cmd) : Lined d := by
  have hkeep : d.base.newcommand = c.base.newcommand ∧ d.base.mif.tags = c.base.mif.tags ∧
      d.base.mif.uidLength = c.base.mif.uidLength ∧ d.base.executed = c.base.executed ∧
        (d.base.MidFrame → c.base.MidFrame) := by
    cases hp with
    | waits _ hbase =>
      rw [hbase]
      exact ⟨rfl, rfl, rfl, rfl, fun hmid => hmid⟩
    | done _ hbase =>
      rw [hbase]
      exact ⟨rfl, rfl, rfl, rfl, fun hmid => hmid⟩
  obtain ⟨hnew, htags, huid, hexec, hin⟩ := hkeep
  have hsame : d.code = c.code := code_congr hexec
  refine ⟨hnew.trans h.newcommand, ?_, fun hmid' => absurd (hin hmid') hmid, ?_, ?_⟩
  · unfold Mif.OneCard
    rw [htags, huid]
    exact h.card
  · rw [hsame]
    exact fun hnone => absurd hnone hcode
  · rw [hsame]
    exact hstage

/-- The parser and the command are as they were. -/
structure Steady (c d : Chip) : Prop where
  cmd : d.base.mif.cmd = c.base.mif.cmd
  cmdbad : d.base.mif.cmdbad = c.base.mif.cmdbad
  tags : d.base.mif.tags = c.base.mif.tags
  uidLength : d.base.mif.uidLength = c.base.mif.uidLength
  wait : d.base.wait = c.base.wait
  state : d.base.pn532state = c.base.pn532state
  taken : d.base.taken = c.base.taken
  executed : d.base.executed = c.base.executed
  newcommand : d.base.newcommand = c.base.newcommand

theorem Steady.mid {d : Chip} (h : Steady c d) : d.base.MidFrame ↔ c.base.MidFrame := by
  unfold Pn532Base.MidFrame
  rw [h.wait, h.state]

theorem Steady.held {d : Chip} (h : Steady c d) (hheld : Held c cmd) : Held d cmd := by
  intro hmid
  obtain ⟨hcmd, hacc⟩ := hheld (h.mid.not.mp hmid)
  refine ⟨h.cmd.trans hcmd, ?_⟩
  unfold Mif.Accepted
  rw [h.cmd, h.cmdbad]
  exact hacc

theorem Steady.lined {d : Chip} (h : Steady c d) (hl : Lined c)
    (hquiet : c.code = none → d.base.opstate = .off ∧ d.base.ack = false ∧ d.writer = none)
    (hstage : ∀ cmd ∈ c.code, Stage d cmd) : Lined d := by
  have hcode : d.code = c.code := code_congr h.executed
  refine ⟨h.newcommand.trans hl.newcommand, ?_, ?_, ?_, ?_⟩
  · unfold Mif.OneCard
    rw [h.tags, h.uidLength]
    exact hl.card
  · intro hmid
    rw [h.taken, h.cmd]
    exact hl.begun (h.mid.mp hmid)
  · rw [hcode]
    exact hquiet
  · rw [hcode]
    exact hstage

/-- A change of the response thread alone. -/
theorem steady_base {c d : Chip} {op : Op} {ack : Bool} {fifo : Bytes}
    (h : d.base = { c.base with opstate := op, ack := ack, toFifo := fifo }) : Steady c d := by
  constructor <;> rw [h]

/-- A change that leaves the parser and the command, to another stage of the answer. -/
theorem Steady.staged {d : Chip} (hs : Steady c d) (h : Lined c) (hcode : c.code = some cmd)
    (hst : Stage d cmd) : Lined d := by
  refine hs.lined h (fun hfalse => absurd (hfalse.symm.trans hcode) (by simp)) ?_
  rw [hcode]
  intro cmd' hcmd'
  obtain rfl : cmd = cmd' := Option.some.inj hcmd'
  exact hst

/-- **A response begins**, with the queue flushed: it is for the command that was acknowledged. -/
theorem Lined.begins (h : Lined c) (hcode : c.code = some cmd) (hbusy : c.base.opstate = .busy)
    (hacked : c.since = pushack) (hnone : c.writer = none) (hheld : Held c cmd)
    (hbegin : c.base.MidFrame → c.base.mif.pushresp = none) {ps : List Put}
    (hprogram : c.base.mif.program = some ps) :
    Lined (({ c with base := { c.base with ack := false, toFifo := [] } } : Chip).advance 0 ps).pour := by
  have hresp : c.base.mif.pushresp = some (c.base.mif.flat 0 ps) := by
    rw [← Mif.program_flat, hprogram]
    rfl
  have hmid : ¬ c.base.MidFrame := by
    intro hmid
    exact absurd ((hbegin hmid).symm.trans hresp) (by simp)
  obtain ⟨hcmd, hacc⟩ := hheld hmid
  have hans : Answers cmd (c.base.mif.flat 0 ps) := hcmd ▸ Mif.pushresp_answers h.card hacc hresp
  generalize hflushed : ({ c with base := { c.base with ack := false, toFifo := [] } } : Chip) = d
  have hs : Steady c d := by
    rw [← hflushed]
    exact ⟨rfl, rfl, rfl, rfl, rfl, rfl, rfl, rfl, rfl⟩
  have hop : d.base.opstate = .busy := by rw [← hflushed]; exact hbusy
  have hmif : d.base.mif = c.base.mif := by rw [← hflushed]
  have hsince : d.since = pushack := by rw [← hflushed]; exact hacked
  have hwriter : d.writer = none := by rw [← hflushed]; exact hnone
  have hempty : Lined d :=
    hs.staged h hcode (.acked (Or.inr (Or.inr hop)) hsince hwriter (hs.held hheld))
  have hout := hs.mid.not.mpr hmid
  have hp := poured_begin d 0 ps
  obtain ⟨bs, hpushed, hrest⟩ := since_begin d 0 ps
  rw [hmif] at hrest
  refine hempty.poured hout hp (by rw [code_congr hs.executed, hcode]; simp) ?_
  rw [code_congr hs.executed, hcode]
  intro cmd' hcmd'
  obtain rfl : cmd = cmd' := Option.some.inj hcmd'
  exact Stage.poured hop hout hp (hrest ▸ hans) (hpushed.trans (congrArg (· ++ bs) hsince))

/-- **The response thread is woken** by its timer, or by a queue that was read empty. -/
theorem Lined.respth (h : Lined c) (hwriter : c.writer = none)
    (hbegin : c.base.MidFrame → c.base.opstate = .busy → c.base.mif.pushresp = none) :
    Lined ({ c with base := { c.base with ack := false } } : Chip).respth := by
  generalize hc₁ : ({ c with base := { c.base with ack := false } } : Chip) = c₁
  have hop : c₁.base.opstate = c.base.opstate := by rw [← hc₁]
  have hmif : c₁.base.mif = c.base.mif := by rw [← hc₁]
  have hnone : c₁.writer = none := by rw [← hc₁]; exact hwriter
  have hsince : c₁.since = c.since := by rw [← hc₁]
  have hsteady : Steady c c₁ := by rw [← hc₁]; exact ⟨rfl, rfl, rfl, rfl, rfl, rfl, rfl, rfl, rfl⟩
  cases hcode : c.code with
  | none =>
    have hoff := (h.quiet hcode).1
    have hstop : c₁.respth = c₁ := by
      rw [respth_other (by rw [hop, hoff]; simp) (by rw [hop, hoff]; simp)]
      unfold Pn532Base.respth
      rw [hop, hoff]
    rw [hstop]
    refine hsteady.lined h (fun _ => ⟨hop.trans hoff, by rw [← hc₁], hnone⟩) ?_
    rw [hcode]
    exact fun _ hsome => absurd hsome (by simp)
  | some cmd =>
    cases h.stage cmd hcode with
    | due hop' _ hempty _ hheld =>
      rw [respth_ack (hop.trans hop')]
      have hbase : c₁.base.respth =
          { c₁.base with toFifo := pushack, opstate := .ackRdout } := by
        unfold Pn532Base.respth
        rw [hop, hop']
      rw [hbase]
      have hs : Steady c ⟨{ c₁.base with toFifo := pushack, opstate := .ackRdout }, c₁.writer,
          c₁.since ++ pushack, c₁.carried, c₁.before⟩ := by
        rw [← hc₁]
        exact steady_base rfl
      refine hs.staged h hcode (.acked (Or.inl rfl) ?_ hnone (hs.held hheld))
      dsimp only
      rw [hsince, hempty]
      rfl
    | acked hop' hacked _ hheld =>
      have hgo : ∀ op ack, op = .predelay ∨ op = .busy →
          Lined { c₁ with base := { c₁.base with opstate := op, ack := ack } } := by
        intro op ack hop''
        have hs : Steady c { c₁ with base := { c₁.base with opstate := op, ack := ack } } := by
          rw [← hc₁]
          exact steady_base rfl
        exact hs.staged h hcode (.acked (Or.inr hop'') (hsince.trans hacked) hnone (hs.held hheld))
      rcases hop' with hrdout | hdelay | hbusy
      · rw [respth_other (by rw [hop, hrdout]; simp) (by rw [hop, hrdout]; simp)]
        unfold Pn532Base.respth
        rw [hop, hrdout]
        dsimp only
        split
        · exact hgo .predelay true (Or.inl rfl)
        · exact hgo .busy true (Or.inr rfl)
      · rw [respth_other (by rw [hop, hdelay]; simp) (by rw [hop, hdelay]; simp)]
        unfold Pn532Base.respth
        rw [hop, hdelay]
        exact hgo .busy true (Or.inr rfl)
      · cases hprogram : c₁.base.mif.program with
        | none =>
          rw [respth_retry (hop.trans hbusy) hprogram]
          have hs : Steady c { c₁ with
              base := { c₁.base with toFifo := [], mif := c₁.base.mif.retry, ack := true } } := by
            rw [← hc₁]
            exact ⟨rfl, rfl, rfl, rfl, rfl, rfl, rfl, rfl, rfl⟩
          exact hs.staged h hcode (.acked (Or.inr (Or.inr (hop.trans hbusy))) (hsince.trans hacked) hnone
            (hs.held hheld))
        | some ps =>
          rw [respth_begin (hop.trans hbusy) hprogram, ← hc₁]
          exact h.begins hcode hbusy hacked hwriter hheld (fun hmid => hbegin hmid hbusy)
            (hmif ▸ hprogram)
    | writing _ hsome _ _ _ => exact absurd (hwriter.symm.trans hsome) (by simp)
    | answered hop' _ hans hdone =>
      rw [respth_other (by rw [hop]; rcases hop' with h | h <;> simp [h])
        (by rw [hop]; rcases hop' with h | h <;> simp [h])]
      have hs : Steady c { c₁ with base := { c₁.base with opstate := .idle } } := by
        rw [← hc₁]
        exact steady_base rfl
      have hidle := hs.staged h hcode (.answered (Or.inr rfl) hnone hans (hsince.trans hdone))
      unfold Pn532Base.respth
      rcases hop' with hrdout | hidle'
      · rw [hop, hrdout]
        exact hidle
      · rw [hop, hidle']
        exact hsteady.staged h hcode (.answered (Or.inr (hop.trans hidle')) hnone hans
          (hsince.trans hdone))

/-- Something was read from the queue. -/
theorem Lined.drained (h : Lined c) : Lined c.drained := by
  unfold Chip.drained
  by_cases hsome : c.writer.isSome = true
  · rw [if_pos hsome]
    obtain ⟨w, hwriter⟩ := Option.isSome_iff_exists.mp hsome
    have hno : c.writer ≠ none := by rw [hwriter]; simp
    have hmid : ¬ c.base.MidFrame := fun hmid => hno (h.writer_none hmid)
    have hcode : c.code ≠ none := fun hnone => hno (h.quiet hnone).2.2
    refine h.poured hmid (poured_pour hwriter) hcode ?_
    intro cmd hcmd
    cases h.stage cmd hcmd with
    | due _ _ _ hnone _ => exact absurd hnone hno
    | acked _ _ hnone _ => exact absurd hnone hno
    | answered _ hnone _ _ => exact absurd hnone hno
    | @writing w' part hop _ hans hsince _ =>
      obtain ⟨bs, hpushed, hrest⟩ := since_pourN (Pn532Base.toSize - c.base.toFifo.length) c
      refine Stage.poured hop hmid (poured_pour hwriter) (p := part ++ bs) ?_ ?_
      · rw [List.append_assoc]
        show Answers cmd (part ++ (bs ++ (c.pourN _).flat))
        rw [hrest]
        exact hans
      · show (c.pourN _).since = _
        rw [hpushed, hsince, List.append_assoc]
  · rw [if_neg hsome]
    split
    next hdone =>
      refine h.respth (Option.not_isSome_iff_eq_none.mp hsome) ?_
      intro _ hbusy
      rw [hbusy] at hdone
      exact absurd hdone.2 (by simp)
    next => exact h

theorem parse_eq (hlock : ¬ c.base.AtLock) (m : UInt8) :
    c.parse m = { c with base := c.base.process m } := by
  unfold Chip.parse
  rw [if_neg hlock]

/-- A byte of a frame that has begun, with no response that waits. -/
theorem Lined.within (h : Lined c) (hwriter : c.writer = none) {t : Pn532Base}
    (hapart : t.opstate = c.base.opstate ∧ t.ack = c.base.ack ∧ t.mif.tags = c.base.mif.tags ∧
      t.mif.uidLength = c.base.mif.uidLength)
    (hnew : t.newcommand = c.base.newcommand) (hexec : t.executed = c.base.executed)
    (hmid : t.MidFrame) (hbegun : t.taken.head? = some t.mif.cmd) : Lined { c with base := t } := by
  obtain ⟨hop, hack, htags, huid⟩ := hapart
  have hcode : ({ c with base := t } : Chip).code = c.code := code_congr hexec
  refine ⟨hnew.trans h.newcommand, ?_, fun _ => hbegun, ?_, ?_⟩
  · unfold Mif.OneCard
    dsimp only
    rw [htags, huid]
    exact h.card
  · rw [hcode]
    dsimp only
    rw [hop, hack]
    exact h.quiet
  · rw [hcode]
    intro cmd hcmd
    have hheld : Held { c with base := t } cmd := fun hout => absurd hmid hout
    cases h.stage cmd hcmd with
    | due hop' hack' hsince _ _ => exact .due (hop.trans hop') (hack.trans hack') hsince hwriter hheld
    | acked hop' hsince _ _ => exact .acked (hop ▸ hop') hsince hwriter hheld
    | writing _ hsome _ _ _ => exact absurd (hwriter.symm.trans hsome) (by simp)
    | answered hop' _ hans hsince => exact .answered (hop ▸ hop') hwriter hans hsince

/-- A byte in front of the command byte; a response may wait. -/
theorem Lined.heading (h : Lined c) {t : Pn532Base} (ht : Pn532Base.Heading c.base t)
    (hmid : ¬ c.base.MidFrame) : Lined { c with base := t } := by
  have hcode : ({ c with base := t } : Chip).code = c.code := code_congr ht.executed
  have hcmd : t.mif.cmd = c.base.mif.cmd := by rw [ht.mif]
  have hbad : t.mif.cmdbad = c.base.mif.cmdbad := by rw [ht.mif]
  have hflat : ({ c with base := t } : Chip).flat = c.flat := by
    unfold Chip.flat
    dsimp only
    rw [ht.mif]
    cases c.writer with
    | none => rfl
    | some w => exact congrArg (w.byte :: ·) (Mif.flat_len t.mif.len)
  refine ⟨ht.newcommand.trans h.newcommand, ?_, fun hin => absurd hin ht.mid, ?_, ?_⟩
  · unfold Mif.OneCard
    dsimp only
    rw [ht.tags, ht.uidLength]
    exact h.card
  · rw [hcode]
    dsimp only
    rw [ht.opstate, ht.ack]
    exact h.quiet
  · rw [hcode]
    intro cmd hcmd'
    have hheld : Held c cmd → Held { c with base := t } cmd := by
      intro hheld _
      obtain ⟨heq, hacc⟩ := hheld hmid
      refine ⟨hcmd.trans heq, ?_⟩
      unfold Mif.Accepted
      dsimp only
      rw [hcmd, hbad]
      exact hacc
    cases h.stage cmd hcmd' with
    | due hop hack hsince hwriter hh =>
      exact .due (ht.opstate.trans hop) (ht.ack.trans hack) hsince hwriter (hheld hh)
    | acked hop hsince hwriter hh => exact .acked (ht.opstate ▸ hop) hsince hwriter (hheld hh)
    | writing hop hwriter hans hsince _ =>
      exact .writing (ht.opstate.trans hop) hwriter (hflat ▸ hans) hsince ht.mid
    | answered hop hwriter hans hsince => exact .answered (ht.opstate ▸ hop) hwriter hans hsince

/-- A byte that is not the last of a frame, up to what it leaves to the response thread. -/
theorem Lined.parse (h : Lined c) {m : UInt8} (hok : InOrder c (.byte m))
    (hlock : ¬ c.base.AtLock) : Lined (c.parse m) := by
  rw [parse_eq hlock]
  by_cases hcmd : c.base.AtCommand
  · rw [Pn532Base.process_command hcmd]
    have hmid : ∀ st, st = State.dcs ∨ st = State.pdn → ∀ t : Pn532Base, t.pn532state = st →
        t.MidFrame := by
      rintro st (rfl | rfl) t ht
      · exact Or.inr (Or.inr (Or.inl ht))
      · exact Or.inr (Or.inl ht)
    refine h.within (Option.isNone_iff_eq_none.mp (hok.1 hcmd)) ⟨rfl, rfl, rfl, rfl⟩ rfl rfl ?_ rfl
    refine hmid _ ?_ _ rfl
    split <;> simp
  · by_cases hmid : c.base.MidFrame
    · have ht := Pn532Base.inside hmid hlock m
      have hbegun : (c.base.process m).taken.head? = some (c.base.process m).mif.cmd := by
        obtain ⟨rest, hrest⟩ := ht.taken
        have hhead := h.begun hmid
        rw [← hrest, ht.cmd, List.head?_append, hhead]
        rfl
      exact h.within (h.writer_none hmid) ⟨ht.opstate, ht.ack, ht.tags, ht.uidLength⟩ ht.newcommand
        ht.executed ht.mid hbegun
    · exact h.heading (Pn532Base.heading hmid hcmd m) hmid

/-- **The last byte of a frame**: the response thread takes the command, and its acknowledge is due. -/
theorem Lined.lock (h : Lined c) {m : UInt8} (hok : InOrder c (.byte m)) (hlock : c.base.AtLock) :
    Lined { c with
      base := { c.base.process m with newcommand := false, ack := true, opstate := .ack }
      since := [] } := by
  have ht := Pn532Base.locked hlock m
  have hmid : c.base.MidFrame := Or.inr (Or.inr (Or.inr hlock.2))
  have hcode : ∀ {d : Chip}, d.base.executed = c.base.executed ++ [c.base.taken] →
      d.code = some c.base.mif.cmd := by
    intro d hexec
    unfold code
    rw [hexec, List.getLast?_concat]
    exact h.begun hmid
  refine ⟨rfl, ?_, fun hin => absurd hin ht.mid, ?_, ?_⟩
  · unfold Mif.OneCard
    dsimp only
    rw [ht.tags, ht.uidLength]
    exact h.card
  · rw [hcode ht.executed]
    exact fun hfalse => absurd hfalse (by simp)
  · rw [hcode ht.executed]
    intro cmd hcmd
    obtain rfl : c.base.mif.cmd = cmd := Option.some.inj hcmd
    refine .due rfl rfl rfl (h.writer_none hmid) fun _ => ⟨ht.cmd, ?_⟩
    unfold Mif.Accepted
    dsimp only
    rw [ht.cmd, ht.cmdbad]
    exact hok.2 hlock

/-- **A byte of the host.** -/
theorem Lined.receive (h : Lined c) {m : UInt8} (hok : InOrder c (.byte m)) :
    Lined (c.receive m) := by
  unfold Chip.receive
  dsimp only
  by_cases hlock : c.base.AtLock
  · have ht := Pn532Base.locked hlock m
    have hwriter := h.writer_none (Or.inr (Or.inr (Or.inr hlock.2)))
    have hparse : c.parse m = { c with base := c.base.process m, since := [] } := by
      unfold Chip.parse
      rw [if_pos hlock]
    have hfifo : ¬ (c.base.toFifo ≠ [] ∧ (c.base.process m).toFifo = []) := by
      rw [ht.toFifo]
      exact fun hboth => hboth.1 hboth.2
    rw [hparse, wake_none (by exact ht.newcommand) (by exact hwriter), if_neg (by exact hfifo)]
    exact h.lock hok hlock
  · have hparse := h.parse hok hlock
    rw [wake_quiet hparse.newcommand]
    split
    · exact hparse.drained
    · exact hparse

/-- A card comes or goes. -/
theorem Lined.card_change (h : Lined c) (hwriter : c.writer = none) {m : Mif} (hcard : m.OneCard)
    (hcmd : m.cmd = c.base.mif.cmd) (hbad : m.cmdbad = c.base.mif.cmdbad) (before : Nat) :
    Lined { c with base := { c.base with mif := m }, before := before } := by
  refine ⟨h.newcommand, hcard, ?_, h.quiet, ?_⟩
  · intro hmid
    rw [hcmd]
    exact h.begun hmid
  · intro cmd hcmd'
    have hheld : Held c cmd →
        Held { c with base := { c.base with mif := m }, before := before } cmd := by
      intro hheld hmid
      obtain ⟨heq, hacc⟩ := hheld hmid
      refine ⟨hcmd.trans heq, ?_⟩
      unfold Mif.Accepted
      dsimp only
      rw [hcmd, hbad]
      exact hacc
    cases h.stage cmd hcmd' with
    | due hop hack hsince _ hh => exact .due hop hack hsince hwriter (hheld hh)
    | acked hop hsince _ hh => exact .acked hop hsince hwriter (hheld hh)
    | writing _ hsome _ _ _ => exact absurd (hwriter.symm.trans hsome) (by simp)
    | answered hop _ hans hsince => exact .answered hop hwriter hans hsince

/-- The host reads a byte. -/
theorem Lined.fifo (h : Lined c) (fifo : Bytes) :
    Lined { c with base := { c.base with toFifo := fifo } } := by
  have hs : Steady c { c with base := { c.base with toFifo := fifo } } := steady_base rfl
  refine hs.lined h h.quiet ?_
  intro cmd hcmd
  cases h.stage cmd hcmd with
  | due hop hack hsince hwriter hheld => exact .due hop hack hsince hwriter hheld
  | acked hop hsince hwriter hheld => exact .acked hop hsince hwriter hheld
  | writing hop hwriter hans hsince hmid => exact .writing hop hwriter hans hsince hmid
  | answered hop hwriter hans hsince => exact .answered hop hwriter hans hsince

/-- A timer that expires while a response waits is lost. -/
theorem Lined.lost (h : Lined c) (hno : c.writer ≠ none) :
    Lined { c with base := { c.base with ack := false } } := by
  have hs : Steady c { c with base := { c.base with ack := false } } := steady_base rfl
  refine hs.lined h (fun hcode => absurd (h.quiet hcode).2.2 hno) ?_
  intro cmd hcmd
  cases h.stage cmd hcmd with
  | due _ _ _ hnone _ => exact absurd hnone hno
  | acked _ _ hnone _ => exact absurd hnone hno
  | writing hop hwriter hans hsince hmid => exact .writing hop hwriter hans hsince hmid
  | answered _ hnone _ _ => exact absurd hnone hno

/-- **A step that is in order.** -/
theorem Lined.step (h : Lined c) {e : Event} (hok : InOrder c e) : Lined (c.step e) := by
  cases e with
  | byte m => exact h.receive hok
  | read =>
    unfold Chip.step
    dsimp only
    split
    · exact h
    · exact (h.fifo _).drained
  | expire =>
    unfold Chip.step
    dsimp only
    split
    · split
      next hnone => exact h.respth (Option.isNone_iff_eq_none.mp hnone) hok
      next hsome => exact h.lost fun hnone => hsome (by rw [hnone]; rfl)
    · exact h
  | present uid =>
    exact h.card_change (m := c.base.mif.setcardpresent uid) (Option.isNone_iff_eq_none.mp hok)
      (Or.inr ⟨rfl, rfl⟩) rfl rfl _
  | remove =>
    exact h.card_change (m := c.base.mif.setcardnotpresent) (Option.isNone_iff_eq_none.mp hok)
      (Or.inl rfl) rfl rfl c.before

theorem lined_start (m : Mif) : Lined (start m) := by
  refine ⟨rfl, Or.inl rfl, ?_, fun _ => ⟨rfl, rfl, rfl⟩, fun _ h => (nomatch h)⟩
  rintro (h | h | h | h)
  · exact absurd rfl h
  all_goals cases h

/-- **One acknowledge and one response for each command.** In every run, with the bytes of the host, its
reads and the expiries in any order, in which no response waits for room when a command byte comes, no
response begins between the command byte and the end of a frame, no supported command is rejected and none
is RFConfiguration: what was pushed since the last command was executed is nothing, with its acknowledge
due, or its acknowledge and so much of one response for it. -/
theorem responses_ordered (m : Mif) (es : List Event) (h : Throughout InOrder step (start m) es) :
    Always (fun _ => Ordered) step [] (start m) es :=
  always_of_throughout (I := fun _ => Lined) (fun _ _ hl cmd hcmd => (hl.stage cmd hcmd).ordered)
    (fun _ _ _ hl hok => hl.step hok) es [] (start m) (lined_start m) h

/-- The host sends these bytes. -/
def sends (ms : Bytes) : List Event := ms.map .byte

/-- `GetFirmwareVersion`, up to its acknowledge being read and its first delay being over. -/
def versionAsked : List Event :=
  sends [0x00, 0x00, 0xFF, 0x02, 0xFE, 0xD4, 0x02, 0x2A, 0x00] ++
    ([.expire, .read, .read, .read, .read, .read, .read, .expire] : List Event)

/-- The version is read in part when the next command comes, and that is acknowledged and answered. -/
theorem responses_ordered_two :
    Always (fun _ => Ordered) step [] (start Mif.zero)
      (versionAsked ++ [Event.expire, .read, .read] ++
        sends [0x00, 0x00, 0xFF, 0x05, 0xFB, 0xD4, 0x14, 0x01, 0x14, 0x01, 0x02, 0x00] ++
        [Event.expire, .read, .read, .read, .read, .read, .read, .expire, .expire]) :=
  responses_ordered Mif.zero _ (by decide +kernel)

/-- An RFConfiguration is accepted, acknowledged and answered as an unknown command. -/
example : ((sends [0x00, 0x00, 0xFF, 0x04, 0xFC, 0xD4, 0x32, 0x01, 0x01, 0xF8, 0x00] ++
    [Event.expire, .read, .read, .read, .read, .read, .read, .expire, .expire]).foldl step
      (start Mif.zero)).since = pushack ++ pushsyntaxerr := by
  decide +kernel

/-- The second delay is over in the middle of the next frame. -/
def nextBegun : List Event :=
  versionAsked ++ sends [0x00, 0x00, 0xFF, 0x05, 0xFB, 0xD4, 0x14] ++ [Event.expire]

/-- The version is answered as a `SAMConfiguration` when the frame of one has begun by then. -/
theorem response_of_next : ¬ Always (fun _ => Ordered) step [] (start Mif.zero) nextBegun := by
  intro h
  have hlast := h.last
  have hcode : (nextBegun.foldl step (start Mif.zero)).code = some 0x02 := by decide +kernel
  have hsince : (nextBegun.foldl step (start Mif.zero)).since =
      pushack ++ pushframe 0x2 0x15 [] := by decide +kernel
  rcases hlast 0x02 hcode with hdue | ⟨resp, part, hans, ⟨rest, hrest⟩, hpart⟩
  · rw [hsince] at hdue
    exact absurd hdue.1 (by decide)
  · obtain ⟨packet, hframe⟩ : ∃ packet, resp = pushframe (packet.length + 2) 0x03 packet := hans
    have hbytes : part = pushframe 0x2 0x15 [] :=
      (List.append_cancel_left (hsince.symm.trans hpart)).symm
    -- the byte of the code
    have hbyte := congrArg (fun bs : Bytes => bs[6]?) (hrest.trans hframe)
    rw [hbytes] at hbyte
    simp [pushframe] at hbyte

end Chip

end Espmod.Pn532
