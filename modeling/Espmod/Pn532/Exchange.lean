/-
# Espmod.Pn532.Exchange — what an `InDataExchange` does to the blocks of the card

The parser decides about a command for the card when its block number has come: it sets the flag of
the block, goes on to write it, or does neither. `Exch` says where in such a frame the parser is, and
what has become of the blocks since its command byte (`entry`). No other byte changes a block.
-/
import Espmod.Pn532.Ordering

namespace Espmod.Pn532

open Espmod.Lib.Text (Bytes)

/-- A card command with its block and so many parameters behind them is allowed, where the blocks have
these flags. Commands the model does not know are allowed. -/
def Admitted (blocks : Nat → DataBlock) (incmd block : UInt8) (behind : Int) : Prop :=
  (incmd = 0x60 → 10 ≤ behind) ∧
    (incmd = 0xA0 → 16 ≤ behind ∧ (blocks block.toNat).authenticated = true) ∧
    (incmd = 0x30 → (blocks block.toNat).authenticated = true)

instance (blocks : Nat → DataBlock) (incmd block : UInt8) (behind : Int) :
    Decidable (Admitted blocks incmd block behind) := inferInstanceAs (Decidable (_ ∧ _))

/-- An `InDataExchange` with these parameters is allowed: it names a card command and a block, and the
card command is allowed. -/
def Allowed (blocks : Nat → DataBlock) : Bytes → Prop
  | _ :: incmd :: block :: more => Admitted blocks incmd block more.length
  | _ => False

namespace Pn532Base

/-! ## §1 — bytes that leave the blocks alone -/

/-- The `grab`s of an `InDataExchange`. -/
def CardWait (w : Wait) : Prop := w = .lastincmd ∨ w = .bn ∨ ∃ p, w = .data p

/-- The blocks and the last card command are as they were, and the next byte is not for them. -/
structure Off (s t : Pn532Base) : Prop where
  mem : t.mif.mem = s.mif.mem
  lastincmd : t.mif.lastincmd = s.mif.lastincmd
  bn : t.mif.bn = s.mif.bn
  wait : ¬ CardWait t.wait

variable {s t : Pn532Base} {m : UInt8} {w : Wait}

theorem cardWait_top : ¬ CardWait .top := by
  rintro (h | h | ⟨_, h⟩) <;> cases h

/-- A step that only chooses the next `grab`. -/
theorem off_of_eq {u : Pn532Base} (h : Off t u) (hmem : t.mif.mem = s.mif.mem)
    (hlast : t.mif.lastincmd = s.mif.lastincmd) (hbn : t.mif.bn = s.mif.bn) : Off s u :=
  ⟨h.mem.trans hmem, h.lastincmd.trans hlast, h.bn.trans hbn, h.wait⟩

theorem off_wait (hw : ¬ CardWait w) (s : Pn532Base) : Off s { s with wait := w } :=
  ⟨rfl, rfl, rfl, hw⟩

theorem off_flushPayload (s : Pn532Base) : Off s s.flushPayload := by
  unfold flushPayload
  split
  · refine off_wait ?_ s
    rintro (h | h | ⟨_, h⟩) <;> cases h
  · exact ⟨rfl, rfl, rfl, cardWait_top⟩

theorem off_checkBrty (s : Pn532Base) : Off s s.checkBrty := by
  unfold checkBrty
  dsimp only
  split <;> split <;> exact off_of_eq (off_flushPayload _) rfl rfl rfl

theorem off_grabBrty (s : Pn532Base) : Off s s.grabBrty := by
  unfold grabBrty
  split
  · exact off_of_eq (off_checkBrty _) rfl rfl rfl
  · refine off_wait ?_ s
    rintro (h | h | ⟨_, h⟩) <;> cases h

theorem off_command (hcmd : s.mif.cmd ≠ 0x40) (m : UInt8) : Off s (s.command m) := by
  have hother : ¬ CardWait .timeout ∧ ¬ CardWait (.cfg m (cfgBytes m - 1)) := by
    constructor <;> rintro (h | h | ⟨_, h⟩) <;> cases h
  unfold command
  by_cases hsam : s.mif.cmd = 0x14
  · rw [if_pos hsam]
    dsimp only
    split
    · exact off_of_eq (off_flushPayload _) rfl rfl rfl
    · exact ⟨rfl, rfl, rfl, hother.1⟩
  rw [if_neg hsam, if_neg hcmd]
  by_cases hrf : s.mif.cmd = 0x32
  · rw [if_pos hrf]
    cases hbytes : cfgBytes m with
    | zero => exact off_grabBrty s
    | succ more =>
      rw [hbytes] at hother
      exact off_wait hother.2 s
  rw [if_neg hrf]
  split
  · exact off_of_eq (off_grabBrty _) rfl rfl rfl
  · exact off_flushPayload s

theorem off_take (htop : w ≠ .top) (hw : ¬ CardWait w) (s : Pn532Base) (m : UInt8) :
    Off s (s.take m w) := by
  cases w with
  | top => exact absurd rfl htop
  | lastincmd => exact absurd (Or.inl rfl) hw
  | bn => exact absurd (Or.inr (Or.inl rfl)) hw
  | data p => exact absurd (Or.inr (Or.inr ⟨p, rfl⟩)) hw
  | timeout =>
    refine ⟨rfl, rfl, rfl, ?_⟩
    rintro (h | h | ⟨_, h⟩) <;> cases h
  | useirq => exact off_of_eq (off_flushPayload _) rfl rfl rfl
  | cfg item more =>
    cases more with
    | zero =>
      unfold take
      dsimp only
      split <;> exact off_of_eq (off_grabBrty _) rfl rfl rfl
    | succ more =>
      refine ⟨rfl, rfl, rfl, ?_⟩
      rintro (h | h | ⟨_, h⟩) <;> cases h
  | brty => exact off_of_eq (off_checkBrty _) rfl rfl rfl
  | flush => exact off_of_eq (off_flushPayload _) rfl rfl rfl

theorem process_inside (m : UInt8) :
    s.process m = { s with cksum := s.cksum + m }.take m s.wait := rfl

/-- **A byte that is not for the card.** -/
theorem off_process (hwait : ¬ CardWait s.wait) (hpdn : s.wait = .top → s.pn532state = .pdn →
    s.mif.cmd ≠ 0x40) (m : UInt8) : Off s (s.process m) := by
  by_cases htop : s.wait = .top
  · have hoff : ∀ u : Pn532Base, u.mif.mem = s.mif.mem → u.mif.lastincmd = s.mif.lastincmd →
        u.mif.bn = s.mif.bn → u.wait = s.wait → Off s u := by
      intro u hmem hlast hbn hw
      refine ⟨hmem, hlast, hbn, ?_⟩
      rw [hw, htop]
      exact cardWait_top
    have hexec : ∀ u : Pn532Base, u.execute.mif.mem = u.mif.mem ∧
        u.execute.mif.lastincmd = u.mif.lastincmd ∧ u.execute.mif.bn = u.mif.bn := by
      intro u
      unfold execute
      dsimp only
      split_ifs <;> exact ⟨rfl, rfl, rfl⟩
    rw [process_top htop, top]
    cases hstate : s.pn532state with
    | pdn =>
      show Off s (command (count _ m) m)
      exact off_of_eq (off_command (by exact hpdn htop hstate) m) rfl rfl rfl
    | pd0 => exact hoff _ rfl rfl rfl rfl
    | unlock3 => exact hoff _ rfl rfl rfl rfl
    | unlock2 =>
      dsimp only
      split_ifs <;> exact hoff _ rfl rfl rfl rfl
    | lock =>
      dsimp only
      split
      · obtain ⟨hmem, hlast, hbn⟩ := hexec
          { { s with cksum := s.cksum + m }.warn .relock with pn532state := .idle }
        exact hoff _ hmem hlast hbn rfl
      · obtain ⟨hmem, hlast, hbn⟩ := hexec { s with cksum := s.cksum + m, pn532state := .idle }
        exact hoff _ hmem hlast hbn rfl
    | _ =>
      dsimp only
      split <;> exact hoff _ rfl rfl rfl rfl
  · exact off_of_eq (off_take htop hwait { s with cksum := s.cksum + m } m) rfl rfl rfl

/-! ## §2 — an exchange, byte by byte -/

/-- What a full header leaves: the card command, the block, and flags that only an authentication
raises, and only for its block. -/
structure Decided (entry : Nat → DataBlock) (incmd block : UInt8) (m : Mif) : Prop where
  lastincmd : m.lastincmd = incmd.toUInt16
  bn : m.bn = block.toUInt16
  raised : ∀ n, (m.mem n).authenticated = true →
    (entry n).authenticated = true ∨ n = block.toNat ∧ incmd = 0x60
  kept : ∀ n, (entry n).authenticated = true → (m.mem n).authenticated = true

/-- At the end of a frame. -/
def Closing (s : Pn532Base) : Prop := s.wait = .top ∧ (s.pn532state = .dcs ∨ s.pn532state = .lock)

/-- In the middle of an `InDataExchange`, with the blocks as they were at its command byte. -/
inductive Exch (entry : Nat → DataBlock) (s : Pn532Base) : Prop where
  | begun (hwait : s.wait = .top) (hstate : s.pn532state = .pdn) (htaken : s.taken = [0x40])
      (hmem : s.mif.mem = entry)
  /-- it has no parameters -/
  | bare (hclosing : s.Closing) (htaken : s.taken = [0x40]) (hmem : s.mif.mem = entry)
  | header {tg : UInt8} (hwait : s.wait = .lastincmd) (htaken : s.taken = [0x40, tg])
      (hmem : s.mif.mem = entry)
  | block {tg incmd : UInt8} (hwait : s.wait = .bn) (htaken : s.taken = [0x40, tg, incmd])
      (hlast : s.mif.lastincmd = incmd.toUInt16) (hmem : s.mif.mem = entry)
  /-- its header is not complete -/
  | short (hwait : s.wait = .flush ∧ 0 < s.mif.len ∧ s.taken.length + s.mif.len ≤ 3 ∨ s.Closing)
      (hbad : s.mif.cmdbad = true) (hlen : s.taken.length ≤ 3) (hge : 2 ≤ s.taken.length)
      (hmem : s.mif.mem = entry)
  | full {tg incmd block : UInt8} {more : Bytes}
      (hwait : s.wait = .flush ∨ s.Closing ∧ s.mif.len ≤ 0 ∨ ∃ p, s.wait = .data p ∧ incmd = 0xA0)
      (htaken : s.taken = 0x40 :: tg :: incmd :: block :: more)
      (hadm : Admitted entry incmd block (more.length + s.mif.len))
      (hdecided : Decided entry incmd block s.mif)

variable {entry : Nat → DataBlock} {tg incmd block : UInt8} {more : Bytes}

theorem flushPayload_cases (s : Pn532Base) :
    0 < s.mif.len ∧ s.flushPayload = { s with wait := .flush } ∨
      s.mif.len ≤ 0 ∧ s.flushPayload = { s with wait := .top, pn532state := .dcs } := by
  unfold flushPayload
  by_cases hlen : s.mif.len > 0
  · rw [if_pos hlen]
    exact Or.inl ⟨hlen, rfl⟩
  · rw [if_neg hlen]
    exact Or.inr ⟨Int.not_lt.mp hlen, rfl⟩

/-- The rest of an exchange without a full header is flushed. -/
theorem short_flush (hbad : s.mif.cmdbad = true) (hlen : s.taken.length + s.mif.len ≤ 3)
    (hle : s.taken.length ≤ 3) (hge : 2 ≤ s.taken.length) (hmem : s.mif.mem = entry) :
    Exch entry s.flushPayload := by
  rcases s.flushPayload_cases with ⟨hpos, heq⟩ | ⟨_, heq⟩ <;> rw [heq]
  · exact .short (Or.inl ⟨rfl, hpos, hlen⟩) hbad hle hge hmem
  · exact .short (Or.inr ⟨rfl, Or.inl rfl⟩) hbad hle hge hmem

/-- The rest of an exchange whose card command is done is flushed. -/
theorem full_flush (htaken : s.taken = 0x40 :: tg :: incmd :: block :: more)
    (hadm : Admitted entry incmd block (more.length + s.mif.len))
    (hdecided : Decided entry incmd block s.mif) : Exch entry s.flushPayload := by
  rcases s.flushPayload_cases with ⟨_, heq⟩ | ⟨hneg, heq⟩ <;> rw [heq]
  · exact .full (Or.inl rfl) htaken hadm hdecided
  · exact .full (Or.inr (Or.inl ⟨⟨rfl, Or.inl rfl⟩, hneg⟩)) htaken hadm hdecided

/-- A card command with its block: the flag is raised, or the block is to be written, or neither. -/
theorem exch_cardCommand (htaken : s.taken = [0x40, tg, incmd, block])
    (hlast : s.mif.lastincmd = incmd.toUInt16) (hbn : s.mif.bn = block.toUInt16)
    (hadm : Admitted s.mif.mem incmd block s.mif.len) : Exch s.mif.mem s.cardCommand := by
  have hbehind : Admitted s.mif.mem incmd block (([] : Bytes).length + s.mif.len) := by
    rw [List.length_nil, Int.natCast_zero, Int.zero_add]
    exact hadm
  have hsame : ∀ m : Mif, m.lastincmd = s.mif.lastincmd → m.bn = s.mif.bn → m.mem = s.mif.mem →
      Decided s.mif.mem incmd block m := by
    intro m hlast' hbn' hmem
    refine ⟨hlast'.trans hlast, hbn'.trans hbn, ?_, ?_⟩ <;> rw [hmem]
    · exact fun _ h => Or.inl h
    · exact fun _ h => h
  unfold cardCommand
  dsimp only
  split
  next hauth =>
    have hincmd : incmd = 0x60 := UInt8.toUInt16_inj.mp (hlast.symm.trans hauth.1)
    have hblock : s.mif.bn.toNat = block.toNat := by rw [hbn, UInt8.toNat_toUInt16]
    refine full_flush htaken hbehind ⟨hlast, hbn, ?_, ?_⟩
    · intro n hflag
      by_cases hn : n = s.mif.bn.toNat
      · exact Or.inr ⟨hn.trans hblock, hincmd⟩
      · dsimp only at hflag
        rw [Function.update_of_ne hn] at hflag
        exact Or.inl hflag
    · intro n hflag
      by_cases hn : n = s.mif.bn.toNat
      · dsimp only
        rw [hn, Function.update_self]
      · dsimp only
        rw [Function.update_of_ne hn]
        exact hflag
  next =>
    split
    next hwrite =>
      have hincmd : incmd = 0xA0 := UInt8.toUInt16_inj.mp (hlast.symm.trans hwrite.1)
      exact .full (Or.inr (Or.inr ⟨_, rfl, hincmd⟩)) htaken hbehind (hsame _ rfl rfl rfl)
    next =>
      split
      · exact full_flush htaken hbehind (hsame _ rfl rfl rfl)
      · exact full_flush htaken hbehind (hsame _ rfl rfl rfl)

/-- A byte is written to the block. -/
theorem exch_data {p : Fin 16} (htaken : s.taken = 0x40 :: tg :: 0xA0 :: block :: more)
    (hadm : Admitted entry 0xA0 block (more.length + s.mif.len))
    (hdecided : Decided entry 0xA0 block s.mif) (m : UInt8) : Exch entry (s.take m (.data p)) := by
  have hcount : ((more ++ [m]).length : Int) + (s.mif.len - 1) = more.length + s.mif.len := by
    rw [List.length_append, List.length_singleton]
    omega
  have htaken' : s.taken ++ [m] = 0x40 :: tg :: 0xA0 :: block :: (more ++ [m]) := by
    rw [htaken]
    rfl
  -- the flags are as they were
  have hwritten : ∀ m' : Mif, m'.lastincmd = s.mif.lastincmd → m'.bn = s.mif.bn →
      m'.mem = Function.update s.mif.mem s.mif.bn.toNat
        { s.mif.mem s.mif.bn.toNat with data := (s.mif.mem s.mif.bn.toNat).data.set p m } →
      Decided entry 0xA0 block m' := by
    intro m' hlast hbn hmem
    have hflags : ∀ n, (m'.mem n).authenticated = (s.mif.mem n).authenticated := by
      intro n
      rw [hmem]
      by_cases hn : n = s.mif.bn.toNat
      · rw [hn, Function.update_self]
      · rw [Function.update_of_ne hn]
    refine ⟨hlast.trans hdecided.lastincmd, hbn.trans hdecided.bn, ?_, ?_⟩
    · intro n hflag
      exact hdecided.raised n ((hflags n).symm.trans hflag)
    · intro n hflag
      exact (hflags n).trans (hdecided.kept n hflag)
  unfold take
  dsimp only
  split
  · exact .full (Or.inr (Or.inr ⟨_, rfl, rfl⟩)) htaken' (hcount ▸ hadm) (hwritten _ rfl rfl rfl)
  · exact full_flush htaken' (hcount ▸ hadm) (hwritten _ rfl rfl rfl)

/-- The checksum of a frame. -/
theorem process_closing (h : s.Closing) (hlock : ¬ s.AtLock) (m : UInt8) :
    (s.process m).Closing ∧ (s.process m).mif = s.mif ∧ (s.process m).taken = s.taken := by
  have hdcs : s.pn532state = .dcs := h.2.resolve_right fun hstate => hlock ⟨h.1, hstate⟩
  rw [process_top h.1, top, hdcs]
  dsimp only
  split <;> exact ⟨⟨h.1, Or.inr rfl⟩, rfl, rfl⟩

/-- The first parameter of an exchange. -/
theorem exch_pdn (htaken : s.taken = [0x40]) (hcmd : s.mif.cmd = 0x40) (m : UInt8) :
    Exch s.mif.mem (s.pdn m) := by
  have htaken' : s.taken ++ [m] = [0x40, m] := by
    rw [htaken]
    rfl
  show Exch s.mif.mem (command (count _ m) m)
  unfold command
  rw [if_neg (by show s.mif.cmd ≠ 0x14; rw [hcmd]; decide), if_pos (by exact hcmd)]
  split
  next hlen =>
    have hle : s.mif.len - 1 < 2 := hlen
    refine short_flush rfl ?_ ?_ ?_ rfl
    · show ((s.taken ++ [m]).length : Int) + (s.mif.len - 1) ≤ 3
      rw [htaken']
      have htwo : ([0x40, m] : Bytes).length = 2 := rfl
      omega
    · show (s.taken ++ [m]).length ≤ 3
      rw [htaken']
      exact Nat.le_succ 2
    · show 2 ≤ (s.taken ++ [m]).length
      rw [htaken']
      exact Nat.le_refl 2
  next => exact .header rfl htaken' rfl

/-- **A byte of an exchange**, which is allowed if its header is full. -/
theorem Exch.process (h : Exch entry s) (hcmd : s.mif.cmd = 0x40) (hlock : ¬ s.AtLock) {m : UInt8}
    (hadm : s.wait = .bn → Admitted s.mif.mem s.mif.lastincmd.toUInt8 m (s.mif.len - 1)) :
    Exch entry (s.process m) := by
  cases h with
  | begun hwait hstate htaken hmem =>
    subst hmem
    rw [process_pdn ⟨hwait, hstate, rfl⟩]
    exact exch_pdn (s := { s with cksum := s.cksum + m }) htaken hcmd m
  | bare hclosing htaken hmem =>
    obtain ⟨hclosing', hmif, htaken'⟩ := process_closing hclosing hlock m
    exact .bare hclosing' (htaken'.trans htaken) (by rw [hmif]; exact hmem)
  | @header tg hwait htaken hmem =>
    have htaken' : s.taken ++ [m] = [0x40, tg, m] := by
      rw [htaken]
      rfl
    rw [process_inside, hwait]
    exact .block rfl htaken' rfl hmem
  | @block tg incmd hwait htaken hlast hmem =>
    subst hmem
    have hincmd : s.mif.lastincmd.toUInt8 = incmd := by
      rw [hlast]
      exact UInt8.toUInt8_toUInt16 incmd
    have hadm' := hadm hwait
    rw [hincmd] at hadm'
    have htaken' : s.taken ++ [m] = [0x40, tg, incmd, m] := by
      rw [htaken]
      rfl
    rw [process_inside, hwait]
    exact exch_cardCommand
      (s := count { s with cksum := s.cksum + m, mif := { s.mif with bn := m.toUInt16 } } m)
      htaken' hlast rfl hadm'
  | short hwait hbad hlen hge hmem =>
    rcases hwait with ⟨hwait, hpos, hsum⟩ | hclosing
    · have hone : (s.taken ++ [m]).length = s.taken.length + 1 := List.length_append
      rw [process_inside, hwait]
      refine short_flush hbad ?_ ?_ ?_ hmem
      · show ((s.taken ++ [m]).length : Int) + (s.mif.len - 1) ≤ 3
        omega
      · show (s.taken ++ [m]).length ≤ 3
        omega
      · show 2 ≤ (s.taken ++ [m]).length
        omega
    · obtain ⟨hclosing', hmif, htaken'⟩ := process_closing hclosing hlock m
      refine .short (Or.inr hclosing') ?_ ?_ ?_ ?_
      · rw [hmif]
        exact hbad
      · rw [htaken']
        exact hlen
      · rw [htaken']
        exact hge
      · rw [hmif]
        exact hmem
  | @full tg incmd block more hwait htaken hadm' hdecided =>
    have hcount : ((more ++ [m]).length : Int) + (s.mif.len - 1) = more.length + s.mif.len := by
      rw [List.length_append, List.length_singleton]
      omega
    have htaken' : s.taken ++ [m] = 0x40 :: tg :: incmd :: block :: (more ++ [m]) := by
      rw [htaken]
      rfl
    rcases hwait with hwait | ⟨hclosing, hneg⟩ | ⟨p, hwait, rfl⟩
    · rw [process_inside, hwait]
      exact full_flush (s := count { s with cksum := s.cksum + m } m) htaken' (hcount ▸ hadm')
        ⟨hdecided.lastincmd, hdecided.bn, hdecided.raised, hdecided.kept⟩
    · obtain ⟨hclosing', hmif, hsame⟩ := process_closing hclosing hlock m
      refine .full (Or.inr (Or.inl ⟨hclosing', ?_⟩)) (hsame.trans htaken) ?_ ?_ <;> rw [hmif]
      · exact hneg
      · exact hadm'
      · exact hdecided
    · rw [process_inside, hwait]
      exact exch_data (s := { s with cksum := s.cksum + m }) htaken hadm' hdecided m

/-- **At the end of an exchange** that has parameters, or is marked bad: it was allowed, or it is
marked bad and has left the blocks alone. -/
theorem Exch.ends (h : Exch entry s) (hlock : s.AtLock)
    (hgood : 2 ≤ s.taken.length ∨ s.mif.cmdbad = true) :
    (∃ tg incmd block more, s.taken = 0x40 :: tg :: incmd :: block :: more ∧
      Admitted entry incmd block more.length ∧ Decided entry incmd block s.mif) ∨
      s.taken.length ≤ 3 ∧ s.mif.cmdbad = true ∧ s.mif.mem = entry := by
  obtain ⟨htop, hstate⟩ := hlock
  cases h with
  | begun _ hpdn _ _ => exact absurd (hstate.symm.trans hpdn) (by simp)
  | bare _ htaken hmem =>
    rcases hgood with hge | hbad
    · rw [htaken] at hge
      exact absurd hge (by decide)
    · exact Or.inr ⟨by rw [htaken]; decide, hbad, hmem⟩
  | header hwait _ _ => exact absurd (htop.symm.trans hwait) (by simp)
  | block hwait _ _ _ => exact absurd (htop.symm.trans hwait) (by simp)
  | short _ hbad hlen _ hmem => exact Or.inr ⟨hlen, hbad, hmem⟩
  | @full tg incmd block more hwait htaken hadm hdecided =>
    have hneg : s.mif.len ≤ 0 := by
      rcases hwait with hwait | ⟨_, hneg⟩ | ⟨p, hwait, _⟩
      · exact absurd (htop.symm.trans hwait) (by simp)
      · exact hneg
      · exact absurd (htop.symm.trans hwait) (by simp)
    refine Or.inl ⟨tg, incmd, block, more, htaken, ⟨?_, ?_, hadm.2.2⟩, hdecided⟩
    · intro hauth
      have hle := hadm.1 hauth
      omega
    · intro hwrite
      obtain ⟨hle, hflag⟩ := hadm.2.1 hwrite
      exact ⟨by omega, hflag⟩

/-! ## §3 — the data of a block -/

theorem mem_command (s : Pn532Base) (m : UInt8) : (s.command m).mif.mem = s.mif.mem := by
  by_cases hcmd : s.mif.cmd = 0x40
  · unfold command
    rw [if_neg (by rw [hcmd]; decide), if_pos hcmd]
    split
    · exact (off_flushPayload _).mem
    · rfl
  · exact (off_command hcmd m).mem

/-- A card command with its block does not change data yet. -/
theorem data_cardCommand (s : Pn532Base) (n : Nat) :
    (s.cardCommand.mif.mem n).data = (s.mif.mem n).data := by
  unfold cardCommand
  dsimp only
  split
  · rw [(off_flushPayload _).mem]
    dsimp only
    by_cases hn : n = s.mif.bn.toNat
    · rw [hn, Function.update_self]
    · rw [Function.update_of_ne hn]
  · split
    · rfl
    · split <;> exact congrArg (fun mem => (mem n).data) (off_flushPayload _).mem

/-- **Data is changed** by a byte that is written to the block, and of this block only. -/
theorem data_changed {m : UInt8} {n : Nat}
    (h : ((s.process m).mif.mem n).data ≠ (s.mif.mem n).data) :
    n = s.mif.bn.toNat ∧ ∃ p, s.wait = .data p := by
  have hsame : (s.process m).mif.mem ≠ s.mif.mem := fun heq => h (by rw [heq])
  by_cases hcard : CardWait s.wait
  · rcases hcard with hwait | hwait | ⟨p, hwait⟩
    · rw [process_inside, hwait] at hsame
      exact absurd rfl hsame
    · refine absurd ?_ h
      rw [process_inside, hwait]
      exact data_cardCommand _ n
    · refine ⟨?_, p, hwait⟩
      by_contra hn
      refine h ?_
      rw [process_inside, hwait]
      unfold take
      dsimp only
      split
      · exact congrArg DataBlock.data (Function.update_of_ne hn ..)
      · rw [(off_flushPayload _).mem]
        exact congrArg DataBlock.data (Function.update_of_ne hn ..)
  · by_cases hpdn : s.wait = .top ∧ s.pn532state = .pdn
    · rw [process_pdn ⟨hpdn.1, hpdn.2, rfl⟩] at hsame
      exact absurd (mem_command _ m) hsame
    · exact absurd (off_process hcard (fun htop hstate => absurd ⟨htop, hstate⟩ hpdn) m).mem hsame

end Pn532Base

end Espmod.Pn532
