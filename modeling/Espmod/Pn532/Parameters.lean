/-
# Espmod.Pn532.Parameters — what the parser changes

A byte in the parameters of a command changes the parser's own state and the fields of `mif` that the
command stores there; the queue, the response thread and the card it leaves alone. From this and the
places of `Espmod.Pn532.Framing` follows what is left of a whole parameter list: the command byte and the
card as they were, the checksum with the bytes added, and for each command the fields that its response
is made of.
-/
import Espmod.Pn532.Framing

namespace Espmod.Pn532

open Espmod.Lib.Text (Bytes)

namespace Pn532Base

variable {s t u : Pn532Base} {m : UInt8} {ms : Bytes}

/-! ## §1 — inside of the parameters -/

/-- A step inside of the parameters: what may differ is copied from the state after it. -/
def Inner (s t : Pn532Base) : Prop :=
  t = { s with
    mif := { s.mif with
      mode := t.mif.mode, cmdbad := t.mif.cmdbad, lastincmd := t.mif.lastincmd, bn := t.mif.bn
      maxtg := t.mif.maxtg, brty := t.mif.brty, mem := t.mif.mem, len := t.mif.len
      timeout := t.mif.timeout, useirq := t.mif.useirq
      mxrtypassiveactivation := t.mif.mxrtypassiveactivation }
    pn532state := t.pn532state, wait := t.wait }

theorem Inner.trans (h : Inner s t) (h' : Inner t u) : Inner s u := by
  unfold Inner at *
  rw [h', h]

section frame

variable (h : Inner s t)
include h

theorem Inner.toFifo : t.toFifo = s.toFifo := congrArg (fun t => t.toFifo) h
theorem Inner.opstate : t.opstate = s.opstate := congrArg (fun t => t.opstate) h
theorem Inner.ack : t.ack = s.ack := congrArg (fun t => t.ack) h
theorem Inner.writing : t.writing = s.writing := congrArg (fun t => t.writing) h
theorem Inner.newcommand : t.newcommand = s.newcommand := congrArg (fun t => t.newcommand) h
theorem Inner.warnings : t.warnings = s.warnings := congrArg (fun t => t.warnings) h
theorem Inner.cksum : t.cksum = s.cksum := congrArg (fun t => t.cksum) h
theorem Inner.cmd : t.mif.cmd = s.mif.cmd := congrArg (fun t => t.mif.cmd) h
theorem Inner.tags : t.mif.tags = s.mif.tags := congrArg (fun t => t.mif.tags) h
theorem Inner.sensRes : t.mif.sensRes = s.mif.sensRes := congrArg (fun t => t.mif.sensRes) h
theorem Inner.selRes : t.mif.selRes = s.mif.selRes := congrArg (fun t => t.mif.selRes) h
theorem Inner.uidLength : t.mif.uidLength = s.mif.uidLength := congrArg (fun t => t.mif.uidLength) h
theorem Inner.uidValue : t.mif.uidValue = s.mif.uidValue := congrArg (fun t => t.mif.uidValue) h

end frame

theorem inner_flushPayload (s : Pn532Base) : Inner s s.flushPayload := by
  unfold flushPayload
  split <;> rfl

theorem inner_checkBrty (s : Pn532Base) : Inner s s.checkBrty := by
  unfold checkBrty
  dsimp only
  split <;> split <;> exact Inner.trans (by rfl) (inner_flushPayload _)

theorem inner_grabBrty (s : Pn532Base) : Inner s s.grabBrty := by
  unfold grabBrty
  split
  · exact Inner.trans (by rfl) (inner_checkBrty _)
  · rfl

theorem inner_cardCommand (s : Pn532Base) : Inner s s.cardCommand := by
  unfold cardCommand
  dsimp only
  split
  · exact Inner.trans (by rfl) (inner_flushPayload _)
  · split
    · rfl
    · split
      · exact inner_flushPayload s
      · exact Inner.trans (by rfl) (inner_flushPayload _)

theorem inner_command (s : Pn532Base) (m : UInt8) : Inner s (s.command m) := by
  unfold command
  dsimp only
  split
  · split
    · exact Inner.trans (by rfl) (inner_flushPayload _)
    · rfl
  · split
    · split
      · exact Inner.trans (by rfl) (inner_flushPayload _)
      · rfl
    · split
      · split
        · exact inner_grabBrty s
        · rfl
      · split
        · exact Inner.trans (by rfl) (inner_grabBrty _)
        · exact inner_flushPayload s

/-- The byte is added to the checksum and to what has been taken. -/
def added (s : Pn532Base) (m : UInt8) : Pn532Base :=
  { s with cksum := s.cksum + m, taken := s.taken ++ [m] }

theorem inner_take {w : Wait} (hw : w ≠ .top) (s : Pn532Base) (m : UInt8) :
    Inner { s with taken := s.taken ++ [m] } (s.take m w) := by
  cases w with
  | top => exact absurd rfl hw
  | timeout => rfl
  | useirq => exact Inner.trans (by rfl) (inner_flushPayload _)
  | lastincmd => rfl
  | bn => exact Inner.trans (by rfl) (inner_cardCommand _)
  | data p =>
    unfold take
    dsimp only
    split
    · rfl
    · exact Inner.trans (by rfl) (inner_flushPayload _)
  | cfg item more =>
    cases more with
    | zero =>
      unfold take
      dsimp only
      split <;> exact Inner.trans (by rfl) (inner_grabBrty _)
    | succ more => rfl
  | brty => exact Inner.trans (by rfl) (inner_checkBrty _)
  | flush => exact Inner.trans (by rfl) (inner_flushPayload _)

theorem inner_inside (hwait : s.wait ≠ .top) (m : UInt8) : Inner (s.added m) (s.process m) :=
  inner_take hwait { s with cksum := s.cksum + m } m

theorem inner_pdn {e : List Bytes} (h : At .pdn e s) (m : UInt8) :
    Inner (s.added m) (s.process m) := by
  rw [process_pdn h]
  exact Inner.trans (by rfl) (inner_command _ m)

/-! ## §2 — a whole parameter list -/

variable {e : List Bytes} {tk : Bytes} {n : Int}

/-- All of these bytes are added to the checksum and to what has been taken. -/
def addedAll (s : Pn532Base) (ms : Bytes) : Pn532Base :=
  { s with cksum := s.cksum + ms.sum, taken := s.taken ++ ms }

theorem added_addedAll (s : Pn532Base) : (s.added m).addedAll ms = s.addedAll (m :: ms) := by
  simp [added, addedAll, UInt8.add_assoc]

theorem Inner.addedAll (h : Inner s t) (ms : Bytes) : Inner (s.addedAll ms) (t.addedAll ms) := by
  unfold Inner at h
  rw [h]
  rfl

theorem inner_nil (s : Pn532Base) : Inner (s.addedAll []) s := by
  unfold Inner Pn532Base.addedAll
  rw [List.sum_nil, UInt8.add_zero, List.append_nil]

/-- **The parameters of a command that has them all**, one after the other. -/
theorem feed_params (ms : Bytes) : ∀ {s tk}, Within True e tk ms.length s →
    Within True e (tk ++ ms) 0 (s.feed ms) ∧ Inner (s.addedAll ms) (s.feed ms) := by
  induction ms with
  | nil =>
    intro s tk h
    exact ⟨by rw [List.append_nil]; exact h, inner_nil s⟩
  | cons m ms ih =>
    intro s tk h
    have hwait : s.wait ≠ .top := fun htop => by
      have := (h.top htop).2
      rw [List.length_cons] at this
      omega
    have hnext := h.process hwait m
    rw [List.length_cons, Nat.cast_succ, add_sub_cancel_right] at hnext
    obtain ⟨hin, hinner⟩ := ih hnext
    refine ⟨by rwa [List.append_assoc] at hin, ?_⟩
    have hfirst := (inner_inside hwait m).addedAll ms
    rw [added_addedAll] at hfirst
    exact hfirst.trans hinner

/-! ## §3 — what no command needs -/

/-- In the rest of the payload, or with the bytes of a block if they are being `stored`. -/
def Late (stored : Bool) (s : Pn532Base) : Prop :=
  s.wait = .top ∨ s.wait = .flush ∨ stored = true ∧ ∃ p, s.wait = .data p

/-- The fields that a response is made of, and the blocks unless one is being `stored`. -/
structure Stays (stored : Bool) (m m' : Mif) : Prop where
  cmdbad : m'.cmdbad = m.cmdbad
  lastincmd : m'.lastincmd = m.lastincmd
  bn : m'.bn = m.bn
  retries : m'.mxrtypassiveactivation = m.mxrtypassiveactivation
  mem : stored = false → m'.mem = m.mem

variable {stored : Bool}

theorem Stays.trans {a b c : Mif} (h : Stays stored a b) (h' : Stays stored b c) : Stays stored a c :=
  ⟨h'.cmdbad.trans h.cmdbad, h'.lastincmd.trans h.lastincmd, h'.bn.trans h.bn,
    h'.retries.trans h.retries, fun hs => (h'.mem hs).trans (h.mem hs)⟩

theorem late_flushPayload (s : Pn532Base) : Late stored s.flushPayload := by
  unfold flushPayload
  split
  · exact Or.inr (Or.inl rfl)
  · exact Or.inl rfl

@[simp] theorem mif_flushPayload (s : Pn532Base) : s.flushPayload.mif = s.mif := by
  unfold flushPayload
  split <;> rfl

theorem Late.process (h : Late stored s) (hwait : s.wait ≠ .top) (m : UInt8) :
    Late stored (s.process m) ∧ Stays stored s.mif (s.process m).mif := by
  rcases h with htop | hflush | ⟨rfl, p, hdata⟩
  · exact absurd htop hwait
  · have hstep : s.process m = ({ s with cksum := s.cksum + m }.count m).flushPayload := by
      unfold Pn532Base.process
      rw [hflush]
      rfl
    rw [hstep, mif_flushPayload]
    exact ⟨late_flushPayload _, rfl, rfl, rfl, rfl, fun _ => rfl⟩
  · unfold Pn532Base.process
    rw [hdata]
    unfold take
    dsimp only
    split
    · exact ⟨Or.inr (Or.inr ⟨rfl, _, rfl⟩), rfl, rfl, rfl, rfl, fun hs => Bool.noConfusion hs⟩
    · rw [mif_flushPayload]
      exact ⟨late_flushPayload _, rfl, rfl, rfl, rfl, fun hs => Bool.noConfusion hs⟩

/-- **The rest of the payload.** -/
theorem Late.feed (ms : Bytes) : ∀ {s tk}, Late stored s → Within True e tk ms.length s →
    Stays stored s.mif (s.feed ms).mif := by
  induction ms with
  | nil => exact fun _ _ => ⟨rfl, rfl, rfl, rfl, fun _ => rfl⟩
  | cons m ms ih =>
    intro s tk h hin
    have hwait : s.wait ≠ .top := fun htop => by
      have := (hin.top htop).2
      rw [List.length_cons] at this
      omega
    obtain ⟨hlate, hstay⟩ := h.process hwait m
    have hnext := hin.process hwait m
    rw [List.length_cons, Nat.cast_succ, add_sub_cancel_right] at hnext
    exact hstay.trans (ih hlate hnext)

/-! ## §4 — the commands -/

theorem process_sam (h : At .pdn e s) (hl : Loaded e tk n s) (hcmd : s.mif.cmd = 0x14) (hn : 3 ≤ n)
    (m : UInt8) : (s.process m).wait = .timeout ∧ (s.process m).mif.cmdbad = false := by
  have hlen := hl.len
  rw [process_pdn h, pdn, command]
  unfold count
  dsimp only
  rw [if_pos hcmd, if_neg (by omega)]
  exact ⟨rfl, rfl⟩

theorem process_timeout (h : s.wait = .timeout) (m : UInt8) :
    (s.process m).wait = .useirq ∧ (s.process m).mif.cmdbad = s.mif.cmdbad := by
  unfold process
  rw [h]
  exact ⟨rfl, rfl⟩

theorem process_useirq (h : s.wait = .useirq) (m : UInt8) :
    Late false (s.process m) ∧ (s.process m).mif.cmdbad = s.mif.cmdbad := by
  unfold process
  rw [h]
  exact ⟨late_flushPayload _, by rw [take, mif_flushPayload]; rfl⟩

/-- A `SAMConfiguration` with its parameters is in order. -/
theorem feed_sam (h : At .pdn e s) (hcmd : s.mif.cmd = 0x14) {a b c : UInt8} {ms : Bytes}
    (hl : Loaded e tk ((a :: b :: c :: ms).length : Nat) s) :
    (s.feed (a :: b :: c :: ms)).mif.cmdbad = false := by
  obtain ⟨hwait, hbad⟩ := process_sam h hl hcmd (by simp only [List.length_cons]; omega) a
  obtain ⟨hwait', hbad'⟩ := process_timeout hwait b
  obtain ⟨hlate, hbad''⟩ := process_useirq hwait' c
  have hin : Within True _ _ _ _ :=
    h.pdn hl a fun _ hcfg => absurd (hcmd.symm.trans hcfg) (by decide)
  have hin' := hin.process (by rw [hwait]; exact Wait.noConfusion) b
  have hin'' := hin'.process (by rw [hwait']; exact Wait.noConfusion) c
  have hlen : (((a :: b :: c :: ms).length : Nat) : Int) - 1 - 1 - 1 = ms.length := by
    simp only [List.length_cons]
    omega
  rw [hlen] at hin''
  exact (hlate.feed ms hin'').cmdbad.trans (hbad''.trans (hbad'.trans hbad))

/-- What an `InListPassiveTarget` is refused for. -/
def badTarget (maxtg brty : UInt8) : Bool :=
  decide (maxtg.toUInt16 > 2 ∨ maxtg.toUInt16 ≤ 0) || decide (brty.toUInt16 ≠ 0)

theorem process_maxtg (h : At .pdn e s) (hl : Loaded e tk n s) (hcmd : s.mif.cmd = 0x4a) (hn : 2 ≤ n)
    (m : UInt8) :
    (s.process m).wait = .brty ∧ (s.process m).mif.cmdbad = false ∧
      (s.process m).mif.maxtg = m.toUInt16 ∧
        (s.process m).mif.mxrtypassiveactivation = s.mif.mxrtypassiveactivation := by
  have hlen := hl.len
  rw [process_pdn h, pdn, command]
  unfold count
  dsimp only
  rw [hcmd, if_neg (by decide), if_neg (by decide), if_neg (by decide), if_pos rfl, grabBrty,
    if_neg (by dsimp only; omega)]
  exact ⟨rfl, rfl, rfl, rfl⟩

theorem cmdbad_checkBrty (s : Pn532Base) :
    s.checkBrty.mif.cmdbad =
      (s.mif.cmdbad || decide (s.mif.maxtg > 2 ∨ s.mif.maxtg ≤ 0) || decide (s.mif.brty ≠ 0)) := by
  unfold checkBrty
  rw [mif_flushPayload]
  dsimp only
  split
  · rename_i htg
    rw [decide_eq_true htg, Bool.or_true, Bool.true_or]
    split <;> rfl
  · rename_i htg
    rw [decide_eq_false htg, Bool.or_false]
    split
    · rename_i hbrty
      rw [decide_eq_true hbrty, Bool.or_true]
    · rename_i hbrty
      rw [decide_eq_false hbrty, Bool.or_false]

theorem retries_checkBrty (s : Pn532Base) :
    s.checkBrty.mif.mxrtypassiveactivation = s.mif.mxrtypassiveactivation := by
  unfold checkBrty
  rw [mif_flushPayload]
  dsimp only
  split <;> split <;> rfl

theorem late_checkBrty (s : Pn532Base) : Late stored s.checkBrty := late_flushPayload _

theorem process_brty (h : s.wait = .brty) (hbad : s.mif.cmdbad = false) {a : UInt8}
    (hmaxtg : s.mif.maxtg = a.toUInt16) (m : UInt8) :
    Late false (s.process m) ∧ (s.process m).mif.cmdbad = badTarget a m ∧
      (s.process m).mif.mxrtypassiveactivation = s.mif.mxrtypassiveactivation := by
  have hstep : s.process m = ({ { s with cksum := s.cksum + m } with
      mif := { s.mif with brty := m.toUInt16 } }.count m).checkBrty := by
    unfold process
    rw [h]
    rfl
  rw [hstep]
  refine ⟨late_checkBrty _, ?_, retries_checkBrty _⟩
  rw [cmdbad_checkBrty]
  unfold count badTarget
  dsimp only
  rw [hbad, hmaxtg, Bool.false_or]

theorem feed_target (h : At .pdn e s) (hcmd : s.mif.cmd = 0x4a) {a b : UInt8} {ms : Bytes}
    (hl : Loaded e tk ((a :: b :: ms).length : Nat) s) :
    (s.feed (a :: b :: ms)).mif.cmdbad = badTarget a b ∧
      (s.feed (a :: b :: ms)).mif.mxrtypassiveactivation = s.mif.mxrtypassiveactivation := by
  obtain ⟨hwait, hbad, hmaxtg, hretries⟩ := process_maxtg h hl hcmd (by simp only [List.length_cons]; omega) a
  obtain ⟨hlate, hbad', hretries'⟩ := process_brty hwait hbad hmaxtg b
  have hin : Within True _ _ _ _ :=
    h.pdn hl a fun _ hcfg => absurd (hcmd.symm.trans hcfg) (by decide)
  have hin' := hin.process (by rw [hwait]; exact Wait.noConfusion) b
  have hlen : (((a :: b :: ms).length : Nat) : Int) - 1 - 1 = ms.length := by
    simp only [List.length_cons]
    omega
  rw [hlen] at hin'
  have hstay := hlate.feed ms hin'
  exact ⟨hstay.cmdbad.trans hbad', hstay.retries.trans (hretries'.trans hretries)⟩

theorem process_target (h : At .pdn e s) (hl : Loaded e tk n s) (hcmd : s.mif.cmd = 0x40) (hn : 3 ≤ n)
    (m : UInt8) :
    (s.process m).wait = .lastincmd ∧ (s.process m).mif.cmdbad = false ∧
      (s.process m).mif.mem = s.mif.mem := by
  have hlen := hl.len
  rw [process_pdn h, pdn, command]
  unfold count
  dsimp only
  rw [hcmd, if_neg (by decide), if_pos rfl, if_neg (by omega)]
  exact ⟨rfl, rfl, rfl⟩

theorem process_lastincmd (h : s.wait = .lastincmd) (m : UInt8) :
    (s.process m).wait = .bn ∧ (s.process m).mif.cmdbad = s.mif.cmdbad ∧
      (s.process m).mif.mem = s.mif.mem ∧ (s.process m).mif.lastincmd = m.toUInt16 := by
  unfold process
  rw [h]
  exact ⟨rfl, rfl, rfl, rfl⟩

/-- A command for the card that reads leaves the blocks alone. -/
theorem process_bn (h : s.wait = .bn) (hbad : s.mif.cmdbad = false) (m : UInt8) :
    Late (decide (s.mif.lastincmd ≠ 0x30)) (s.process m) ∧ (s.process m).mif.cmdbad = false ∧
      (s.process m).mif.lastincmd = s.mif.lastincmd ∧ (s.process m).mif.bn = m.toUInt16 ∧
        (s.mif.lastincmd = 0x30 → (s.process m).mif.mem = s.mif.mem) := by
  unfold process
  rw [h]
  unfold take cardCommand count
  dsimp only
  split
  · rename_i hauth
    refine ⟨late_flushPayload _, ?_⟩
    rw [mif_flushPayload]
    refine ⟨hbad, rfl, rfl, fun hread => ?_⟩
    exact absurd (hread.symm.trans hauth.1) (by decide)
  · split
    · rename_i hwrite
      refine ⟨Or.inr (Or.inr ⟨?_, _, rfl⟩), hbad, rfl, rfl, fun hread => ?_⟩
      · rw [decide_eq_true_eq, hwrite.1]
        decide
      · exact absurd (hread.symm.trans hwrite.1) (by decide)
    · split
      · refine ⟨late_flushPayload _, ?_⟩
        rw [mif_flushPayload]
        exact ⟨hbad, rfl, rfl, fun _ => rfl⟩
      · refine ⟨late_flushPayload _, ?_⟩
        rw [mif_flushPayload]
        exact ⟨rfl, rfl, rfl, fun _ => rfl⟩

/-- **An `InDataExchange` with its header is in order**, and if it reads the blocks stay as they are. -/
theorem feed_exchange (h : At .pdn e s) (hcmd : s.mif.cmd = 0x40) {a b c : UInt8} {ms : Bytes}
    (hl : Loaded e tk ((a :: b :: c :: ms).length : Nat) s) :
    let t := s.feed (a :: b :: c :: ms)
    t.mif.cmdbad = false ∧ t.mif.lastincmd = b.toUInt16 ∧ t.mif.bn = c.toUInt16 ∧
      (b.toUInt16 = 0x30 → t.mif.mem = s.mif.mem) := by
  obtain ⟨hwait, hbad, hmem⟩ := process_target h hl hcmd (by simp only [List.length_cons]; omega) a
  obtain ⟨hwait', hbad', hmem', hlast⟩ := process_lastincmd hwait b
  obtain ⟨hlate, hbad'', hlast', hbn, hmem''⟩ := process_bn hwait' (hbad'.trans hbad) c
  have hin : Within True _ _ _ _ :=
    h.pdn hl a fun _ hcfg => absurd (hcmd.symm.trans hcfg) (by decide)
  have hin' := hin.process (by rw [hwait]; exact Wait.noConfusion) b
  have hin'' := hin'.process (by rw [hwait']; exact Wait.noConfusion) c
  have hlen : (((a :: b :: c :: ms).length : Nat) : Int) - 1 - 1 - 1 = ms.length := by
    simp only [List.length_cons]
    omega
  rw [hlen] at hin''
  have hstay := hlate.feed ms hin''
  refine ⟨hstay.cmdbad.trans hbad'', hstay.lastincmd.trans (hlast'.trans hlast), hstay.bn.trans hbn,
    fun hread => ?_⟩
  rw [hlast] at hmem'' hstay
  exact (hstay.mem (by simp [hread])).trans ((hmem'' hread).trans (hmem'.trans hmem))

end Pn532Base

end Espmod.Pn532
