/-
# Espmod.Pn532.Framing — which frames the PN532 model consumes

A stream of frames should leave `process_th` idle after each of them, with exactly the frames for the
module executed, each with its own command byte and parameters. A normal frame that begins with a zero
before `00 FF` is consumed like that unless it is an `RFConfiguration` that is shorter than its item: the
bytes of the item are read without a look at what is left. But it is executed whoever it is for, as the
state that a wrong TFI sets is overwritten, and a host ACK frame, whose TFI is wrong too, leaves the
parser inside of a frame.

Between two bytes the rest of the module runs. It leaves the parser alone, but a response that has been
written clears the command.
-/
import Espmod.Pn532.Response

namespace Espmod.Pn532

open Espmod.Lib.Text (Bytes)

/-! ## §1 — streams of frames -/

/-- What the host sends: a normal frame with `lead` zeros before `00 FF`, or an ACK frame. -/
inductive Frame where
  | normal (lead : Nat) (tfi cmd : UInt8) (params : Bytes) (dcs : UInt8) (hlen : params.length ≤ 253)
  | hostAck

namespace Frame

def bytes : Frame → Bytes
  | .normal lead tfi cmd params dcs _ =>
    List.replicate lead 0 ++ [0x00, 0xFF, UInt8.ofNat (params.length + 2),
      UInt8.ofNat (0x100 - (params.length + 2)), tfi, cmd] ++ params ++ [dcs, 0x00]
  | .hostAck => [0x00, 0x00, 0xFF, 0x00, 0xFF, 0x00]

theorem bytes_normal (lead : Nat) (tfi cmd : UInt8) (params : Bytes) (dcs : UInt8)
    (hlen : params.length ≤ 253) :
    (normal lead tfi cmd params dcs hlen).bytes = List.replicate lead 0 ++
      0x00 :: 0xFF :: UInt8.ofNat (params.length + 2) ::
        UInt8.ofNat (0x100 - (params.length + 2)) :: tfi :: cmd :: (params ++ [dcs, 0x00]) := by
  simp [bytes]

/-- The command byte and the parameters of a frame for the module. -/
def command : Frame → Option Bytes
  | .normal _ tfi cmd params _ _ => if tfi = 0xD4 then some (cmd :: params) else none
  | .hostAck => none

/-- An `RFConfiguration` without all bytes of its item. -/
def short (cmd : UInt8) : Bytes → Bool
  | [] => false
  | item :: rest => decide (cmd = 0x32 ∧ rest.length < Pn532Base.cfgBytes item)

/-- A frame as the parser expects them. -/
def Ok : Frame → Prop
  | .normal lead tfi cmd params _ _ => lead ≠ 0 ∧ tfi = 0xD4 ∧ short cmd params = false
  | .hostAck => False

end Frame

def stream (frames : List Frame) : Bytes := frames.flatMap Frame.bytes

namespace Wait

/-- How many bytes are sure to be read from here on. -/
def wants : Wait → Int
  | .timeout => 2
  | .lastincmd => 2
  | .data p => 16 - p
  | .cfg _ more => more + 1
  | _ => 1

theorem one_le_wants (w : Wait) : 1 ≤ w.wants := by
  cases w <;> dsimp only [wants] <;> omega

end Wait

namespace Pn532Base

/-- What the rest of the module may have done between two bytes, as far as the parser can see it. -/
structure Kept (s t : Pn532Base) : Prop where
  state : t.pn532state = s.pn532state
  wait : t.wait = s.wait
  len : t.mif.len = s.mif.len
  cmd : t.mif.cmd = s.mif.cmd ∨ t.mif.cmd = 0
  taken : t.taken = s.taken
  executed : t.executed = s.executed

/-- A run of `process_th` that takes these bytes, with something that happens in between. -/
inductive FedBy (between : Pn532Base → Pn532Base → Prop) : Pn532Base → Bytes → Pn532Base → Prop where
  | nil {s t : Pn532Base} (h : between s t) : FedBy between s [] t
  | cons {s u t : Pn532Base} {m : UInt8} {ms : Bytes} (h : between s u)
      (rest : FedBy between (u.process m) ms t) : FedBy between s (m :: ms) t

/-- A run of `process_th` that takes these bytes, with the rest of the module in between. -/
abbrev Fed : Pn532Base → Bytes → Pn532Base → Prop := FedBy Kept

/-- At the top of the loop, waiting for a frame. -/
def Idle (s : Pn532Base) : Prop := s.wait = .top ∧ s.pn532state = .idle

/-- The frames have been consumed: the parser is idle, and the frames for the module were executed. -/
structure Consumed (frames : List Frame) (s t : Pn532Base) : Prop where
  idle : t.Idle
  executed : t.executed = s.executed ++ frames.filterMap Frame.command

/-! ## §2 — the rest of the module -/

variable {s t u : Pn532Base}

theorem Kept.refl (s : Pn532Base) : Kept s s := ⟨rfl, rfl, rfl, Or.inl rfl, rfl, rfl⟩

theorem Kept.after (h' : Kept t u) (h : Kept s t) : Kept s u where
  state := h'.state.trans h.state
  wait := h'.wait.trans h.wait
  len := h'.len.trans h.len
  cmd := h'.cmd.elim (fun heq => heq ▸ h.cmd) Or.inr
  taken := h'.taken.trans h.taken
  executed := h'.executed.trans h.executed

theorem kept_mif {m : Mif} (hlen : m.len = s.mif.len) (hcmd : m.cmd = s.mif.cmd) :
    Kept s { s with mif := m } :=
  ⟨rfl, rfl, hlen, Or.inl hcmd, rfl, rfl⟩

theorem kept_pour (s : Pn532Base) : Kept s s.pour := by
  unfold pour
  dsimp only
  split
  · exact ⟨rfl, rfl, rfl, Or.inr rfl, rfl, rfl⟩
  · exact ⟨rfl, rfl, rfl, Or.inl rfl, rfl, rfl⟩

theorem kept_respth (s : Pn532Base) : Kept s s.respth := by
  unfold respth
  split
  · exact ⟨rfl, rfl, rfl, Or.inl rfl, rfl, rfl⟩
  · split <;> exact ⟨rfl, rfl, rfl, Or.inl rfl, rfl, rfl⟩
  · exact ⟨rfl, rfl, rfl, Or.inl rfl, rfl, rfl⟩
  · split
    · exact ⟨rfl, rfl, rfl, Or.inl rfl, rfl, rfl⟩
    · exact (kept_pour _).after ⟨rfl, rfl, rfl, Or.inl rfl, rfl, rfl⟩
  · exact ⟨rfl, rfl, rfl, Or.inl rfl, rfl, rfl⟩
  · exact Kept.refl s

theorem kept_drained (s : Pn532Base) : Kept s s.drained := by
  unfold drained
  split
  · exact kept_pour s
  · split
    · exact (kept_respth _).after ⟨rfl, rfl, rfl, Or.inl rfl, rfl, rfl⟩
    · exact Kept.refl s

theorem kept_wake (s : Pn532Base) : Kept s s.wake := by
  unfold wake
  split
  · split <;> exact ⟨rfl, rfl, rfl, Or.inl rfl, rfl, rfl⟩
  · exact Kept.refl s

/-- The bytes among the events. -/
def sent (es : List Event) : Bytes :=
  es.filterMap fun
    | .byte msg => some msg
    | _ => none

theorem kept_receive (s : Pn532Base) (m : UInt8) : Kept (s.process m) (s.receive m) := by
  unfold receive
  dsimp only
  split
  · exact (kept_drained _).after (kept_wake _)
  · exact kept_wake _

theorem kept_read (s : Pn532Base) : Kept s (s.step .read) := by
  unfold step
  dsimp only
  split
  · exact Kept.refl s
  · exact (kept_drained _).after ⟨rfl, rfl, rfl, Or.inl rfl, rfl, rfl⟩

theorem kept_expire (s : Pn532Base) : Kept s (s.step .expire) := by
  unfold step
  dsimp only
  split
  · split
    · exact (kept_respth _).after ⟨rfl, rfl, rfl, Or.inl rfl, rfl, rfl⟩
    · exact ⟨rfl, rfl, rfl, Or.inl rfl, rfl, rfl⟩
  · exact Kept.refl s

theorem Fed.kept {ms : Bytes} (h : Kept s u) (hfed : Fed u ms t) : Fed s ms t := by
  cases hfed with
  | nil h' => exact .nil (h'.after h)
  | cons h' rest => exact .cons (h'.after h) rest

/-- **Every run of the module is such a run of the parser.** -/
theorem fed_run (es : List Event) : ∀ s : Pn532Base, Fed s (sent es) (s.run es) := by
  induction es with
  | nil => exact fun s => .nil (Kept.refl s)
  | cons e es ih =>
    intro s
    cases e with
    | byte msg => exact .cons (Kept.refl s) ((ih _).kept (kept_receive s msg))
    | read => exact (ih _).kept (kept_read s)
    | expire => exact (ih _).kept (kept_expire s)
    | present uid => exact (ih _).kept (kept_mif (m := s.mif.setcardpresent uid) rfl rfl)
    | remove => exact (ih _).kept (kept_mif (m := s.mif.setcardnotpresent) rfl rfl)

/-! ## §3 — the parser, byte by byte -/

variable {e : List Bytes} {tk : Bytes} {n : Int} {fit : Prop}

/-- At the top of the loop in this state, with these commands executed. -/
structure At (st : State) (e : List Bytes) (s : Pn532Base) : Prop where
  wait : s.wait = .top
  state : s.pn532state = st
  executed : s.executed = e

theorem At.kept {st : State} (h : At st e s) (hk : Kept s u) : At st e u :=
  ⟨hk.wait.trans h.wait, hk.state.trans h.state, hk.executed.trans h.executed⟩

theorem process_top (h : s.wait = .top) (m : UInt8) :
    s.process m = { s with cksum := s.cksum + m }.top m := by
  unfold process
  rw [h]
  rfl

section header

variable (m : UInt8)

theorem At.idle_zero (h : At .idle e s) : At .unlock1 e (s.process 0) := by
  rw [process_top h.wait, top, h.state]
  exact ⟨h.wait, rfl, h.executed⟩

theorem At.unlock1_zero (h : At .unlock1 e s) : At .unlock2 e (s.process 0) := by
  rw [process_top h.wait, top, h.state]
  exact ⟨h.wait, rfl, h.executed⟩

theorem At.unlock2_zero (h : At .unlock2 e s) : At .unlock2 e (s.process 0) := by
  rw [process_top h.wait, top, h.state]
  exact ⟨h.wait, rfl, h.executed⟩

theorem At.unlock2_ff (h : At .unlock2 e s) : At .unlock3 e (s.process 0xFF) := by
  rw [process_top h.wait, top, h.state]
  exact ⟨h.wait, rfl, h.executed⟩

theorem At.unlock3 (h : At .unlock3 e s) :
    At .unlock4 e (s.process m) ∧ (s.process m).mif.len = m.toNat := by
  rw [process_top h.wait, top, h.state]
  exact ⟨⟨h.wait, rfl, h.executed⟩, rfl⟩

theorem At.unlock4 (h : At .unlock4 e s) :
    At .unlock5 e (s.process m) ∧ (s.process m).mif.len = s.mif.len := by
  rw [process_top h.wait, top, h.state]
  dsimp only
  split <;> exact ⟨⟨h.wait, rfl, h.executed⟩, rfl⟩

/-- Whatever the TFI. -/
theorem At.unlock5 (h : At .unlock5 e s) :
    At .pd0 e (s.process m) ∧ (s.process m).mif.len = s.mif.len - 1 := by
  rw [process_top h.wait, top, h.state]
  dsimp only
  split <;> exact ⟨⟨h.wait, rfl, h.executed⟩, rfl⟩

theorem At.pd0 (h : At .pd0 e s) :
    At (if s.mif.len - 1 = 0 then .dcs else .pdn) e (s.process m) ∧
      (s.process m).mif.len = s.mif.len - 1 ∧ (s.process m).taken = [m] ∧
        (s.process m).mif.cmd = m := by
  rw [process_top h.wait, top, h.state]
  exact ⟨⟨h.wait, rfl, h.executed⟩, rfl, rfl, rfl⟩

theorem At.dcs (h : At .dcs e s) :
    At .lock e (s.process m) ∧ (s.process m).taken = s.taken := by
  rw [process_top h.wait, top, h.state]
  dsimp only
  split <;> exact ⟨⟨h.wait, rfl, h.executed⟩, rfl⟩

theorem At.lock (h : At .lock e s) : At .idle (e ++ [s.taken]) (s.process m) := by
  rw [process_top h.wait, top, h.state]
  dsimp only
  split <;> exact ⟨h.wait, rfl, congrArg (· ++ [s.taken]) h.executed⟩

end header

/-! ## §4 — the parameters -/

/-- What has been taken, and how much is left. -/
structure Loaded (e : List Bytes) (tk : Bytes) (n : Int) (s : Pn532Base) : Prop where
  executed : s.executed = e
  taken : s.taken = tk
  len : s.mif.len = n

/-- In the parameters with so many left, or behind the last; if they `fit`, nothing is read that is not
there. -/
structure Within (fit : Prop) (e : List Bytes) (tk : Bytes) (n : Int) (s : Pn532Base) : Prop where
  loaded : Loaded e tk n s
  top : s.wait = .top → s.pn532state = .dcs ∧ n ≤ 0
  wants : s.wait ≠ .top → fit → s.wait.wants ≤ n

theorem Loaded.kept (h : Loaded e tk n s) (hk : Kept s u) : Loaded e tk n u :=
  ⟨hk.executed.trans h.executed, hk.taken.trans h.taken, hk.len.trans h.len⟩

theorem Within.kept (h : Within fit e tk n s) (hk : Kept s u) : Within fit e tk n u where
  loaded := h.loaded.kept hk
  top := by rw [hk.wait, hk.state]; exact h.top
  wants := by rw [hk.wait]; exact h.wants

/-- A byte of the parameters is counted. -/
theorem Loaded.count (h : Loaded e tk n s) (m : UInt8) : Loaded e (tk ++ [m]) (n - 1) (s.count m) :=
  ⟨h.executed, congrArg (· ++ [m]) h.taken, congrArg (· - 1) h.len⟩

theorem Loaded.mif (h : Loaded e tk n s) {m : Mif} (hlen : m.len = s.mif.len) :
    Loaded e tk n { s with mif := m } :=
  ⟨h.executed, h.taken, hlen.trans h.len⟩

theorem Loaded.within {w : Wait} (h : Loaded e tk n s) (hw : w ≠ .top)
    (hwants : fit → w.wants ≤ n) : Within fit e tk n { s with wait := w } :=
  ⟨⟨h.executed, h.taken, h.len⟩, fun heq => absurd heq hw, fun _ => hwants⟩

theorem Loaded.flushPayload (h : Loaded e tk n s) : Within fit e tk n s.flushPayload := by
  unfold Pn532Base.flushPayload
  have hlen := h.len
  split
  · refine h.within Wait.noConfusion fun _ => ?_
    show 1 ≤ n
    omega
  · exact ⟨⟨h.executed, h.taken, h.len⟩, fun _ => ⟨rfl, by omega⟩, fun hne => absurd rfl hne⟩

theorem Loaded.checkBrty (h : Loaded e tk n s) : Within fit e tk n s.checkBrty := by
  unfold Pn532Base.checkBrty
  refine Loaded.flushPayload ?_
  dsimp only
  split <;> split <;> exact ⟨h.executed, h.taken, h.len⟩

theorem Loaded.grabBrty (h : Loaded e tk n s) : Within fit e tk n s.grabBrty := by
  unfold Pn532Base.grabBrty
  have hlen := h.len
  split
  · exact (h.mif (by rfl)).checkBrty
  · refine h.within Wait.noConfusion fun _ => ?_
    show 1 ≤ n
    omega

theorem Loaded.cardCommand (h : Loaded e tk n s) : Within fit e tk n s.cardCommand := by
  unfold Pn532Base.cardCommand
  have hlen := h.len
  dsimp only
  split
  · exact (h.mif (by rfl)).flushPayload
  · split
    · rename_i hwrite
      refine h.within Wait.noConfusion fun _ => ?_
      show 16 - (0 : Int) ≤ n
      omega
    · split
      · exact h.flushPayload
      · exact (h.mif (by rfl)).flushPayload

/-- **A byte in the middle of the `PDN` branch.** -/
theorem Loaded.take (h : Loaded e tk n s) (m : UInt8) {w : Wait} (hw : w ≠ .top)
    (hwants : fit → w.wants ≤ n) :
    Within fit e (tk ++ [m]) (n - 1) (s.take m w) := by
  cases w with
  | top => exact absurd rfl hw
  | timeout =>
    refine Loaded.within ((h.mif (m := { s.mif with timeout := m.toNat }) rfl).count m)
      Wait.noConfusion fun hfit => ?_
    have hroom : 2 ≤ n := hwants hfit
    show 1 ≤ n - 1
    omega
  | useirq => exact ((h.mif (by rfl)).count m).flushPayload
  | lastincmd =>
    refine Loaded.within ((h.mif (m := { s.mif with lastincmd := m.toUInt16 }) rfl).count m)
      Wait.noConfusion fun hfit => ?_
    have hroom : 2 ≤ n := hwants hfit
    show 1 ≤ n - 1
    omega
  | bn => exact ((h.mif (by rfl)).count m).cardCommand
  | data p =>
    unfold Pn532Base.take
    dsimp only
    split
    · refine Loaded.within ((h.mif (by rfl)).count m) Wait.noConfusion fun hfit => ?_
      have hroom : 16 - (p.val : Int) ≤ n := hwants hfit
      show 16 - ((p.val + 1 : Nat) : Int) ≤ n - 1
      omega
    · exact ((h.mif (by rfl)).count m).flushPayload
  | cfg item more =>
    cases more with
    | zero =>
      unfold Pn532Base.take
      dsimp only
      split
      · exact ((h.mif (by rfl)).count m).grabBrty
      · exact (h.count m).grabBrty
    | succ more =>
      refine (h.count m).within Wait.noConfusion fun hfit => ?_
      have hroom : ((more + 1 : Nat) : Int) + 1 ≤ n := hwants hfit
      show (more : Int) + 1 ≤ n - 1
      omega
  | brty => exact ((h.mif (by rfl)).count m).checkBrty
  | flush => exact (h.count m).flushPayload

theorem Within.process (h : Within fit e tk n s) (hwait : s.wait ≠ .top) (m : UInt8) :
    Within fit e (tk ++ [m]) (n - 1) (s.process m) := by
  have hl : Loaded e tk n { s with cksum := s.cksum + m } :=
    ⟨h.loaded.executed, h.loaded.taken, h.loaded.len⟩
  exact hl.take m hwait (h.wants hwait)

theorem Loaded.command (h : Loaded e tk n s) (m : UInt8)
    (hfits : fit → s.mif.cmd = 0x32 → cfgBytes m ≤ n) : Within fit e tk n (s.command m) := by
  have hlen := h.len
  unfold Pn532Base.command
  dsimp only
  split
  · split
    · exact (h.mif (by rfl)).flushPayload
    · refine Loaded.within (h.mif (by rfl)) Wait.noConfusion fun _ => ?_
      show 2 ≤ n
      omega
  · split
    · split
      · exact (h.mif (by rfl)).flushPayload
      · refine h.within Wait.noConfusion fun _ => ?_
        show 2 ≤ n
        omega
    · split
      · rename_i hcmd
        split
        · exact h.grabBrty
        · rename_i more hmore
          refine h.within Wait.noConfusion fun hfit => ?_
          have hroom := hfits hfit hcmd
          show (more : Int) + 1 ≤ n
          omega
      · split
        · exact (h.mif (by rfl)).grabBrty
        · exact h.flushPayload

theorem process_pdn (h : At .pdn e s) (m : UInt8) :
    s.process m = { s with cksum := s.cksum + m }.pdn m := by
  rw [process_top h.wait]
  unfold top
  dsimp only
  rw [h.state]

/-- **The first byte of the parameters**: a configuration item has to fit. -/
theorem At.pdn (h : At .pdn e s) (hl : Loaded e tk n s) (m : UInt8)
    (hfits : fit → s.mif.cmd = 0x32 → cfgBytes m ≤ n - 1) :
    Within fit e (tk ++ [m]) (n - 1) (s.process m) := by
  have hl' : Loaded e tk n { s with cksum := s.cksum + m, mif := { s.mif with cmdbad := false } } :=
    ⟨hl.executed, hl.taken, hl.len⟩
  rw [process_pdn h]
  exact (hl'.count m).command m hfits

/-! ## §5 — a frame -/

variable {K : Pn532Base → Pn532Base → Prop} {m : UInt8} {ms : Bytes}

theorem FedBy.next (h : FedBy K s (m :: ms) t) : ∃ u, K s u ∧ FedBy K (u.process m) ms t := by
  cases h with
  | cons hK rest => exact ⟨_, hK, rest⟩

theorem FedBy.append {a b : Bytes} (hrefl : ∀ s, K s s) :
    ∀ {s}, FedBy K s (a ++ b) t → ∃ u, FedBy K s a u ∧ FedBy K u b t := by
  induction a with
  | nil => exact fun h => ⟨_, .nil (hrefl _), h⟩
  | cons m a ih =>
    intro s h
    obtain ⟨u, hK, hrest⟩ := h.next
    obtain ⟨v, hv, hb⟩ := ih hrest
    exact ⟨v, .cons hK hv, hb⟩

/-- One run after another, if the first waits for the second. -/
theorem FedBy.trans {a b : Bytes} (hfirst : FedBy Eq s a u) (hrest : Fed u b t) : Fed s (a ++ b) t := by
  induction hfirst with
  | nil heq => exact heq ▸ hrest
  | cons heq _ ih => exact .cons (heq ▸ Kept.refl _) (ih hrest)

section frame

variable (hK : ∀ {a b}, K a b → Kept a b)
include hK

theorem At.next {st : State} (h : At st e s) (hfed : FedBy K s (m :: ms) t) :
    ∃ u, At st e u ∧ Kept s u ∧ FedBy K (u.process m) ms t := by
  obtain ⟨u, hu, hrest⟩ := hfed.next
  exact ⟨u, h.kept (hK hu), hK hu, hrest⟩

/-- Any number of extra zeros. -/
theorem At.zeros (k : Nat) : ∀ {s}, At .unlock2 e s → FedBy K s (List.replicate k 0 ++ ms) t →
    ∃ u, At .unlock2 e u ∧ FedBy K u ms t := by
  induction k with
  | zero => exact fun h hfed => ⟨_, h, hfed⟩
  | succ k ih =>
    intro s h hfed
    obtain ⟨u, hu, -, hrest⟩ := h.next hK hfed
    exact ih hu.unlock2_zero hrest

theorem At.preamble {lead : Nat} (hlead : lead ≠ 0) (h : At .idle e s)
    (hfed : FedBy K s (List.replicate lead 0 ++ 0 :: ms) t) :
    ∃ u, At .unlock2 e u ∧ FedBy K u ms t := by
  obtain ⟨k, rfl⟩ := Nat.exists_eq_succ_of_ne_zero hlead
  obtain ⟨u, hu, -, hrest⟩ := h.next hK hfed
  have hu' := hu.idle_zero
  cases k with
  | zero =>
    obtain ⟨v, hv, -, hv'⟩ := hu'.next hK hrest
    exact ⟨_, hv.unlock1_zero, hv'⟩
  | succ k =>
    obtain ⟨v, hv, -, hv'⟩ := hu'.next hK hrest
    obtain ⟨w, hw, hw'⟩ := hv.unlock1_zero.zeros hK k hv'
    obtain ⟨x, hx, -, hx'⟩ := hw.next hK hw'
    exact ⟨_, hx.unlock2_zero, hx'⟩

/-- Everything up to the command byte. -/
theorem At.header {lead : Nat} (hlead : lead ≠ 0) {len lcs tfi cmd : UInt8} (h : At .idle e s)
    (hfed : FedBy K s (List.replicate lead 0 ++ 0x00 :: 0xFF :: len :: lcs :: tfi :: cmd :: ms) t) :
    ∃ u, At (if (len.toNat : Int) - 2 = 0 then .dcs else .pdn) e u ∧
      Loaded e [cmd] (len.toNat - 2) u ∧ u.mif.cmd = cmd ∧ FedBy K u ms t := by
  obtain ⟨a, ha, hrest⟩ := h.preamble hK hlead hfed
  obtain ⟨b, hb, -, hrest⟩ := ha.next hK hrest
  obtain ⟨c, hc, -, hrest⟩ := hb.unlock2_ff.next hK hrest
  obtain ⟨hc', hlen⟩ := hc.unlock3 len
  obtain ⟨d, hd, hkept, hrest⟩ := hc'.next hK hrest
  obtain ⟨hd', hlen'⟩ := hd.unlock4 lcs
  rw [hkept.len, hlen] at hlen'
  obtain ⟨f, hf, hkept, hrest⟩ := hd'.next hK hrest
  obtain ⟨hf', hlen''⟩ := hf.unlock5 tfi
  rw [hkept.len, hlen'] at hlen''
  obtain ⟨g, hg, hkept, hrest⟩ := hf'.next hK hrest
  obtain ⟨hg', hleft, htaken, hcmd⟩ := hg.pd0 cmd
  rw [hkept.len, hlen'', sub_sub] at hg' hleft
  exact ⟨_, hg', ⟨hg'.executed, htaken, hleft⟩, hcmd, hrest⟩

/-- The parameters of a command that has them all. -/
theorem Within.params {ps : Bytes} : ∀ {s tk}, Within True e tk ps.length s →
    FedBy K s (ps ++ ms) t → ∃ u, Within True e (tk ++ ps) 0 u ∧ FedBy K u ms t := by
  induction ps with
  | nil => exact fun h hfed => ⟨_, by rw [List.append_nil]; exact h, hfed⟩
  | cons p ps ih =>
    intro s tk h hfed
    obtain ⟨u, hu, hrest⟩ := hfed.next
    have hin := h.kept (hK hu)
    have hwait : u.wait ≠ .top := fun htop => by
      have := (hin.top htop).2
      rw [List.length_cons] at this
      omega
    have hnext := hin.process hwait p
    rw [List.length_cons, Nat.cast_succ, add_sub_cancel_right] at hnext
    obtain ⟨v, hv, hrest'⟩ := ih hnext hrest
    exact ⟨v, by rwa [List.append_assoc] at hv, hrest'⟩

omit hK in
/-- Behind the last of the parameters. -/
theorem Within.atDcs (h : Within True e tk 0 s) : At .dcs e s := by
  by_cases hwait : s.wait = .top
  · exact ⟨hwait, (h.top hwait).1, h.loaded.executed⟩
  · have := h.wants hwait trivial
    have := s.wait.one_le_wants
    omega

theorem At.trailer {d z : UInt8} (h : At .dcs e s) (htaken : s.taken = tk)
    (hfed : FedBy K s [d, z] t) : At .idle (e ++ [tk]) t := by
  obtain ⟨u, hu, hkept, hrest⟩ := h.next hK hfed
  obtain ⟨hu', htaken'⟩ := hu.dcs d
  obtain ⟨v, hv, hkept', hrest⟩ := hu'.next hK hrest
  have hv' := hv.lock z
  rw [hkept'.taken, htaken', hkept.taken, htaken] at hv'
  cases hrest with
  | nil hlast => exact hv'.kept (hK hlast)

omit hK in
theorem length_toNat {n : Nat} (h : n ≤ 253) : (UInt8.ofNat (n + 2)).toNat = n + 2 := by
  rw [UInt8.toNat_ofNat']
  omega

/-- **A frame that begins with a zero and has all of its parameters is consumed and executed**, whoever it
is for. -/
theorem At.normal {lead : Nat} (hlead : lead ≠ 0) {tfi cmd dcs : UInt8} {params : Bytes}
    {hlen : params.length ≤ 253} (hshort : Frame.short cmd params = false) (h : At .idle e s)
    (hfed : FedBy K s (Frame.normal lead tfi cmd params dcs hlen).bytes t) :
    At .idle (e ++ [cmd :: params]) t := by
  rw [Frame.bytes_normal] at hfed
  obtain ⟨u, hu, hload, hcmd, hrest⟩ := h.header hK hlead hfed
  rw [length_toNat hlen, Nat.cast_add, Nat.cast_ofNat, add_sub_cancel_right] at hu hload
  cases params with
  | nil => exact At.trailer hK hu hload.taken hrest
  | cons p ps =>
    rw [if_neg (by rw [List.length_cons]; omega)] at hu
    obtain ⟨v, hv, hkept, hrest⟩ := hu.next hK hrest
    have hfits : True → v.mif.cmd = 0x32 → (cfgBytes p : Int) ≤ (p :: ps).length - 1 := by
      intro _ hcfg
      have hcmd' : cmd = 0x32 := by
        rcases hkept.cmd with heq | heq
        · rw [← hcmd, ← heq, hcfg]
        · exact absurd (heq.symm.trans hcfg) (by decide)
      have hroom : ¬ ps.length < cfgBytes p := fun hlt => of_decide_eq_false hshort ⟨hcmd', hlt⟩
      rw [List.length_cons]
      omega
    have hin := hv.pdn (hload.kept hkept) p hfits
    rw [List.length_cons, Nat.cast_succ, add_sub_cancel_right] at hin
    obtain ⟨w, hw, hrest⟩ := hin.params hK hrest
    exact At.trailer hK hw.atDcs hw.loaded.taken hrest

end frame

/-! ## §6 — frames that are not consumed -/

/-- How many bytes a frame has had at least, where the parser is. -/
def depth (s : Pn532Base) : Nat :=
  match s.wait, s.pn532state with
  | .top, .idle => 0
  | .top, .unlock1 => 1
  | .top, .unlock2 => 2
  | .top, .unlock3 => 3
  | .top, .unlock4 => 4
  | .top, .unlock5 => 5
  | .top, .pd0 => 6
  | .top, .lock => s.taken.length + 7
  | _, _ => s.taken.length + 6

/-- How many bytes it takes at least to be idle again, in the parameters and behind. -/
def owed (s : Pn532Base) : Nat :=
  match s.wait, s.pn532state with
  | .top, .dcs => 2
  | .top, .lock => 1
  | .top, _ => 0
  | .cfg _ more, _ => more + 3
  | _, _ => 3

theorem Within.depth (h : Within fit e tk n s) : s.depth = tk.length + 6 := by
  have htaken := h.loaded.taken
  unfold Pn532Base.depth
  cases hwait : s.wait with
  | top => rw [(h.top hwait).1]; simp [htaken]
  | _ => simp [htaken]

theorem Within.two_le_owed (h : Within fit e tk n s) : 2 ≤ s.owed := by
  unfold owed
  cases hwait : s.wait with
  | top => rw [(h.top hwait).1]
  | _ => simp

/-- The parser gets at most one byte deeper, what it executes has had its bytes, and it is idle at most one
byte sooner. -/
structure Paced (s t : Pn532Base) : Prop where
  depth : t.depth ≤ s.depth + 1
  executed : ∃ added, t.executed = s.executed ++ added ∧ ∀ a ∈ added, a.length + 7 ≤ s.depth
  owed : s.owed ≤ t.owed + 1

theorem paced_of_executed (hdepth : t.depth ≤ s.depth + 1) (hexec : t.executed = s.executed)
    (howed : s.owed ≤ t.owed + 1) : Paced s t :=
  ⟨hdepth, ⟨[], by rw [List.append_nil]; exact hexec, by simp⟩, howed⟩

/-- In the parameters. -/
theorem paced_inside (hwait : s.wait ≠ .top) (m : UInt8) : Paced s (s.process m) := by
  have hin : Within False s.executed s.taken s.mif.len s :=
    ⟨⟨rfl, rfl, rfl⟩, fun htop => absurd htop hwait, fun _ => False.elim⟩
  have hnext := hin.process hwait m
  refine paced_of_executed ?_ hnext.loaded.executed ?_
  · rw [hnext.depth, List.length_append, hin.depth, List.length_singleton]
  · have htwo := hnext.two_le_owed
    cases hw : s.wait with
    | top => exact absurd hw hwait
    | cfg item more =>
      cases more with
      | zero => simpa [owed, hw] using htwo
      | succ more =>
        have hcfg : (s.process m).wait = .cfg item more := by
          unfold process
          rw [hw]
          rfl
        simp [owed, hw, hcfg]
    | _ => simpa [owed, hw] using htwo

/-- At the top of the loop. -/
theorem paced_top (hwait : s.wait = .top) (m : UInt8) : Paced s (s.process m) := by
  have hat : At s.pn532state s.executed s := ⟨hwait, rfl, rfl⟩
  cases hstate : s.pn532state with
  | pdn =>
    rw [hstate] at hat
    have hin : Within False _ _ (s.mif.len - 1) _ := hat.pdn ⟨rfl, rfl, rfl⟩ m False.elim
    refine paced_of_executed ?_ hin.loaded.executed (by simp [owed, hwait, hstate])
    rw [hin.depth]
    simp [depth, hwait, hstate]
  | lock =>
    rw [hstate] at hat
    have hnext := hat.lock m
    refine ⟨?_, ⟨[s.taken], hnext.executed, ?_⟩, by simp [owed, hwait, hstate]⟩
    · simp [depth, hnext.wait, hnext.state]
    · simp [depth, hwait, hstate]
  | pd0 =>
    rw [hstate] at hat
    obtain ⟨hnext, -, htaken, -⟩ := hat.pd0 m
    refine paced_of_executed ?_ hnext.executed (by simp [owed, hwait, hstate])
    unfold depth
    rw [hnext.wait, hnext.state, htaken, hwait, hstate]
    by_cases hlast : s.mif.len - 1 = 0 <;> simp [hlast]
  | dcs =>
    rw [hstate] at hat
    obtain ⟨hnext, htaken⟩ := hat.dcs m
    refine paced_of_executed ?_ hnext.executed ?_
    · simp [depth, hnext.wait, hnext.state, htaken, hwait, hstate]
    · simp [owed, hnext.wait, hnext.state, hwait, hstate]
  | unlock5 =>
    rw [hstate] at hat
    have hnext := (hat.unlock5 m).1
    exact paced_of_executed (by simp [depth, hnext.wait, hnext.state, hwait, hstate]) hnext.executed
      (by simp [owed, hwait, hstate])
  | unlock4 =>
    rw [hstate] at hat
    have hnext := (hat.unlock4 m).1
    exact paced_of_executed (by simp [depth, hnext.wait, hnext.state, hwait, hstate]) hnext.executed
      (by simp [owed, hwait, hstate])
  | unlock3 =>
    rw [hstate] at hat
    have hnext := (hat.unlock3 m).1
    exact paced_of_executed (by simp [depth, hnext.wait, hnext.state, hwait, hstate]) hnext.executed
      (by simp [owed, hwait, hstate])
  | _ =>
    -- a zero goes on, anything else but `FF` goes back
    rw [process_top hwait, top, hstate]
    dsimp only
    repeat' split
    all_goals exact paced_of_executed (by simp [depth, hwait, hstate, warn]) rfl (by simp [owed, hwait, hstate])

theorem paced (s : Pn532Base) (m : UInt8) : Paced s (s.process m) := by
  by_cases hwait : s.wait = .top
  · exact paced_top hwait m
  · exact paced_inside hwait m

/-- Nothing but bytes. -/
def feed (s : Pn532Base) (ms : Bytes) : Pn532Base := ms.foldl process s

theorem owed_feed (ms : Bytes) : ∀ s : Pn532Base, s.owed ≤ (s.feed ms).owed + ms.length := by
  induction ms with
  | nil => exact fun s => le_rfl
  | cons m ms ih =>
    intro s
    have hstep := (paced s m).owed
    have hrest := ih (s.process m)
    rw [List.length_cons]
    show s.owed ≤ ((s.process m).feed ms).owed + _
    omega

/-- **What is executed has had its bytes.** -/
theorem executed_feed (ms : Bytes) : ∀ s : Pn532Base, ∃ added,
    (s.feed ms).executed = s.executed ++ added ∧ ∀ a ∈ added, a.length + 8 ≤ s.depth + ms.length := by
  induction ms with
  | nil => exact fun s => ⟨[], (List.append_nil _).symm, by simp⟩
  | cons m ms ih =>
    intro s
    obtain ⟨hdepth, ⟨first, hfirst, hshort⟩, -⟩ := paced s m
    obtain ⟨rest, hrest, hshort'⟩ := ih (s.process m)
    refine ⟨first ++ rest, ?_, fun a ha => ?_⟩
    · rw [← List.append_assoc, ← hfirst]
      exact hrest
    · rw [List.length_cons]
      rcases List.mem_append.mp ha with hmem | hmem
      · have := hshort a hmem
        omega
      · have := hshort' a hmem
        omega

/-- A zero that leaves the parser idle has executed something. -/
theorem executed_of_idle (h : (s.process 0).Idle) :
    (s.process 0).executed = s.executed ++ [s.taken] := by
  obtain ⟨hidle, hidle'⟩ := h
  by_cases hwait : s.wait = .top
  · have hat : At s.pn532state s.executed s := ⟨hwait, rfl, rfl⟩
    cases hstate : s.pn532state with
    | lock =>
      rw [hstate] at hat
      exact (hat.lock 0).executed
    | pdn =>
      rw [hstate] at hat
      have hin : Within False _ _ (s.mif.len - 1) _ := hat.pdn ⟨rfl, rfl, rfl⟩ 0 False.elim
      exact absurd (hidle'.symm.trans (hin.top hidle).1) State.noConfusion
    | pd0 =>
      rw [hstate] at hat
      have hnext := hidle'.symm.trans (hat.pd0 0).1.state
      split at hnext <;> exact absurd hnext State.noConfusion
    | _ =>
      rw [process_top hwait, top, hstate] at hidle'
      dsimp only at hidle'
      repeat' split at hidle'
      all_goals simp_all
  · have hin : Within False s.executed s.taken s.mif.len s :=
      ⟨⟨rfl, rfl, rfl⟩, fun htop => absurd htop hwait, fun _ => False.elim⟩
    exact absurd (hidle'.symm.trans ((hin.process hwait 0).top hidle).1) State.noConfusion

/-! ## §7 — the result -/

theorem idle_iff : s.Idle ↔ At .idle s.executed s :=
  ⟨fun h => ⟨h.1, h.2, rfl⟩, fun h => ⟨h.wait, h.state⟩⟩

theorem fed_feed (ms : Bytes) : ∀ s : Pn532Base, FedBy Eq s ms (s.feed ms) := by
  induction ms with
  | nil => exact fun s => .nil rfl
  | cons m ms ih => exact fun s => .cons rfl (ih _)

theorem kept_of_eq {a b : Pn532Base} (h : a = b) : Kept a b := h ▸ Kept.refl a

theorem FedBy.fed {ms : Bytes} (h : FedBy Eq s ms t) : Fed s ms t := by
  induction h with
  | nil heq => exact .nil (kept_of_eq heq)
  | cons heq _ ih => exact .cons (kept_of_eq heq) ih

/-- Without a zero before `00 FF` the rest of the frame is too short for the parser to execute it. -/
theorem no_lead (h : s.Idle) (tfi cmd dcs : UInt8) (params : Bytes) (hlen : params.length ≤ 253) :
    ¬ Consumed [.normal 0 tfi cmd params dcs hlen] s
      (s.feed (Frame.normal 0 tfi cmd params dcs hlen).bytes) := by
  intro hcons
  have hone := (idle_iff.mp h).idle_zero
  obtain ⟨u, hu⟩ : ∃ u, u = (s.process 0).process 0xFF := ⟨_, rfl⟩
  have hidle : At .idle s.executed u := by
    rw [hu, process_top hone.wait, top, hone.state]
    exact ⟨hone.wait, rfl, hone.executed⟩
  have hzero : u.depth = 0 := by simp [depth, hidle.wait, hidle.state]
  obtain ⟨body, hbody⟩ : ∃ body : Bytes, body = [UInt8.ofNat (params.length + 2),
    UInt8.ofNat (0x100 - (params.length + 2)), tfi, cmd] ++ params ++ [dcs] := ⟨_, rfl⟩
  have hfeed : s.feed (Frame.normal 0 tfi cmd params dcs hlen).bytes = u.feed (body ++ [0]) := by
    rw [hu, hbody]
    simp [Frame.bytes, feed]
  have hlast : u.feed (body ++ [0]) = (u.feed body).process 0 := by
    unfold feed
    rw [List.foldl_append]
    rfl
  have hlength : (body ++ [0]).length = params.length + 6 := by
    rw [hbody]
    simp
  have hexec := hcons.executed
  rw [hfeed] at hexec
  by_cases htfi : tfi = 0xD4
  · obtain ⟨added, hadded, hshort⟩ := executed_feed (body ++ [0]) u
    rw [hidle.executed, hexec, List.append_cancel_left_eq] at hadded
    have hmem : cmd :: params ∈ added := by
      rw [← hadded]
      simp [Frame.command, htfi]
    have := hshort _ hmem
    rw [hlength, hzero, List.length_cons] at this
    omega
  · have hdone : ((u.feed body).process 0).Idle := by
      rw [← hlast, ← hfeed]
      exact hcons.idle
    obtain ⟨added, hadded, -⟩ := executed_feed body u
    have hlen' := congrArg List.length (hexec.symm.trans (hlast ▸ executed_of_idle hdone))
    rw [hadded, hidle.executed] at hlen'
    simp [Frame.command, htfi] at hlen'

theorem FedBy.eq_feed {ms : Bytes} (h : FedBy Eq s ms t) : t = s.feed ms := by
  induction h with
  | nil heq => exact heq.symm
  | cons heq _ ih => exact heq ▸ ih

/-- The bytes of a configuration item are read whatever is left. -/
theorem process_item (h : At .pdn e s) (hcmd : s.mif.cmd = 0x32) {item : UInt8} {more : Nat}
    (hmore : cfgBytes item = more + 1) : (s.process item).owed = more + 3 := by
  have hwait : (s.process item).wait = .cfg item more := by
    rw [process_pdn h, pdn, command]
    unfold count
    dsimp only
    rw [hcmd, hmore]
    rfl
  unfold owed
  rw [hwait]

/-- An item that is too long for its frame is still being read when the frame is over. -/
theorem no_room (h : s.Idle) {lead : Nat} (hlead : lead ≠ 0) (tfi cmd dcs : UInt8) (params : Bytes)
    (hlen : params.length ≤ 253) (hshort : Frame.short cmd params = true) :
    ¬ (s.feed (Frame.normal lead tfi cmd params dcs hlen).bytes).Idle := by
  obtain ⟨t, ht⟩ : ∃ t, s.feed (Frame.normal lead tfi cmd params dcs hlen).bytes = t := ⟨_, rfl⟩
  have hfed := ht ▸ fed_feed (Frame.normal lead tfi cmd params dcs hlen).bytes s
  rw [Frame.bytes_normal] at hfed
  rw [ht]
  intro hidle
  obtain ⟨u, hu, -, hcmd, hrest⟩ := (idle_iff.mp h).header kept_of_eq hlead hfed
  rw [length_toNat hlen, Nat.cast_add, Nat.cast_ofNat, add_sub_cancel_right] at hu
  cases params with
  | nil => exact Bool.noConfusion hshort
  | cons item rest =>
    obtain ⟨hcfg, hroom⟩ := of_decide_eq_true hshort
    obtain ⟨more, hmore⟩ := Nat.exists_eq_add_one.mpr (Nat.zero_lt_of_lt hroom)
    rw [if_neg (by rw [List.length_cons]; omega)] at hu
    obtain ⟨v, rfl, hrest⟩ := hrest.next
    have hend : t = (u.process item).feed (rest ++ [dcs, 0]) := hrest.eq_feed
    have howed := owed_feed (rest ++ [dcs, 0]) (u.process item)
    have hzero : t.owed = 0 := by simp [owed, hidle.1, hidle.2]
    rw [process_item hu (hcmd.trans hcfg) hmore, ← hend, hzero, List.length_append, List.length_cons,
      List.length_singleton] at howed
    omega

/-- The TFI of a host ACK frame takes the parser into the parameters. -/
theorem host_ack (h : s.Idle) : ¬ (s.feed Frame.hostAck.bytes).Idle := by
  have hff := ((idle_iff.mp h).idle_zero.unlock1_zero.unlock2_ff.unlock3 0).1
  have htfi := ((hff.unlock4 0xFF).1.unlock5 0).1
  exact fun hidle => absurd (htfi.state.symm.trans hidle.2) State.noConfusion

/-- **A frame that is not as the parser expects it is not consumed.** -/
theorem not_consumed (h : s.Idle) {f : Frame} (hbad : ¬ f.Ok) : ¬ Consumed [f] s (s.feed f.bytes) := by
  cases f with
  | hostAck => exact fun hcons => host_ack h hcons.idle
  | normal lead tfi cmd params dcs hlen =>
    by_cases hlead : lead = 0
    · subst hlead
      exact no_lead h tfi cmd dcs params hlen
    · cases hshort : Frame.short cmd params with
      | true => exact fun hcons => no_room h hlead tfi cmd dcs params hlen hshort hcons.idle
      | false =>
        have htfi : tfi ≠ 0xD4 := fun htfi => hbad ⟨hlead, htfi, hshort⟩
        have hfed := fed_feed (Frame.normal lead tfi cmd params dcs hlen).bytes s
        have hdone := (idle_iff.mp h).normal kept_of_eq hlead hshort hfed
        intro hcons
        have hexec := hdone.executed.symm.trans hcons.executed
        simp [Frame.command, htfi] at hexec

theorem consumed_of_ok {f : Frame} (hok : f.Ok) (h : s.Idle) (hfed : Fed s f.bytes t) :
    Consumed [f] s t := by
  cases f with
  | hostAck => exact hok.elim
  | normal lead tfi cmd params dcs hlen =>
    obtain ⟨hlead, htfi, hshort⟩ := hok
    have hdone := (idle_iff.mp h).normal id hlead hshort hfed
    refine ⟨⟨hdone.wait, hdone.state⟩, ?_⟩
    rw [hdone.executed]
    simp [Frame.command, htfi]

theorem Consumed.append {a b : List Frame} (h : Consumed a s u) (h' : Consumed b u t) :
    Consumed (a ++ b) s t :=
  ⟨h'.idle, by rw [h'.executed, h.executed, List.filterMap_append, List.append_assoc]⟩

theorem Consumed.cancel {a b : List Frame} (h : Consumed a s u) (h' : Consumed (a ++ b) s t) :
    Consumed b u t := by
  refine ⟨h'.idle, ?_⟩
  have hexec := h'.executed
  rw [List.filterMap_append, ← List.append_assoc, ← h.executed] at hexec
  exact hexec

/-- The stream may be cut behind any of its frames. -/
theorem stream_consumed {frames : List Frame} (hok : ∀ f ∈ frames, f.Ok) : ∀ {s : Pn532Base}, s.Idle →
    Fed s (stream frames) t → Consumed frames s t := by
  induction frames with
  | nil =>
    intro s h hfed
    cases hfed with
    | nil hk => exact ⟨⟨hk.wait.trans h.1, hk.state.trans h.2⟩, by simp [hk.executed]⟩
  | cons f frames ih =>
    intro s h hfed
    obtain ⟨u, hfirst, hrest⟩ := FedBy.append Kept.refl hfed
    have hu := consumed_of_ok (hok f List.mem_cons_self) h hfirst
    exact hu.append (ih (fun g hg => hok g (List.mem_cons_of_mem f hg)) hu.idle hrest)

/-- **The frames are consumed and executed exactly as long as each is as the parser expects it**: every
stream of them, whatever the rest of the module does in between. -/
theorem frames_consumed (s : Pn532Base) (h : s.Idle) (frames : List Frame) :
    (∀ j t, Fed s (stream (frames.take j)) t → Consumed (frames.take j) s t) ↔
      ∀ f ∈ frames, f.Ok := by
  constructor
  · intro hall
    induction frames generalizing s with
    | nil => simp
    | cons f frames ih =>
      have hfirst := hall 1 (s.feed f.bytes) (by
        simpa [stream] using (fed_feed f.bytes s).fed)
      have hok : f.Ok := by
        by_contra hbad
        exact not_consumed h hbad (by simpa using hfirst)
      have hcons : Consumed [f] s (s.feed f.bytes) := by simpa using hfirst
      have hrest := ih (s.feed f.bytes) hcons.idle fun j t hfed =>
        hcons.cancel (hall (j + 1) t ((fed_feed f.bytes s).trans hfed))
      simpa [hok] using hrest
  · intro hok j t hfed
    exact stream_consumed (fun f hf => hok f (List.mem_of_mem_take hf)) h hfed

/-- `GetFirmwareVersion` and `InListPassiveTarget`. -/
theorem frames_consumed_twoCommands :
    (start .zero).Idle ∧
      let frames := [Frame.normal 1 0xD4 0x02 [] 0x2A (by decide),
        Frame.normal 3 0xD4 0x4A [0x01, 0x00] 0xE1 (by decide)]
      (∀ j t, Fed (start .zero) (stream (frames.take j)) t → Consumed (frames.take j) (start .zero) t) ↔
        ∀ f ∈ frames, f.Ok :=
  ⟨⟨rfl, rfl⟩, frames_consumed (start .zero) ⟨rfl, rfl⟩ _⟩

/-- A `GetFirmwareVersion` with the TFI of an answer is executed; a host ACK frame leaves the parser at a
command byte; an `RFConfiguration` without its byte takes the checksum for it; and without a zero before
`00 FF` nothing is executed. -/
theorem frames_lost :
    (start .zero).Idle ∧
      ∀ f ∈ [Frame.normal 1 0xD5 0x02 [] 0x29 (by decide), Frame.hostAck,
          Frame.normal 1 0xD4 0x32 [0x01] 0xF9 (by decide), Frame.normal 0 0xD4 0x02 [] 0x2A (by decide)],
        ∃ t, Fed (start .zero) (stream [f]) t ∧ ¬ Consumed [f] (start .zero) t := by
  refine ⟨⟨rfl, rfl⟩, fun f hf => ⟨_, (fed_feed _ _).fed, fun hcons => ?_⟩⟩
  simp only [List.mem_cons, List.not_mem_nil, or_false] at hf
  rcases hf with rfl | rfl | rfl | rfl
  · exact absurd hcons.executed (by decide)
  · exact absurd hcons.idle.2 (by decide)
  · exact absurd hcons.idle.2 (by decide)
  · exact absurd hcons.executed (by decide)

end Pn532Base

end Espmod.Pn532
