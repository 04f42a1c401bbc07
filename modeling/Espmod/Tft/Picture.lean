/-
# Espmod.Tft.Picture — the signature of a picture

The display model turns each rising edge of `wr` into a command or a byte. The commands `0x2a` and `0x2b`
take four bytes each, the window; `0x2c` takes as many bytes as the window has, and makes a checksum of
them. The window, the checksum and the number of bytes to come are signals, so that a byte sees them as they
were before it: the byte that finds 1 to come is the last one. It announces the checksum that is not there
yet, and `waitcode` waits for a delta cycle before it looks.

`rdstate` and what is only printed or traced are left out, and so is the time of the last change of sleep,
which only warnings depend on.
-/
import Mathlib.Tactic.IntervalCases
import Espmod.Gpio.Mixed
import Espmod.Lib.Signal
import Espmod.Tft.Crc

namespace Espmod.Tft

open Espmod.Lib
open Espmod.Gpio.GnLogic (ScLogic)

/-! ## §1 — the thread -/

/-- The pins that `write` reads. -/
structure Bus where
  wr : ScLogic
  dc : ScLogic
  rd : ScLogic
  d0 : ScLogic
  d1 : ScLogic
  d2 : ScLogic
  d3 : ScLogic
  d4 : ScLogic
  d5 : ScLogic
  d6 : ScLogic
  d7 : ScLogic
deriving Repr, DecidableEq

/-- A bit of a byte. Only a pull-up could be missing on a line that is not driven. -/
def getlv (bit : Nat) (v : ScLogic) : BitVec 8 := if v = .one ∨ v = .z then 1 <<< bit else 0

def Bus.msg (p : Bus) : BitVec 8 :=
  getlv 0 p.d0 ||| getlv 1 p.d1 ||| getlv 2 p.d2 ||| getlv 3 p.d3 ||| getlv 4 p.d4 ||| getlv 5 p.d5 |||
    getlv 6 p.d6 ||| getlv 7 p.d7

/-- A logic level. -/
def logicLevel (b : Bool) : ScLogic := if b then .one else .zero

/-- A byte on the data pins, at logic levels. -/
def Bus.levels (wr dc rd : ScLogic) (b : BitVec 8) : Bus :=
  ⟨wr, dc, rd, logicLevel (b.getLsbD 0), logicLevel (b.getLsbD 1), logicLevel (b.getLsbD 2),
    logicLevel (b.getLsbD 3), logicLevel (b.getLsbD 4), logicLevel (b.getLsbD 5),
    logicLevel (b.getLsbD 6), logicLevel (b.getLsbD 7)⟩

/-- The `state` of the thread. -/
inductive WriteState where
  | idle
  | wrskip
  | wre0
  | wr0
  | wr1
  | wr2
  | wr3
  | wrn
deriving Repr, DecidableEq

/-- `tft_obj_t`. -/
structure TftObj where
  x1 : BitVec 32
  y1 : BitVec 32
  x2 : BitVec 32
  y2 : BitVec 32
  signature : BitVec 32
deriving Repr, DecidableEq

structure Tftmod where
  crcTable : Vector (BitVec 32) 256
  startcol : Signal (BitVec 32)
  endcol : Signal (BitVec 32)
  startrow : Signal (BitVec 32)
  endrow : Signal (BitVec 32)
  signature : Signal (BitVec 32)
  explength : Signal (BitVec 32)
  llen : Signal (BitVec 32)
  sleep : Signal Bool
  fglow : BitVec 8
  fghigh : BitVec 8
  state : WriteState
  cmd : BitVec 8
  val : BitVec 32
  val1 : BitVec 32
  /-- threads in `waitcode`, at the event -/
  waiting : Nat
  /-- threads in `waitcode`, a delta cycle before they look -/
  woken : Nat
  /-- history: what `waitcode` has returned -/
  objs : List TftObj
  /-- history: how often `sigdone_ev` was notified -/
  notified : Nat

namespace Tftmod

/-- After the constructor. The local variables of the thread have no values yet. -/
def init (crcTable : Vector (BitVec 32) 256) (cmd : BitVec 8) (val val1 : BitVec 32) : Tftmod :=
  ⟨crctableInit crcTable, .init 0, .init 0, .init 0, .init 0, .init 0, .init 0, .init 0, .init true, 0, 0, .idle,
    cmd, val, val1, 0, 0, [], 0⟩

/-- A byte with DC low and RD high. -/
def command (cmd : BitVec 8) (s : Tftmod) : Tftmod :=
  let s := { s with cmd := cmd, val := 0 }
  match cmd.toNat with
  | 0x00 | 0x01 | 0x0a | 0x0b | 0x0c | 0x0d | 0x0e | 0x0f => { s with state := .idle }
  | 0x10 => if s.sleep.cur then s else { s with sleep := s.sleep.write true }
  | 0x11 => if s.sleep.cur = false then s else { s with state := .idle, sleep := s.sleep.write false }
  | 0x12 | 0x13 | 0x20 | 0x21 | 0x28 | 0x29 => { s with state := .idle }
  | 0x2c =>
    { s with
      signature := s.signature.write 0
      explength := s.explength.write ((s.endcol.cur - s.startcol.cur + 1) * (s.endrow.cur - s.startrow.cur + 1) * 2)
      llen := s.llen.write 0
      state := .wrn }
  | 0xc8 => { s with state := .wrskip }
  | 0xc0 => { s with state := .wre0 }
  | 0x2a | 0x2b | 0x30 => { s with state := .wr0 }
  | 0xd0 | 0xd1 => { s with state := .wr1 }
  | 0xd2 => { s with state := .wr2 }
  | 0xc5 | 0x36 | 0x3a => { s with state := .wr3 }
  | _ => s

/-- What the checksum takes for a byte: only its colour, where the window is not wider than a letter. -/
def shade (s : Tftmod) (msg : BitVec 8) : BitVec 8 :=
  if s.endcol.cur - s.startcol.cur > 30 then msg
  else if msg = s.fglow ∨ msg = s.fghigh then 0xff
  else 0x00

/-- `sigdone_ev.notify()`. -/
def notify (s : Tftmod) : Tftmod :=
  { s with waiting := 0, woken := s.woken + s.waiting, notified := s.notified + 1 }

/-- The last of four bytes. -/
def parameters (msg : BitVec 8) (s : Tftmod) : Tftmod :=
  let val := s.val ||| msg.setWidth 32
  let s := { s with val := val, state := .idle }
  if s.cmd = 0x2a then { s with startcol := s.startcol.write (val >>> 16), endcol := s.endcol.write (val &&& 0xffff) }
  else if s.cmd = 0x2b then
    { s with startrow := s.startrow.write (val >>> 16), endrow := s.endrow.write (val &&& 0xffff) }
  else s

/-- Any other byte. -/
def data (msg : BitVec 8) (s : Tftmod) : Tftmod :=
  match s.state with
  | .wrn =>
    let last := s.explength.cur = 1
    let s :=
      { s with
        signature := s.signature.write (do1crc s.crcTable s.signature.cur (s.shade msg))
        explength := s.explength.write (s.explength.cur - 1)
        llen := s.llen.write (s.llen.cur + 1) }
    if last then { s.notify with state := .idle } else s
  | .wrskip => s
  | .wre0 => { s with val1 := msg.setWidth 32, state := .wr0 }
  | .wr0 => { s with val := msg.setWidth 32 <<< 24, state := .wr1 }
  | .wr1 => { s with val := s.val ||| (msg.setWidth 32 <<< 16), state := .wr2 }
  | .wr2 => { s with val := s.val ||| (msg.setWidth 32 <<< 8), state := .wr3 }
  | .wr3 => s.parameters msg
  | .idle => s

/-- One turn of the loop. -/
def write (p : Bus) (s : Tftmod) : Tftmod :=
  if p.wr = .zero then s
  else if p.wr = .x then s
  else if p.dc = .zero ∧ p.rd = .one then s.command p.msg
  else s.data p.msg

/-- The end of a delta cycle. Threads that have been woken look. -/
def update (s : Tftmod) : Tftmod :=
  { s with
    startcol := s.startcol.update
    endcol := s.endcol.update
    startrow := s.startrow.update
    endrow := s.endrow.update
    signature := s.signature.update
    explength := s.explength.update
    llen := s.llen.update
    sleep := s.sleep.update
    woken := 0
    objs := s.objs ++ List.replicate s.woken
      ⟨s.startcol.next, s.startrow.next, s.endcol.next, s.endrow.next, s.signature.next⟩ }

inductive Event where
  /-- the end of a delta cycle in which `wr` changes, and the thread -/
  | wr (p : Bus)
  | update
  | waitcode
  | setfgcolor (v : BitVec 32)
deriving Repr, DecidableEq

def step (s : Tftmod) : Event → Tftmod
  | .wr p => s.update.write p
  | .update => s.update
  | .waitcode => { s with waiting := s.waiting + 1 }
  | .setfgcolor v => { s with fglow := (v &&& 0xff).setWidth 8, fghigh := ((v >>> 8) &&& 0xff).setWidth 8 }

end Tftmod

/-! ## §2 — windows and pictures -/

/-- What an edge of `wr` says. -/
inductive Write where
  | command (c : BitVec 8)
  | data (b : BitVec 8)
deriving Repr, DecidableEq

def Bus.conveyed (p : Bus) : Option Write :=
  if p.wr = .zero ∨ p.wr = .x then none
  else if p.dc = .zero ∧ p.rd = .one then some (.command p.msg)
  else some (.data p.msg)

/-- The columns and the rows of a picture. -/
structure Window where
  startcol : BitVec 32
  endcol : BitVec 32
  startrow : BitVec 32
  endrow : BitVec 32
deriving Repr, DecidableEq

namespace Window

/-- How many bytes a picture has. -/
def bytes (w : Window) : Nat :=
  2 * (w.endcol.toNat - w.startcol.toNat + 1) * (w.endrow.toNat - w.startrow.toNat + 1)

end Window

/-- The window that has been set, the last command, and the bytes behind it. -/
structure Settings where
  window : Window
  command : Option (BitVec 8)
  parameters : List (BitVec 8)
deriving Repr, DecidableEq

namespace Settings

def init : Settings := ⟨⟨0, 0, 0, 0⟩, none, []⟩

/-- A number of two bytes. -/
def word (high low : BitVec 8) : BitVec 32 := (high ++ low).setWidth 32

/-- The fourth byte behind `0x2a` or `0x2b` sets the columns or the rows. -/
def write (s : Settings) : Write → Settings
  | .command c => ⟨s.window, some c, []⟩
  | .data b =>
    match s.command, s.parameters with
    | some 0x2a, [a₀, a₁, a₂] =>
      ⟨{ s.window with startcol := word a₀ a₁, endcol := word a₂ b }, s.command, [a₀, a₁, a₂, b]⟩
    | some 0x2b, [a₀, a₁, a₂] =>
      ⟨{ s.window with startrow := word a₀ a₁, endrow := word a₂ b }, s.command, [a₀, a₁, a₂, b]⟩
    | c, ps => ⟨s.window, c, ps ++ [b]⟩

def step (s : Settings) : Tftmod.Event → Settings
  | .wr p => (p.conveyed.map s.write).getD s
  | _ => s

end Settings

namespace Tftmod

/-- An edge of `wr` that is no command, or none. -/
def CommandFree : Event → Prop
  | .wr p => ∀ c, p.conveyed ≠ some (.command c)
  | _ => True

/-- What the checksum takes for a byte, with the colours `low` and `high`. -/
def shadeOf (w : Window) (low high msg : BitVec 8) : BitVec 8 :=
  if w.endcol.toNat - w.startcol.toNat > 30 then msg
  else if msg = low ∨ msg = high then 0xff
  else 0x00

/-- The bytes of a picture, with the colours of their times. -/
def picture (w : Window) : BitVec 8 → BitVec 8 → List Event → List (BitVec 8)
  | _, _, [] => []
  | low, high, .wr p :: es =>
    match p.conveyed with
    | some (.data b) => shadeOf w low high b :: picture w low high es
    | _ => picture w low high es
  | _, _, .setfgcolor v :: es => picture w ((v &&& 0xff).setWidth 8) (((v >>> 8) &&& 0xff).setWidth 8) es
  | low, high, _ :: es => picture w low high es

/-- What the threads of the test bench have no part in. -/
def core (s : Tftmod) : Tftmod := { s with waiting := 0, woken := 0, objs := [], fglow := 0, fghigh := 0 }

/-! ## §3 — a byte on the pins -/

theorem getLsbD_getlv {k : Nat} (hk : k < 8) (b : Bool) (i : Nat) :
    (getlv k (logicLevel b)).getLsbD i = (b && decide (i = k)) := by
  have hbit : ((1 : BitVec 8) <<< k).getLsbD i = decide (i = k) := by
    show (BitVec.twoPow 8 k).getLsbD i = _
    rw [BitVec.getLsbD_twoPow, decide_eq_true hk, Bool.true_and]
    exact decide_eq_decide.mpr eq_comm
  cases b with
  | false => exact BitVec.getLsbD_zero
  | true => exact hbit

/-- A byte on the pins is the byte that is taken. -/
theorem msg_levels (wr dc rd : ScLogic) (b : BitVec 8) : (Bus.levels wr dc rd b).msg = b := by
  refine BitVec.eq_of_getLsbD_eq fun i hi => ?_
  unfold Bus.msg Bus.levels
  simp only [BitVec.getLsbD_or]
  rw [getLsbD_getlv (by decide), getLsbD_getlv (by decide), getLsbD_getlv (by decide), getLsbD_getlv (by decide),
    getLsbD_getlv (by decide), getLsbD_getlv (by decide), getLsbD_getlv (by decide), getLsbD_getlv (by decide)]
  interval_cases i <;> simp

theorem conveyed_command (b : BitVec 8) : (Bus.levels .one .zero .one b).conveyed = some (.command b) := by
  show some (Write.command (Bus.levels .one .zero .one b).msg) = _
  rw [msg_levels]

theorem conveyed_data (b : BitVec 8) : (Bus.levels .one .one .one b).conveyed = some (.data b) := by
  show some (Write.data (Bus.levels .one .one .one b).msg) = _
  rw [msg_levels]

variable {s : Tftmod} {a : Settings} {t : Vector (BitVec 32) 256}

theorem write_eq (p : Bus) (s : Tftmod) :
    s.write p = match p.conveyed with
      | none => s
      | some (.command c) => s.command c
      | some (.data b) => s.data b := by
  unfold Tftmod.write Bus.conveyed
  by_cases h0 : p.wr = .zero
  · rw [if_pos h0, if_pos (Or.inl h0)]
  · by_cases hx : p.wr = .x
    · rw [if_neg h0, if_pos hx, if_pos (Or.inr hx)]
    · rw [if_neg h0, if_neg hx, if_neg (not_or.mpr ⟨h0, hx⟩)]
      split <;> rfl

/-! ## §4 — the window -/

/-- How far the thread has put the four bytes together. -/
def Assembled (s : Tftmod) : List (BitVec 8) → Prop
  | [] => s.state = .wr0
  | [a] => s.state = .wr1 ∧ s.val = a.setWidth 32 <<< 24
  | [a, b] => s.state = .wr2 ∧ s.val = a.setWidth 32 <<< 24 ||| b.setWidth 32 <<< 16
  | [a, b, c] => s.state = .wr3 ∧ s.val = a.setWidth 32 <<< 24 ||| b.setWidth 32 <<< 16 ||| c.setWidth 32 <<< 8
  | _ => s.state = .idle

/-- The signals hold the window, or are about to. -/
structure Shows (w : Window) (s : Tftmod) : Prop where
  startcol : s.startcol.next = w.startcol
  endcol : s.endcol.next = w.endcol
  startrow : s.startrow.next = w.startrow
  endrow : s.endrow.next = w.endrow

/-- **The refinement**: the thread has the window and the command of the settings. -/
structure Tracks (a : Settings) (s : Tftmod) : Prop where
  window : Shows a.window s
  cmd : ∀ c, a.command = some c → s.cmd = c
  start : a.command = none → s.state = .idle
  assembled : a.command = some 0x2a ∨ a.command = some 0x2b → Assembled s a.parameters

theorem tracks_init (cmd : BitVec 8) (val val1 : BitVec 32) : Tracks .init (init t cmd val val1) where
  window := ⟨rfl, rfl, rfl, rfl⟩
  cmd := fun c h => absurd h (Option.some_ne_none c).symm
  start := fun _ => rfl
  assembled := by rintro (h | h) <;> cases h

/-- No command writes the window. -/
theorem command_window (c : BitVec 8) (s : Tftmod) :
    (s.command c).startcol = s.startcol ∧ (s.command c).endcol = s.endcol ∧
      (s.command c).startrow = s.startrow ∧ (s.command c).endrow = s.endrow ∧ (s.command c).cmd = c := by
  unfold command
  dsimp only
  split <;> try exact ⟨rfl, rfl, rfl, rfl, rfl⟩
  all_goals split <;> exact ⟨rfl, rfl, rfl, rfl, rfl⟩

theorem Tracks.command (h : Tracks a s) (c : BitVec 8) : Tracks (a.write (.command c)) (s.command c) := by
  obtain ⟨hsc, hec, hsr, her, hcmd⟩ := command_window c s
  refine ⟨⟨?_, ?_, ?_, ?_⟩, ?_, fun hnone => absurd hnone (Option.some_ne_none c), ?_⟩
  · exact (congrArg Signal.next hsc).trans h.window.startcol
  · exact (congrArg Signal.next hec).trans h.window.endcol
  · exact (congrArg Signal.next hsr).trans h.window.startrow
  · exact (congrArg Signal.next her).trans h.window.endrow
  · rintro _ ⟨⟩
    exact hcmd
  · rintro (hc | hc) <;> cases hc <;> rfl

/-- A byte that does not end the parameters of `0x2a` or `0x2b` leaves the window. -/
theorem data_window (b : BitVec 8) (s : Tftmod) (h : s.state = .wr3 → s.cmd ≠ 0x2a ∧ s.cmd ≠ 0x2b) :
    (s.data b).startcol = s.startcol ∧ (s.data b).endcol = s.endcol ∧ (s.data b).startrow = s.startrow ∧
      (s.data b).endrow = s.endrow ∧ (s.data b).cmd = s.cmd := by
  unfold data
  cases hstate : s.state with
  | wrn =>
    dsimp only
    split <;> exact ⟨rfl, rfl, rfl, rfl, rfl⟩
  | wr3 =>
    obtain ⟨ha, hb⟩ := h hstate
    dsimp only
    unfold parameters
    dsimp only
    rw [if_neg ha, if_neg hb]
    exact ⟨rfl, rfl, rfl, rfl, rfl⟩
  | _ => exact ⟨rfl, rfl, rfl, rfl, rfl⟩

/-- The upper and the lower half of a word. -/
theorem halves (x y : BitVec 16) :
    (x ++ y : BitVec 32) >>> 16 = x.setWidth 32 ∧ (x ++ y : BitVec 32) &&& 0xffff = y.setWidth 32 := by
  have hmask : ∀ i, (0xffff : BitVec 32).getLsbD i = decide (i < 16) := fun i => Nat.testBit_two_pow_sub_one 16 i
  constructor
  · refine BitVec.eq_of_getLsbD_eq fun i hi => ?_
    rw [BitVec.getLsbD_ushiftRight, BitVec.getLsbD_append, BitVec.getLsbD_setWidth, if_neg (by omega),
      Nat.add_sub_cancel_left, decide_eq_true hi, Bool.true_and]
  · refine BitVec.eq_of_getLsbD_eq fun i hi => ?_
    rw [BitVec.getLsbD_and, BitVec.getLsbD_append, BitVec.getLsbD_setWidth, decide_eq_true hi, Bool.true_and]
    by_cases h : i < 16
    · rw [if_pos h, hmask, decide_eq_true h, Bool.and_true]
    · rw [hmask, decide_eq_false h, Bool.and_false, BitVec.getLsbD_of_ge y i (by omega)]

theorem assemble (a b c d : BitVec 8) :
    (a.setWidth 32 <<< 24 ||| b.setWidth 32 <<< 16 ||| c.setWidth 32 <<< 8 ||| d.setWidth 32 : BitVec 32) =
      ((a ++ b) ++ (c ++ d) : BitVec 32) := by
  refine BitVec.eq_of_getLsbD_eq fun i hi => ?_
  simp only [BitVec.getLsbD_or, BitVec.getLsbD_shiftLeft, BitVec.getLsbD_setWidth, BitVec.getLsbD_append]
  interval_cases i <;> simp

/-- The signals that the fourth byte sets. -/
theorem parameters_eq {a b c : BitVec 8} (d : BitVec 8)
    (hval : s.val = a.setWidth 32 <<< 24 ||| b.setWidth 32 <<< 16 ||| c.setWidth 32 <<< 8) :
    (s.parameters d).state = .idle ∧ (s.parameters d).cmd = s.cmd ∧
      (s.cmd = 0x2a →
        Shows ⟨Settings.word a b, Settings.word c d, s.startrow.next, s.endrow.next⟩ (s.parameters d)) ∧
      (s.cmd = 0x2b →
        Shows ⟨s.startcol.next, s.endcol.next, Settings.word a b, Settings.word c d⟩ (s.parameters d)) := by
  obtain ⟨hhigh, hlow⟩ := halves (a ++ b) (c ++ d)
  have hword : s.val ||| d.setWidth 32 = ((a ++ b) ++ (c ++ d) : BitVec 32) := by rw [hval, assemble]
  unfold parameters
  dsimp only
  rw [hword, hhigh, hlow]
  by_cases ha : s.cmd = 0x2a
  · rw [if_pos ha]
    exact ⟨rfl, rfl, fun _ => ⟨rfl, rfl, rfl, rfl⟩, fun hb => absurd (ha.symm.trans hb) (by decide)⟩
  · rw [if_neg ha]
    by_cases hb : s.cmd = 0x2b
    · rw [if_pos hb]
      exact ⟨rfl, rfl, fun h => absurd h ha, fun _ => ⟨rfl, rfl, rfl, rfl⟩⟩
    · rw [if_neg hb]
      exact ⟨rfl, rfl, fun h => absurd h ha, fun h => absurd h hb⟩

/-- Every other byte only joins the others. -/
theorem settings_write_data {w : Window} {c : Option (BitVec 8)} {ps : List (BitVec 8)}
    (h : ps.length = 3 → c ≠ some 0x2a ∧ c ≠ some 0x2b) (b : BitVec 8) :
    (⟨w, c, ps⟩ : Settings).write (.data b) = ⟨w, c, ps ++ [b]⟩ := by
  unfold Settings.write
  dsimp only
  split
  · exact absurd rfl (h rfl).1
  · exact absurd rfl (h rfl).2
  · rfl

theorem Assembled.data {ps : List (BitVec 8)} (h : Assembled s ps) (hlen : ps.length ≠ 3) (b : BitVec 8) :
    Assembled (s.data b) (ps ++ [b]) ∧ s.state ≠ .wr3 := by
  match ps with
  | [] =>
    have h : s.state = .wr0 := h
    unfold Tftmod.data
    rw [h]
    exact ⟨⟨rfl, rfl⟩, WriteState.noConfusion⟩
  | [_] =>
    obtain ⟨h, hval⟩ := h
    unfold Tftmod.data
    rw [h, hval]
    exact ⟨⟨rfl, rfl⟩, WriteState.noConfusion⟩
  | [_, _] =>
    obtain ⟨h, hval⟩ := h
    unfold Tftmod.data
    rw [h, hval]
    exact ⟨⟨rfl, rfl⟩, WriteState.noConfusion⟩
  | [_, _, _] => exact absurd rfl hlen
  | _ :: _ :: _ :: _ :: _ =>
    have h : s.state = .idle := h
    unfold Tftmod.data
    rw [h]
    exact ⟨h, WriteState.noConfusion⟩

/-- The fourth byte. -/
theorem Tracks.fourth {w : Window} {c a₀ a₁ a₂ : BitVec 8} (h : Tracks ⟨w, some c, [a₀, a₁, a₂]⟩ s)
    (hc : c = 0x2a ∨ c = 0x2b) (b : BitVec 8) :
    Tracks ((⟨w, some c, [a₀, a₁, a₂]⟩ : Settings).write (.data b)) (s.data b) := by
  obtain ⟨⟨hsc, hec, hsr, her⟩, hcmd, -, hass⟩ := h
  have hcmd := hcmd c rfl
  obtain ⟨hstate, hval⟩ := hass (hc.imp (congrArg some) (congrArg some))
  obtain ⟨hidle, hsame, hcols, hrows⟩ := parameters_eq b hval
  have hdata : s.data b = s.parameters b := by
    unfold Tftmod.data
    rw [hstate]
  rw [hdata]
  rcases hc with rfl | rfl
  · have hshows := hcols hcmd
    rw [hsr, her] at hshows
    exact ⟨hshows, fun _ hk => (hsame.trans hcmd).trans (Option.some.inj hk),
      fun hnone => absurd hnone (Option.some_ne_none _), fun _ => hidle⟩
  · have hshows := hrows hcmd
    rw [hsc, hec] at hshows
    exact ⟨hshows, fun _ hk => (hsame.trans hcmd).trans (Option.some.inj hk),
      fun hnone => absurd hnone (Option.some_ne_none _), fun _ => hidle⟩

theorem Tracks.data (h : Tracks a s) (b : BitVec 8) : Tracks (a.write (.data b)) (s.data b) := by
  obtain ⟨w, c, ps⟩ := a
  by_cases hfourth : ps.length = 3 ∧ (c = some 0x2a ∨ c = some 0x2b)
  · obtain ⟨hlen, hc⟩ := hfourth
    match ps, hlen with
    | [_, _, _], _ =>
      rcases hc with rfl | rfl
      · exact h.fourth (Or.inl rfl) b
      · exact h.fourth (Or.inr rfl) b
  · rw [settings_write_data fun hlen => not_or.mp fun hc => hfourth ⟨hlen, hc⟩]
    -- the thread does not end the parameters of `0x2a` or `0x2b` here
    have hthree : s.state = .wr3 → s.cmd ≠ 0x2a ∧ s.cmd ≠ 0x2b := by
      intro hstate
      cases c with
      | none => exact absurd (hstate.symm.trans (h.start rfl)) WriteState.noConfusion
      | some c =>
        have hno : ¬ (some c = some 0x2a ∨ some c = some 0x2b) := fun hc =>
          (h.assembled hc).data (fun hlen => hfourth ⟨hlen, hc⟩) b |>.2 hstate
        rw [h.cmd c rfl]
        exact not_or.mp fun hc => hno (hc.imp (congrArg some) (congrArg some))
    obtain ⟨hsc, hec, hsr, her, hcmd⟩ := data_window b s hthree
    refine ⟨⟨?_, ?_, ?_, ?_⟩, fun k hk => hcmd.trans (h.cmd k hk), fun hnone => ?_, fun hc => ?_⟩
    · exact (congrArg Signal.next hsc).trans h.window.startcol
    · exact (congrArg Signal.next hec).trans h.window.endcol
    · exact (congrArg Signal.next hsr).trans h.window.startrow
    · exact (congrArg Signal.next her).trans h.window.endrow
    · have hidle := h.start hnone
      unfold Tftmod.data
      rw [hidle]
      exact hidle
    · exact ((h.assembled hc).data (fun hlen => hfourth ⟨hlen, hc⟩) b).1

theorem Tracks.update (h : Tracks a s) : Tracks a s.update where
  window := ⟨h.window.startcol, h.window.endcol, h.window.startrow, h.window.endrow⟩
  cmd := h.cmd
  start := h.start
  assembled := h.assembled

/-- The threads of the test bench. -/
theorem Tracks.bench (h : Tracks a s) (waiting : Nat) (fglow fghigh : BitVec 8) :
    Tracks a { s with waiting := waiting, fglow := fglow, fghigh := fghigh } where
  window := ⟨h.window.startcol, h.window.endcol, h.window.startrow, h.window.endrow⟩
  cmd := h.cmd
  start := h.start
  assembled := h.assembled

/-- **One event.** -/
theorem Tracks.step (h : Tracks a s) (e : Event) : Tracks (a.step e) (s.step e) := by
  cases e with
  | wr p =>
    show Tracks ((p.conveyed.map a.write).getD a) (s.update.write p)
    rw [write_eq]
    cases hconveyed : p.conveyed with
    | none => exact h.update
    | some m =>
      cases m with
      | command c => exact h.update.command c
      | data b => exact h.update.data b
  | update => exact h.update
  | waitcode => exact h.bench _ _ _
  | setfgcolor v => exact h.bench _ _ _

theorem Tracks.run (es : List Event) : ∀ {a : Settings} {s : Tftmod}, Tracks a s →
    Tracks (es.foldl Settings.step a) (es.foldl Tftmod.step s) := by
  induction es with
  | nil => exact fun h => h
  | cons e es ih => exact fun h => ih (h.step e)

/-! ## §5 — a picture -/

theorem command_crcTable (c : BitVec 8) (s : Tftmod) :
    (s.command c).crcTable = s.crcTable ∧ (s.command c).fglow = s.fglow ∧ (s.command c).fghigh = s.fghigh := by
  unfold Tftmod.command
  dsimp only
  split <;> try exact ⟨rfl, rfl, rfl⟩
  all_goals split <;> exact ⟨rfl, rfl, rfl⟩

theorem data_crcTable (b : BitVec 8) (s : Tftmod) :
    (s.data b).crcTable = s.crcTable ∧ (s.data b).fglow = s.fglow ∧ (s.data b).fghigh = s.fghigh := by
  unfold Tftmod.data
  cases s.state with
  | wrn =>
    dsimp only
    split <;> exact ⟨rfl, rfl, rfl⟩
  | wr3 =>
    dsimp only
    unfold parameters
    dsimp only
    split
    · exact ⟨rfl, rfl, rfl⟩
    · split <;> exact ⟨rfl, rfl, rfl⟩
  | _ => exact ⟨rfl, rfl, rfl⟩

/-- The thread leaves the table and the colours. -/
theorem write_crcTable (p : Bus) (s : Tftmod) :
    (s.write p).crcTable = s.crcTable ∧ (s.write p).fglow = s.fglow ∧ (s.write p).fghigh = s.fghigh := by
  rw [write_eq]
  cases p.conveyed with
  | none => exact ⟨rfl, rfl, rfl⟩
  | some m =>
    cases m with
    | command c => exact command_crcTable c s
    | data b => exact data_crcTable b s

theorem step_crcTable (e : Event) (s : Tftmod) : (s.step e).crcTable = s.crcTable := by
  cases e with
  | wr p => exact (write_crcTable p s.update).1
  | _ => rfl

theorem run_crcTable (es : List Event) (s : Tftmod) : (es.foldl Tftmod.step s).crcTable = s.crcTable :=
  List.foldlRecOn es Tftmod.step (motive := fun s' => s'.crcTable = s.crcTable) rfl
    fun s' hs e _ => (step_crcTable e s').trans hs

variable {w : Window} {n₀ : Nat} {bs : List (BitVec 8)}

/-- The colour of a byte, with the window at rest. -/
theorem shade_eq (h : Shows w s) (hcol : w.startcol ≤ w.endcol) (b : BitVec 8) :
    s.update.shade b = shadeOf w s.fglow s.fghigh b := by
  have hwide : s.endcol.next - s.startcol.next > 30 ↔ w.endcol.toNat - w.startcol.toNat > 30 := by
    rw [h.startcol, h.endcol]
    bv_omega
  unfold shade shadeOf
  exact if_congr hwide rfl rfl

/-- The number of bytes that `0x2c` computes, as the window has them. -/
theorem explength_eq (hcol : w.startcol ≤ w.endcol) (hrow : w.startrow ≤ w.endrow) :
    (w.endcol - w.startcol + 1) * (w.endrow - w.startrow + 1) * 2 = BitVec.ofNat 32 w.bytes := by
  have hcols : w.endcol - w.startcol + 1 = BitVec.ofNat 32 (w.endcol.toNat - w.startcol.toNat + 1) := by bv_omega
  have hrows : w.endrow - w.startrow + 1 = BitVec.ofNat 32 (w.endrow.toNat - w.startrow.toNat + 1) := by bv_omega
  have hbytes : w.bytes =
      (w.endcol.toNat - w.startcol.toNat + 1) * (w.endrow.toNat - w.startrow.toNat + 1) * 2 := by
    unfold Window.bytes
    rw [Nat.mul_assoc, Nat.mul_comm]
  rw [hcols, hrows, hbytes, BitVec.ofNat_mul, BitVec.ofNat_mul]
  rfl

/-- A picture is being taken, and `bs` of it has come. -/
structure Filming (t : Vector (BitVec 32) 256) (w : Window) (n₀ : Nat) (bs : List (BitVec 8)) (s : Tftmod) : Prop where
  table : s.crcTable = crctableInit t
  shows : Shows w s
  state : s.state = .wrn
  signature : s.signature.next = checksum t 0 bs
  explength : s.explength.next = BitVec.ofNat 32 (w.bytes - bs.length)
  left : bs.length < w.bytes
  woken : s.woken = 0
  notified : s.notified = n₀

theorem Filming.start {p : Bus} (h : Tracks a s) (htable : s.crcTable = crctableInit t)
    (hp : p.conveyed = some (.command 0x2c)) (hcol : a.window.startcol ≤ a.window.endcol)
    (hrow : a.window.startrow ≤ a.window.endrow) :
    Filming t a.window s.notified [] (s.step (.wr p)) ∧ (s.step (.wr p)).fglow = s.fglow ∧
      (s.step (.wr p)).fghigh = s.fghigh := by
  have hstep : s.step (.wr p) = s.update.command 0x2c := by
    show s.update.write p = _
    rw [write_eq, hp]
  have hlen := explength_eq (w := a.window) hcol hrow
  rw [hstep]
  have hshows := h.window
  refine ⟨⟨htable, ⟨hshows.startcol, hshows.endcol, hshows.startrow, hshows.endrow⟩, rfl, rfl, ?_, ?_, rfl, rfl⟩,
    rfl, rfl⟩
  · show (s.endcol.next - s.startcol.next + 1) * (s.endrow.next - s.startrow.next + 1) * 2 = _
    rw [h.window.startcol, h.window.endcol, h.window.startrow, h.window.endrow]
    exact hlen
  · show 0 < a.window.bytes
    unfold Window.bytes
    positivity

theorem checksum_append (t : Vector (BitVec 32) 256) (bs : List (BitVec 8)) (b : BitVec 8) :
    checksum t 0 (bs ++ [b]) = do1crc (crctableInit t) (checksum t 0 bs) b := by
  unfold checksum
  rw [List.foldl_append]
  rfl

/-- One byte of a picture further. -/
def took (signature : BitVec 32) (s : Tftmod) : Tftmod :=
  { s.update with
    signature := ⟨s.signature.next, signature⟩
    explength := ⟨s.explength.next, s.explength.next - 1⟩
    llen := ⟨s.llen.next, s.llen.next + 1⟩ }

/-- What a byte does to a picture, whether it is the last or not. -/
theorem Filming.byte (h : Filming t w n₀ bs s) (hcol : w.startcol ≤ w.endcol) (b : BitVec 8) :
    s.update.data b =
      if s.explength.next = 1 then
        { (s.took (checksum t 0 (bs ++ [shadeOf w s.fglow s.fghigh b]))).notify with state := .idle }
      else s.took (checksum t 0 (bs ++ [shadeOf w s.fglow s.fghigh b])) := by
  have hstate : s.update.state = .wrn := h.state
  have hsig : do1crc s.update.crcTable s.update.signature.cur (s.update.shade b) =
      checksum t 0 (bs ++ [shadeOf w s.fglow s.fghigh b]) := by
    rw [shade_eq h.shows hcol, checksum_append, ← h.signature, ← h.table]
    rfl
  unfold Tftmod.data
  split
  · dsimp only
    rw [hsig]
    rfl
  all_goals
    rename_i hother
    exact absurd (hstate.symm.trans hother) WriteState.noConfusion

/-- The number of bytes to come is 1 for the last one only. -/
theorem Filming.last_iff (h : Filming t w n₀ bs s) (hbytes : w.bytes < 2 ^ 32) :
    s.explength.next = 1 ↔ bs.length + 1 = w.bytes := by
  have hleft := h.left
  rw [h.explength]
  constructor
  · intro hone
    have hnat := congrArg BitVec.toNat hone
    rw [BitVec.toNat_ofNat, Nat.mod_eq_of_lt (by omega)] at hnat
    have hnat : w.bytes - bs.length = 1 := hnat
    omega
  · intro hlast
    rw [show w.bytes - bs.length = 1 by omega]
    rfl

/-- The bytes of one event. -/
theorem picture_wr (low high : BitVec 8) {p : Bus} {b : BitVec 8} (hp : p.conveyed = some (.data b)) :
    picture w low high [.wr p] = [shadeOf w low high b] := by
  unfold picture
  rw [hp]
  rfl

theorem picture_cons (s : Tftmod) (e : Event) (es : List Event) :
    picture w s.fglow s.fghigh (e :: es) =
      picture w s.fglow s.fghigh [e] ++ picture w (s.step e).fglow (s.step e).fghigh es := by
  cases e with
  | wr p =>
    obtain ⟨-, hlow, hhigh⟩ := write_crcTable p s.update
    have hstep : s.step (.wr p) = s.update.write p := rfl
    have hlow : (s.update.write p).fglow = s.fglow := hlow
    have hhigh : (s.update.write p).fghigh = s.fghigh := hhigh
    rw [hstep, hlow, hhigh, picture, picture]
    split <;> rfl
  | _ => rfl

theorem picture_append (es ds : List Event) : ∀ s : Tftmod,
    picture w s.fglow s.fghigh (es ++ ds) = picture w s.fglow s.fghigh es ++
      picture w (es.foldl Tftmod.step s).fglow (es.foldl Tftmod.step s).fghigh ds := by
  induction es with
  | nil => exact fun _ => rfl
  | cons e es ih =>
    intro s
    rw [List.cons_append, picture_cons, ih, picture_cons s e es, List.append_assoc]
    rfl

theorem Filming.update (h : Filming t w n₀ bs s) : Filming t w n₀ bs s.update :=
  ⟨h.table, ⟨h.shows.startcol, h.shows.endcol, h.shows.startrow, h.shows.endrow⟩, h.state, h.signature, h.explength,
    h.left, rfl, h.notified⟩

theorem Filming.bench (h : Filming t w n₀ bs s) (waiting : Nat) (fglow fghigh : BitVec 8) :
    Filming t w n₀ bs { s with waiting := waiting, fglow := fglow, fghigh := fghigh } :=
  ⟨h.table, ⟨h.shows.startcol, h.shows.endcol, h.shows.startrow, h.shows.endrow⟩, h.state, h.signature, h.explength,
    h.left, h.woken, h.notified⟩

/-- A byte that is not the last. -/
theorem Filming.next (h : Filming t w n₀ bs s) (hcol : w.startcol ≤ w.endcol) (hbytes : w.bytes < 2 ^ 32)
    (b : BitVec 8) (hleft : bs.length + 1 < w.bytes) :
    Filming t w n₀ (bs ++ [shadeOf w s.fglow s.fghigh b]) (s.update.data b) := by
  have hnot : ¬ s.explength.next = 1 := fun hone => by
    have hlast := (h.last_iff hbytes).mp hone
    omega
  have hbyte := h.byte hcol b
  rw [if_neg hnot] at hbyte
  have hcount : s.explength.next - 1 = BitVec.ofNat 32 (w.bytes - (bs.length + 1)) := by
    rw [h.explength]
    bv_omega
  have hlen : (bs ++ [shadeOf w s.fglow s.fghigh b]).length = bs.length + 1 := List.length_append
  rw [hbyte]
  refine ⟨h.table, ⟨h.shows.startcol, h.shows.endcol, h.shows.startrow, h.shows.endrow⟩, h.state, rfl, ?_, ?_, rfl,
    h.notified⟩
  · rw [hlen]
    exact hcount
  · rw [hlen]
    exact hleft

/-- **One event** of a picture that is not at its last byte. -/
theorem Filming.step (h : Filming t w n₀ bs s) (hcol : w.startcol ≤ w.endcol) (hbytes : w.bytes < 2 ^ 32) {e : Event}
    (he : CommandFree e) (hleft : (bs ++ picture w s.fglow s.fghigh [e]).length < w.bytes) :
    Filming t w n₀ (bs ++ picture w s.fglow s.fghigh [e]) (s.step e) := by
  have hsame : ∀ {s' : Tftmod}, Filming t w n₀ bs s' → Filming t w n₀ (bs ++ []) s' :=
    fun hs => (List.append_nil bs).symm ▸ hs
  cases e with
  | wr p =>
    have hstep : s.step (.wr p) = s.update.write p := rfl
    rw [hstep, write_eq]
    cases hconveyed : p.conveyed with
    | none =>
      have hnone : picture w s.fglow s.fghigh [.wr p] = [] := by
        unfold picture
        rw [hconveyed]
        rfl
      rw [hnone]
      exact hsame h.update
    | some m =>
      cases m with
      | command c => exact absurd hconveyed (he c)
      | data b =>
        rw [picture_wr _ _ hconveyed] at hleft ⊢
        rw [List.length_append, List.length_singleton] at hleft
        exact h.next hcol hbytes b hleft
  | update => exact hsame h.update
  | waitcode => exact hsame (h.bench _ _ _)
  | setfgcolor v => exact hsame (h.bench _ _ _)

theorem Filming.run (hcol : w.startcol ≤ w.endcol) (hbytes : w.bytes < 2 ^ 32) (es : List Event) :
    ∀ {bs : List (BitVec 8)} {s : Tftmod}, Filming t w n₀ bs s → (∀ e ∈ es, CommandFree e) →
      (bs ++ picture w s.fglow s.fghigh es).length < w.bytes →
        Filming t w n₀ (bs ++ picture w s.fglow s.fghigh es) (es.foldl Tftmod.step s) := by
  induction es with
  | nil =>
    intro bs s h _ _
    exact (List.append_nil bs).symm ▸ h
  | cons e es ih =>
    intro bs s h hes hleft
    rw [picture_cons, ← List.append_assoc] at hleft ⊢
    have hfirst := h.step hcol hbytes (hes e (List.mem_cons_self ..)) (by
      rw [List.length_append] at hleft
      omega)
    exact ih hfirst (fun e' he' => hes e' (List.mem_cons_of_mem _ he')) hleft

/-! ## §6 — the last byte, and what follows -/

/-- The last byte: the threads that wait are woken, and look at the whole checksum a delta cycle later. -/
theorem Filming.last (h : Filming t w n₀ bs s) (hcol : w.startcol ≤ w.endcol) (hbytes : w.bytes < 2 ^ 32)
    (hlast : bs.length + 1 = w.bytes) {p : Bus} {b : BitVec 8} (hp : p.conveyed = some (.data b)) :
    (s.step (.wr p)).state = .idle ∧ (s.step (.wr p)).notified = n₀ + 1 ∧ (s.step (.wr p)).waiting = 0 ∧
      (s.step (.wr p)).update.objs = s.objs ++ List.replicate s.waiting
        ⟨w.startcol, w.startrow, w.endcol, w.endrow,
          checksum t 0 (bs ++ picture w s.fglow s.fghigh [.wr p])⟩ := by
  have hstep : s.step (.wr p) =
      { (s.took (checksum t 0 (bs ++ [shadeOf w s.fglow s.fghigh b]))).notify with state := .idle } := by
    show s.update.write p = _
    rw [write_eq, hp]
    dsimp only
    rw [h.byte hcol b, if_pos ((h.last_iff hbytes).mpr hlast)]
  rw [picture_wr _ _ hp, hstep]
  refine ⟨rfl, congrArg (· + 1) h.notified, rfl, ?_⟩
  show (s.objs ++ List.replicate s.woken _) ++ List.replicate (0 + s.waiting)
    (⟨s.startcol.next, s.startrow.next, s.endcol.next, s.endrow.next, _⟩ : TftObj) = _
  rw [h.woken, List.replicate_zero, List.append_nil, Nat.zero_add, h.shows.startcol, h.shows.endcol, h.shows.startrow,
    h.shows.endrow]
  rfl

/-- **After the last byte** nothing changes until the next command. -/
theorem idle_step (h : s.state = .idle) {e : Event} (he : CommandFree e) :
    (s.step e).state = .idle ∧ (s.step e).notified = s.notified ∧ core (s.step e).update = core s.update := by
  cases e with
  | wr p =>
    have hstep : s.step (.wr p) = s.update := by
      show s.update.write p = _
      rw [write_eq]
      cases hconveyed : p.conveyed with
      | none => rfl
      | some m =>
        cases m with
        | command c => exact absurd hconveyed (he c)
        | data b =>
          have hidle : s.update.state = .idle := h
          dsimp only
          unfold data
          rw [hidle]
    rw [hstep]
    exact ⟨h, rfl, rfl⟩
  | update => exact ⟨h, rfl, rfl⟩
  | waitcode => exact ⟨h, rfl, rfl⟩
  | setfgcolor v => exact ⟨h, rfl, rfl⟩

theorem idle_run (es : List Event) : ∀ {s : Tftmod}, s.state = .idle → (∀ e ∈ es, CommandFree e) →
    (es.foldl Tftmod.step s).notified = s.notified ∧ core (es.foldl Tftmod.step s).update = core s.update := by
  induction es with
  | nil => exact fun _ _ => ⟨rfl, rfl⟩
  | cons e es ih =>
    intro s h hes
    obtain ⟨hidle, hnotified, hcore⟩ := idle_step h (hes e (List.mem_cons_self ..))
    obtain ⟨hnotified', hcore'⟩ := ih hidle fun e' he' => hes e' (List.mem_cons_of_mem _ he')
    exact ⟨hnotified'.trans hnotified, hcore'.trans hcore⟩

/-- **A picture is signed once, at its last byte.** Whatever was sent before, and with it the window: from
a `0x2c` on, `sigdone_ev` is notified at the last byte and not before, the threads that wait for it get the
checksum of all bytes a delta cycle later, and what follows changes nothing until the next command. -/
theorem picture_signed (t : Vector (BitVec 32) 256) (cmd : BitVec 8) (val val1 : BitVec 32)
    (es before after : List Event) {c p : Bus} {b : BitVec 8} {w : Window} {s₀ s₁ s₂ : Tftmod}
    (hw : w = (es.foldl Settings.step .init).window) (hcol : w.startcol ≤ w.endcol) (hrow : w.startrow ≤ w.endrow)
    (hbytes : w.bytes < 2 ^ 32) (hc : c.conveyed = some (.command 0x2c)) (hbefore : ∀ e ∈ before, CommandFree e)
    (hp : p.conveyed = some (.data b)) (hafter : ∀ e ∈ after, CommandFree e)
    (h₀ : s₀ = es.foldl Tftmod.step (init t cmd val val1)) (h₁ : s₁ = (.wr c :: before).foldl Tftmod.step s₀)
    (h₂ : s₂ = s₁.step (.wr p)) (hcount : (picture w s₀.fglow s₀.fghigh before).length + 1 = w.bytes) :
    (∀ n, ((.wr c :: before.take n).foldl Tftmod.step s₀).notified = s₀.notified) ∧
      s₂.notified = s₀.notified + 1 ∧ s₂.waiting = 0 ∧
      s₂.update.objs = s₁.objs ++ List.replicate s₁.waiting
        ⟨w.startcol, w.startrow, w.endcol, w.endrow,
          checksum t 0 (picture w s₀.fglow s₀.fghigh (before ++ [Event.wr p]))⟩ ∧
      (after.foldl Tftmod.step s₂).notified = s₂.notified ∧
      core (after.foldl Tftmod.step s₂).update = core s₂.update := by
  subst h₀ h₁ h₂
  have htracks := (tracks_init (t := t) cmd val val1).run es
  have htable : (es.foldl Tftmod.step (init t cmd val val1)).crcTable = crctableInit t :=
    (run_crcTable es _).trans (by dsimp only [init])
  obtain ⟨hstart, hlow, hhigh⟩ := Filming.start htracks htable hc (hw ▸ hcol) (hw ▸ hrow)
  rw [← hw] at hstart
  generalize es.foldl Tftmod.step (init t cmd val val1) = s₀ at hstart hlow hhigh hcount htable ⊢
  have hcut : ∀ n, (picture w s₀.fglow s₀.fghigh (before.take n)).length < w.bytes := by
    intro n
    have happend := congrArg List.length (picture_append (w := w) (before.take n) (before.drop n) s₀)
    rw [List.take_append_drop, List.length_append] at happend
    omega
  have hrun : ∀ n, Filming t w s₀.notified (picture w s₀.fglow s₀.fghigh (before.take n))
      ((.wr c :: before.take n).foldl Tftmod.step s₀) := by
    intro n
    have hfilm := Filming.run hcol hbytes (before.take n) hstart (fun e he => hbefore e (List.mem_of_mem_take he))
      (by rw [hlow, hhigh]; exact hcut n)
    rw [hlow, hhigh] at hfilm
    exact hfilm
  have hall := hrun before.length
  rw [List.take_length] at hall
  obtain ⟨hidle, hnotified, hwaiting, hobjs⟩ := hall.last hcol hbytes hcount hp
  obtain ⟨hnotified', hcore⟩ := idle_run after hidle hafter
  refine ⟨fun n => (hrun n).notified, hnotified, hwaiting, ?_, hnotified', hcore⟩
  rw [← hlow, ← hhigh, picture_append, hobjs, hlow, hhigh]
  rfl

/-- A rising edge with a command. -/
def commandEdge (b : BitVec 8) : Event := .wr (Bus.levels .one .zero .one b)

/-- A rising edge with a byte. -/
def dataEdge (b : BitVec 8) : Event := .wr (Bus.levels .one .one .one b)

/-- Two columns and one row are set. -/
def twoPixels : List Event :=
  [commandEdge 0x2a, dataEdge 0, dataEdge 0, dataEdge 0, dataEdge 1, commandEdge 0x2b, dataEdge 0, dataEdge 0,
    dataEdge 0, dataEdge 0]

/-- The model after them. -/
def twoPixelsSet : Tftmod := twoPixels.foldl Tftmod.step (init (Vector.replicate 256 0) 0 0 0)

/-- Three bytes of a picture with two pixels, the first of the foreground colour, and a thread that waits for
it. -/
def threeBytes : List Event := [.setfgcolor 0x3412, .waitcode, dataEdge 0x12, dataEdge 0x34, dataEdge 0x56]

theorem commandFree_dataEdge (b : BitVec 8) : CommandFree (dataEdge b) := by
  intro c hc
  rw [conveyed_data] at hc
  cases hc

theorem commandFree_threeBytes : ∀ e ∈ threeBytes, CommandFree e := by
  simp only [threeBytes, List.mem_cons, List.not_mem_nil, or_false, forall_eq_or_imp, forall_eq]
  exact ⟨trivial, trivial, commandFree_dataEdge _, commandFree_dataEdge _, commandFree_dataEdge _⟩

/-- The fourth byte signs the picture, and the thread gets the checksum of `ff ff 00 00`. -/
theorem picture_signed_twoPixels :
    ((commandEdge 0x2c :: threeBytes).foldl Tftmod.step twoPixelsSet |>.step (dataEdge 0x78)).notified =
        twoPixelsSet.notified + 1 ∧
      ((commandEdge 0x2c :: threeBytes).foldl Tftmod.step twoPixelsSet |>.step (dataEdge 0x78)).update.objs =
        [⟨0, 0, 1, 0, 0x384cb906⟩] := by
  obtain ⟨-, hnotified, -, hobjs, -⟩ :=
    picture_signed (Vector.replicate 256 0) 0 0 0 twoPixels threeBytes [] (w := ⟨0, 1, 0, 0⟩)
      (by decide +kernel) (by decide) (by decide) (by decide) (conveyed_command 0x2c)
      commandFree_threeBytes (conveyed_data 0x78) (fun _ h => absurd h List.not_mem_nil) rfl rfl rfl
      (by decide +kernel)
  refine ⟨hnotified, hobjs.trans ?_⟩
  rw [checksum_eq_feeds]
  decide +kernel

end Tftmod

end Espmod.Tft
