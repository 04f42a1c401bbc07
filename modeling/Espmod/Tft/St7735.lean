/-
# Espmod.Tft.St7735 — words on the serial interface of the display controller

`collect` counts the bits of a word down in `pos`: a clock that finds `pos` at zero begins a word, with 9
in it in 3-wire mode and 8 in 4-wire mode, every other clock takes one off, and the word is reported at 1.
At 1 the word is over, but the next clock brings `pos` to zero instead of beginning the next word: it is
spent between the words, with a shift by -1. So of words that follow each other only the first is reported.
In 3-wire mode `wrx`, which has no meaning there, sets the data flag of a word that has begun. And the
rising edge is a level: a clock that is high when the reset ends counts as one.

`readmode` is false from the constructor on, and nothing sets it, so its branch is left out.
-/
import Espmod.Gpio.ReturnPath

namespace Espmod.Gpio.GnLogic.ScLogic

/-- `gn_mixed::islow`. -/
def islow (a : ScLogic) : Bool := a.isNumber .logic0 || a.isNumber .logicW0

theorem islow_eq (a : ScLogic) : a.islow = decide (a = .zero ∨ a = .z) := by cases a <;> decide

end Espmod.Gpio.GnLogic.ScLogic

namespace Espmod.Tft

open Espmod.Gpio (GnLogic)
open Espmod.Gpio.GnLogic (ScLogic)

/-! ## §1 — the thread -/

/-- The pins that `collect` reads. -/
structure Pins where
  resx : GnLogic
  csx : GnLogic
  sclDcx : GnLogic
  wrx : GnLogic
  sda : GnLogic
  spi4w : GnLogic
deriving Repr, DecidableEq

structure St7735 where
  pins : Pins
  initialized : Bool
  collected : BitVec 32
  pos : Nat
  /-- history: the words that were reported -/
  received : List (BitVec 32)
deriving Repr, DecidableEq

namespace St7735

/-- `1 << (pos-1)`. What a shift by -1 gives is not defined. -/
def bit (shiftBack : BitVec 32) : Nat → BitVec 32
  | 0 => shiftBack
  | n + 1 => 1 <<< n

/-- A rising edge. -/
def latch (shiftBack : BitVec 32) (s : St7735) : St7735 :=
  let collected := if s.pins.wrx.scLogic.ishigh then s.collected ||| 0x100 else s.collected
  let collected := if s.pos = 0 then 0 else collected
  let pos := if s.pos = 0 then (if s.pins.spi4w.scLogic.islow then 9 else 8) else s.pos - 1
  let collected :=
    if s.pins.spi4w.scLogic.ishigh then
      if !s.pins.wrx.scLogic.islogic then collected
      else if s.pins.wrx.scLogic.ishigh then collected ||| 0x100
      else collected &&& 0x0ff
    else collected
  let collected :=
    if !s.pins.sda.scLogic.islogic then collected
    else if s.pins.sda.scLogic.ishigh then collected ||| bit shiftBack pos
    else collected
  { s with
    pos := pos
    collected := collected
    received := if pos = 1 then s.received ++ [collected] else s.received }

/-- One turn of the loop. -/
def collect (shiftBack : BitVec 32) (s : St7735) : St7735 :=
  if !s.pins.resx.scLogic.islogic then s
  else if s.pins.resx.scLogic.islow then { s with pos := 0, collected := 0, initialized := true }
  else if !s.pins.csx.scLogic.islogic then s
  else if s.pins.csx.scLogic.ishigh then s
  else if !s.initialized then s
  else if !s.pins.sclDcx.scLogic.islogic then s
  else if s.pins.sclDcx.scLogic ≠ .one then s
  else if !s.pins.spi4w.scLogic.islogic then s
  else s.latch shiftBack

/-- New levels. The thread is sensitive to four of the pins. -/
def set (shiftBack : BitVec 32) (s : St7735) (p : Pins) : St7735 :=
  if p.csx ≠ s.pins.csx ∨ p.sclDcx ≠ s.pins.sclDcx ∨ p.resx ≠ s.pins.resx ∨ p.wrx ≠ s.pins.wrx then
    { s with pins := p }.collect shiftBack
  else { s with pins := p }

end St7735

/-! ## §2 — the host -/

/-- The levels that a host gives to its lines. -/
structure Host where
  level : Bool → GnLogic
  scLogic_level : ∀ b, (level b).scLogic = if b then .one else .zero

/-- A clock: what `sda` and `wrx` do while it is low, and their levels around its rising edge. -/
structure Clock where
  lows : List (GnLogic × GnLogic)
  sda : GnLogic
  wrx : GnLogic
deriving Repr, DecidableEq

/-- A word, with the data flag in front, and its clocks. -/
structure Word where
  value : BitVec 9
  clocks : List Clock
deriving Repr, DecidableEq

/-- How many clocks a word has. -/
def wordLength (fourWire : Bool) : Nat := if fourWire then 8 else 9

namespace Host

variable (h : Host) (fourWire : Bool)

/-- The pins of a selected controller. -/
def pins (scl : Bool) (sda wrx : GnLogic) : Pins :=
  ⟨h.level true, h.level false, h.level scl, wrx, sda, h.level fourWire⟩

def events (c : Clock) : List Pins :=
  (c.lows.map fun l => h.pins fourWire false l.1 l.2) ++
    [h.pins fourWire false c.sda c.wrx, h.pins fourWire true c.sda c.wrx]

/-- The clocks of a word carry its bits on `sda`, and its flag is on `wrx` in 4-wire mode. -/
structure Sends (w : Word) : Prop where
  sda : w.clocks.map Clock.sda = (List.range (wordLength fourWire)).reverse.map fun i => h.level (w.value.getLsbD i)
  wrx : fourWire = true → ∀ c ∈ w.clocks, c.wrx = h.level (w.value.getLsbD 8)

/-- A reset, and its end, while the clock is at the level `idle`. -/
def reset (shiftBack : BitVec 32) (idle : Bool) (sda wrx : GnLogic) (s : St7735) : St7735 :=
  (s.set shiftBack { h.pins fourWire idle sda wrx with resx := h.level false }).set shiftBack
    (h.pins fourWire idle sda wrx)

/-- Some clocks. -/
def run (shiftBack : BitVec 32) (s : St7735) (cs : List Clock) : St7735 :=
  (cs.flatMap (h.events fourWire)).foldl (St7735.set shiftBack) s

/-- After every clock of the words, those that are complete are what has been reported. -/
def Decodes (shiftBack : BitVec 32) (s₀ : St7735) (reported : List (BitVec 32)) (words : List Word) : Prop :=
  ∀ n ≤ (words.flatMap Word.clocks).length,
    (h.run fourWire shiftBack s₀ ((words.flatMap Word.clocks).take n)).received =
      reported ++ (words.take (n / wordLength fourWire)).map fun w => w.value.setWidth 32

/-- In 3-wire mode, `wrx` is not high behind the first bit of a word whose flag is not set. -/
def Clean (w : Word) : Prop :=
  fourWire = true ∨ w.value.getLsbD 8 = true ∨ ∀ c ∈ w.clocks.tail, c.wrx.scLogic.ishigh = false

end Host

/-! ## §3 — a clock -/

variable {h : Host} {fourWire : Bool} {shiftBack : BitVec 32} {s : St7735}

theorem Host.ishigh_level (h : Host) (b : Bool) : (h.level b).scLogic.ishigh = b := by
  rw [h.scLogic_level, ScLogic.ishigh_eq]
  cases b <;> decide

theorem Host.islow_level (h : Host) (b : Bool) : (h.level b).scLogic.islow = !b := by
  rw [h.scLogic_level, ScLogic.islow_eq]
  cases b <;> decide

theorem Host.level_ne (h : Host) : h.level true ≠ h.level false := by
  intro heq
  have hlogic := congrArg GnLogic.scLogic heq
  rw [h.scLogic_level, h.scLogic_level] at hlogic
  exact ScLogic.noConfusion hlogic

/-- The controller has been reset, and the host has its lines. -/
structure Selected (h : Host) (fourWire : Bool) (s : St7735) : Prop where
  initialized : s.initialized = true
  pins : ∃ scl sda wrx, s.pins = h.pins fourWire scl sda wrx

/-- A turn that finds the clock low. -/
theorem collect_low (h : Host) (fourWire : Bool) (sda wrx : GnLogic) (hinit : s.initialized = true)
    (hpins : s.pins = h.pins fourWire false sda wrx) : s.collect shiftBack = s := by
  unfold St7735.collect
  rw [hpins]
  simp [Host.pins, hinit, h.scLogic_level, ScLogic.islogic_eq, ScLogic.islow_eq, ScLogic.ishigh_eq]

/-- A turn that finds it high. -/
theorem collect_high (h : Host) (fourWire : Bool) (sda wrx : GnLogic) (hinit : s.initialized = true)
    (hpins : s.pins = h.pins fourWire true sda wrx) : s.collect shiftBack = s.latch shiftBack := by
  unfold St7735.collect
  rw [hpins]
  simp [Host.pins, hinit, h.scLogic_level, ScLogic.islogic_eq, ScLogic.islow_eq, ScLogic.ishigh_eq]

/-- Nothing happens while the clock is low. -/
theorem set_low (hs : Selected h fourWire s) (sda wrx : GnLogic) :
    s.set shiftBack (h.pins fourWire false sda wrx) = { s with pins := h.pins fourWire false sda wrx } := by
  unfold St7735.set
  split
  · exact collect_low h fourWire sda wrx hs.initialized rfl
  · rfl

/-- The rising edge wakes the thread. -/
theorem set_high (h : Host) (fourWire : Bool) {sda wrx sda' wrx' : GnLogic} (hinit : s.initialized = true)
    (hpins : s.pins = h.pins fourWire false sda wrx) :
    s.set shiftBack (h.pins fourWire true sda' wrx') =
      { s with pins := h.pins fourWire true sda' wrx' }.latch shiftBack := by
  have hedge : (h.pins fourWire true sda' wrx').sclDcx ≠ s.pins.sclDcx := by
    rw [hpins]
    exact h.level_ne
  unfold St7735.set
  rw [if_pos (Or.inr (Or.inl hedge))]
  exact collect_high h fourWire sda' wrx' hinit rfl

theorem run_nil : h.run fourWire shiftBack s [] = s := rfl

theorem run_append (cs ds : List Clock) :
    h.run fourWire shiftBack s (cs ++ ds) =
      h.run fourWire shiftBack (h.run fourWire shiftBack s cs) ds := by
  unfold Host.run
  rw [List.flatMap_append, List.foldl_append]

/-- **One clock** is one rising edge. -/
theorem run_clock (shiftBack : BitVec 32) (hs : Selected h fourWire s) (c : Clock) :
    h.run fourWire shiftBack s [c] =
        { s with pins := h.pins fourWire true c.sda c.wrx }.latch shiftBack ∧
      Selected h fourWire (h.run fourWire shiftBack s [c]) := by
  have hlows : ∀ (ls : List (GnLogic × GnLogic)) (s : St7735), Selected h fourWire s →
      ∃ p, (ls.map fun l => h.pins fourWire false l.1 l.2).foldl (St7735.set shiftBack) s = { s with pins := p } ∧
        Selected h fourWire { s with pins := p } := by
    intro ls
    induction ls with
    | nil => exact fun s hs => ⟨s.pins, rfl, hs⟩
    | cons l ls ih =>
      intro s hs
      obtain ⟨p, hp, hsel⟩ := ih { s with pins := h.pins fourWire false l.1 l.2 } ⟨hs.initialized, false, l.1, l.2, rfl⟩
      refine ⟨p, ?_, hsel⟩
      rw [List.map_cons, List.foldl_cons, set_low hs]
      exact hp
  obtain ⟨p, hp, hsel⟩ := hlows c.lows s hs
  have hrun : h.run fourWire shiftBack s [c] =
      { s with pins := h.pins fourWire true c.sda c.wrx }.latch shiftBack := by
    unfold Host.run Host.events
    rw [List.flatMap_cons, List.flatMap_nil, List.append_nil, List.foldl_append, hp, List.foldl_cons, set_low hsel]
    exact set_high h fourWire hs.initialized rfl
  refine ⟨hrun, ?_⟩
  rw [hrun]
  exact ⟨hs.initialized, true, c.sda, c.wrx, rfl⟩

/-- The counter, and the report, at a clock. -/
theorem latch_pos (shiftBack : BitVec 32) (hpins : s.pins.spi4w = h.level fourWire) :
    (s.latch shiftBack).pos = (if s.pos = 0 then wordLength fourWire else s.pos - 1) ∧
      (s.latch shiftBack).received =
        if (s.latch shiftBack).pos = 1 then s.received ++ [(s.latch shiftBack).collected] else s.received := by
  refine ⟨?_, rfl⟩
  show (if s.pos = 0 then (if s.pins.spi4w.scLogic.islow then 9 else 8) else s.pos - 1) = _
  rw [hpins, h.islow_level]
  cases fourWire <;> rfl

theorem Selected.spi4w (hs : Selected h fourWire s) : s.pins.spi4w = h.level fourWire := by
  obtain ⟨scl, sda, wrx, hpins⟩ := hs.pins
  rw [hpins]
  rfl

/-! ## §4 — the counter -/

/-- A clock on the counter. -/
theorem run_clock_pos (shiftBack : BitVec 32) (hs : Selected h fourWire s) (c : Clock) :
    (h.run fourWire shiftBack s [c]).pos = (if s.pos = 0 then wordLength fourWire else s.pos - 1) ∧
      (h.run fourWire shiftBack s [c]).received =
        if (h.run fourWire shiftBack s [c]).pos = 1 then
          s.received ++ [(h.run fourWire shiftBack s [c]).collected]
        else s.received := by
  rw [(run_clock shiftBack hs c).1]
  exact latch_pos shiftBack (s := { s with pins := h.pins fourWire true c.sda c.wrx }) rfl

/-- Clocks that do not bring the counter down to 1. -/
theorem run_above (shiftBack : BitVec 32) (cs : List Clock) : ∀ {s : St7735}, Selected h fourWire s →
    cs.length + 1 < s.pos → (h.run fourWire shiftBack s cs).pos = s.pos - cs.length ∧
      (h.run fourWire shiftBack s cs).received = s.received ∧
      Selected h fourWire (h.run fourWire shiftBack s cs) := by
  induction cs with
  | nil => exact fun hs _ => ⟨rfl, rfl, hs⟩
  | cons c cs ih =>
    intro s hs hlt
    rw [List.length_cons] at hlt
    obtain ⟨hpos, hreceived⟩ := run_clock_pos shiftBack hs c
    have hsel := (run_clock shiftBack hs c).2
    rw [if_neg (by omega)] at hpos
    rw [if_neg (by omega)] at hreceived
    obtain ⟨hpos', hreceived', hsel'⟩ := ih hsel (by omega)
    rw [← List.singleton_append, run_append]
    refine ⟨?_, hreceived'.trans hreceived, hsel'⟩
    rw [hpos', hpos, List.length_append, List.length_singleton]
    omega

/-- The clock that does: what has been collected is reported. -/
theorem run_down (shiftBack : BitVec 32) (cs : List Clock) (c : Clock) (hs : Selected h fourWire s)
    (hpos : s.pos = cs.length + 2) :
    (h.run fourWire shiftBack s (cs ++ [c])).pos = 1 ∧
      (h.run fourWire shiftBack s (cs ++ [c])).received =
        s.received ++ [(h.run fourWire shiftBack s (cs ++ [c])).collected] ∧
      Selected h fourWire (h.run fourWire shiftBack s (cs ++ [c])) := by
  obtain ⟨hpos', hreceived', hsel'⟩ := run_above shiftBack cs hs (by omega)
  obtain ⟨hpos'', hreceived''⟩ := run_clock_pos shiftBack hsel' c
  have hone : (h.run fourWire shiftBack (h.run fourWire shiftBack s cs) [c]).pos = 1 := by
    rw [hpos'', if_neg (by omega)]
    omega
  rw [if_pos hone, hreceived'] at hreceived''
  rw [run_append]
  exact ⟨hone, hreceived'', (run_clock shiftBack hsel' c).2⟩

/-! ## §5 — the bits -/

theorem getLsbD_bit {n : Nat} (hn : n < 32) (i : Nat) :
    (St7735.bit shiftBack (n + 1)).getLsbD i = decide (i = n) := by
  show (BitVec.twoPow 32 n).getLsbD i = _
  rw [BitVec.getLsbD_twoPow, decide_eq_true hn, Bool.true_and]
  exact decide_eq_decide.mpr eq_comm

theorem getLsbD_flag (i : Nat) : (256#32).getLsbD i = decide (i = 8) := by
  show (BitVec.twoPow 32 8).getLsbD i = _
  rw [BitVec.getLsbD_twoPow, decide_eq_true (by decide), Bool.true_and]
  exact decide_eq_decide.mpr eq_comm

theorem getLsbD_mask (i : Nat) : (255#32).getLsbD i = decide (i < 8) :=
  Nat.testBit_two_pow_sub_one 8 i

/-- What a rising edge makes of the word in 3-wire mode. -/
theorem latch_three (shiftBack : BitVec 32) {b : Bool} (hspi : s.pins.spi4w = h.level false)
    (hsda : s.pins.sda = h.level b) (i : Nat) :
    (s.latch shiftBack).collected.getLsbD i =
      (!decide (s.pos = 0) && (s.collected.getLsbD i || (s.pins.wrx.scLogic.ishigh && decide (i = 8))) ||
        (b && (St7735.bit shiftBack (if s.pos = 0 then 9 else s.pos - 1)).getLsbD i)) := by
  unfold St7735.latch
  simp only [hspi, hsda, h.ishigh_level, h.islow_level, ScLogic.islogic_eq, Bool.not_true]
  by_cases h0 : s.pos = 0 <;> cases s.pins.wrx.scLogic.ishigh <;> cases b <;>
    simp [h0, getLsbD_flag]

/-- And in 4-wire mode. -/
theorem latch_four (shiftBack : BitVec 32) {b : Bool} (hspi : s.pins.spi4w = h.level true)
    (hsda : s.pins.sda = h.level b) (i : Nat) :
    (s.latch shiftBack).collected.getLsbD i =
      ((!decide (s.pos = 0) && s.collected.getLsbD i && !decide (i = 8) &&
          (s.pins.wrx.scLogic.ishigh || decide (i < 8))) ||
        (s.pins.wrx.scLogic.ishigh && decide (i = 8)) ||
        (b && (St7735.bit shiftBack (if s.pos = 0 then 8 else s.pos - 1)).getLsbD i)) := by
  unfold St7735.latch
  simp only [hspi, hsda, h.ishigh_level, h.islow_level, ScLogic.islogic_eq, Bool.not_true]
  by_cases h0 : s.pos = 0 <;> cases s.pins.wrx.scLogic.ishigh <;> cases b <;> by_cases h8 : i = 8 <;>
    simp [h0, h8, getLsbD_flag, getLsbD_mask]

/-- The clocks carry the low bits of a value, the highest of them first. -/
def Bits (h : Host) (value : BitVec 9) (cs : List Clock) : Prop :=
  cs.map Clock.sda = (List.range cs.length).reverse.map fun i => h.level (value.getLsbD i)

theorem Bits.cons {value : BitVec 9} {c : Clock} {cs : List Clock} (hbits : Bits h value (c :: cs)) :
    c.sda = h.level (value.getLsbD cs.length) ∧ Bits h value cs := by
  unfold Bits at hbits
  rw [List.length_cons, List.range_succ, List.reverse_append, List.reverse_singleton, List.singleton_append,
    List.map_cons, List.map_cons] at hbits
  injection hbits with hc hcs
  exact ⟨hc, hcs⟩

theorem bits_eq (b : Bool) {n : Nat} (value : BitVec 9) (i : Nat) (hb : b = value.getLsbD n) :
    (b && decide (i = n) || decide (i < n) && value.getLsbD i) = (decide (i < n + 1) && value.getLsbD i) := by
  subst hb
  rcases Nat.lt_trichotomy i n with hlt | heq | hgt
  · simp [hlt, Nat.ne_of_lt hlt, Nat.lt_succ_of_lt hlt]
  · subst heq
    simp
  · simp [Nat.not_lt_of_gt hgt, Nat.ne_of_gt hgt, show ¬ i < n + 1 by omega]

/-- **The rest of a word in 3-wire mode**: its bits, and the flag where `wrx` is high. -/
theorem run_three {value : BitVec 9} (cs : List Clock) : ∀ {s : St7735}, Selected h false s →
    s.pos = cs.length + 1 → Bits h value cs → cs.length < 32 → ∀ i,
      (h.run false shiftBack s cs).collected.getLsbD i =
        (s.collected.getLsbD i || (decide (i < cs.length) && value.getLsbD i) ||
          (cs.any (fun c => c.wrx.scLogic.ishigh) && decide (i = 8))) := by
  induction cs with
  | nil =>
    intro s _ _ _ _ i
    simp [run_nil]
  | cons c cs ih =>
    intro s hs hpos hbits hlen i
    rw [List.length_cons] at hpos hlen
    obtain ⟨hc, hcs⟩ := hbits.cons
    obtain ⟨hclock, hsel⟩ := run_clock shiftBack hs c
    have hnext := (run_clock_pos shiftBack hs c).1
    rw [if_neg (by omega)] at hnext
    have hlatch := latch_three shiftBack (h := h)
      (s := { s with pins := h.pins false true c.sda c.wrx }) rfl hc i
    rw [← hclock] at hlatch
    dsimp only at hlatch
    rw [if_neg (by omega), hpos, Nat.add_sub_cancel, getLsbD_bit (by omega)] at hlatch
    rw [← List.singleton_append, run_append, ih hsel (by omega) hcs (by omega) i, hlatch, List.length_append,
      List.length_singleton, Nat.add_comm 1, ← bits_eq _ value i rfl]
    simp only [Host.pins, List.any_append, List.any_cons, List.any_nil, Bool.or_false]
    cases s.collected.getLsbD i <;> cases c.wrx.scLogic.ishigh <;> cases decide (i = 8) <;> simp

/-- **In 4-wire mode**: the bits behind a flag that stays. -/
theorem run_four {value : BitVec 9} {flag : Bool} (cs : List Clock) : ∀ {s : St7735}, Selected h true s →
    s.pos = cs.length + 1 → Bits h value cs → cs.length < 9 → (∀ c ∈ cs, c.wrx = h.level flag) →
    (∀ i, 8 ≤ i → s.collected.getLsbD i = (flag && decide (i = 8))) → ∀ i,
      (h.run true shiftBack s cs).collected.getLsbD i =
        (s.collected.getLsbD i || (decide (i < cs.length) && value.getLsbD i)) := by
  induction cs with
  | nil =>
    intro s _ _ _ _ _ _ i
    simp [run_nil]
  | cons c cs ih =>
    intro s hs hpos hbits hlen hwrx hhigh i
    rw [List.length_cons] at hpos hlen
    obtain ⟨hc, hcs⟩ := hbits.cons
    obtain ⟨hclock, hsel⟩ := run_clock shiftBack hs c
    have hnext := (run_clock_pos shiftBack hs c).1
    rw [if_neg (by omega)] at hnext
    have hlatch : ∀ i, (h.run true shiftBack s [c]).collected.getLsbD i =
        (s.collected.getLsbD i || (value.getLsbD cs.length && decide (i = cs.length))) := by
      intro i
      have hlatch := latch_four shiftBack (h := h)
        (s := { s with pins := h.pins true true c.sda c.wrx }) rfl hc i
      rw [← hclock] at hlatch
      dsimp only [Host.pins] at hlatch
      rw [if_neg (by omega), hpos, Nat.add_sub_cancel, getLsbD_bit (by omega),
        hwrx c (List.mem_cons_self ..), h.ishigh_level] at hlatch
      rw [hlatch]
      by_cases h8 : 8 ≤ i
      · rw [hhigh i h8]
        cases flag <;> by_cases heq : i = 8 <;> simp [heq]
      · have hne : i ≠ 8 := by omega
        have hlt : i < 8 := by omega
        simp [hne, hlt]
    have hhigh' : ∀ i, 8 ≤ i → (h.run true shiftBack s [c]).collected.getLsbD i = (flag && decide (i = 8)) := by
      intro i h8
      rw [hlatch i, hhigh i h8, decide_eq_false (show ¬ i = cs.length by omega), Bool.and_false, Bool.or_false]
    rw [← List.singleton_append, run_append,
      ih hsel (by omega) hcs (by omega) (fun d hd => hwrx d (List.mem_cons_of_mem _ hd)) hhigh' i, hlatch i,
      List.length_append, List.length_singleton, Nat.add_comm 1, ← bits_eq _ value i rfl, Bool.or_assoc]

/-! ## §6 — words -/

theorem wordLength_pos (fourWire : Bool) : 0 < wordLength fourWire := by cases fourWire <;> decide

theorem Sends.length {w : Word} (hw : h.Sends fourWire w) : w.clocks.length = wordLength fourWire := by
  have hlen := congrArg List.length hw.sda
  rwa [List.length_map, List.length_map, List.length_reverse, List.length_range] at hlen

theorem Sends.bits {w : Word} (hw : h.Sends fourWire w) : Bits h w.value w.clocks := by
  unfold Bits
  rw [Sends.length hw]
  exact hw.sda

/-- The value that is reported for a word. -/
def reported (fourWire : Bool) (w : Word) (i : Nat) : Bool :=
  w.value.getLsbD i ||
    (!fourWire && w.clocks.tail.any (fun c => c.wrx.scLogic.ishigh) && decide (i = 8))

/-- The first clock of a word. -/
theorem run_first (shiftBack : BitVec 32) {w : Word} {c : Clock} {cs : List Clock} (hs : Selected h fourWire s)
    (hpos : s.pos = 0) (hw : h.Sends fourWire w) (hclocks : w.clocks = c :: cs) :
    (h.run fourWire shiftBack s [c]).pos = cs.length + 1 ∧ cs.length + 1 = wordLength fourWire ∧
      (h.run fourWire shiftBack s [c]).received = s.received ∧
      ∀ i, (h.run fourWire shiftBack s [c]).collected.getLsbD i =
        ((fourWire && w.value.getLsbD 8 && decide (i = 8)) ||
          (w.value.getLsbD cs.length && decide (i = cs.length))) := by
  have hlen := Sends.length hw
  have hbits := Sends.bits hw
  rw [hclocks] at hlen hbits
  obtain ⟨hc, -⟩ := hbits.cons
  obtain ⟨hnext, hreceived⟩ := run_clock_pos shiftBack hs c
  rw [if_pos hpos] at hnext
  have hone : ¬ wordLength fourWire = 1 := by cases fourWire <;> decide
  rw [hnext, if_neg hone] at hreceived
  refine ⟨hnext.trans hlen.symm, hlen, hreceived, fun i => ?_⟩
  rw [(run_clock shiftBack hs c).1]
  have hzero : decide (s.pos = 0) = true := decide_eq_true hpos
  cases fourWire with
  | false =>
    have hlatch := latch_three shiftBack (h := h)
      (s := { s with pins := h.pins false true c.sda c.wrx }) rfl hc i
    rw [hlatch, if_pos hpos, hzero, getLsbD_bit (by decide)]
    have hcs : cs.length = 8 := Nat.succ.inj hlen
    rw [hcs]
    rfl
  | true =>
    have hwrx : c.wrx = h.level (w.value.getLsbD 8) := hw.wrx rfl c (hclocks ▸ List.mem_cons_self ..)
    have hlatch := latch_four shiftBack (h := h)
      (s := { s with pins := h.pins true true c.sda c.wrx }) rfl hc i
    have hcs : cs.length = 7 := Nat.succ.inj hlen
    have hflag : (h.pins true true c.sda c.wrx).wrx.scLogic.ishigh = w.value.getLsbD 8 := by
      show c.wrx.scLogic.ishigh = _
      rw [hwrx, h.ishigh_level]
    rw [hlatch, if_pos hpos, hzero, getLsbD_bit (by decide), hflag, hcs]
    rfl

/-- **A word that finds the counter at zero** is reported at its last clock. -/
theorem run_word (shiftBack : BitVec 32) {w : Word} (hs : Selected h fourWire s) (hpos : s.pos = 0)
    (hw : h.Sends fourWire w) :
    (h.run fourWire shiftBack s w.clocks).pos = 1 ∧
      (h.run fourWire shiftBack s w.clocks).received =
        s.received ++ [(h.run fourWire shiftBack s w.clocks).collected] ∧
      Selected h fourWire (h.run fourWire shiftBack s w.clocks) ∧
      (∀ i, (h.run fourWire shiftBack s w.clocks).collected.getLsbD i = reported fourWire w i) ∧
      ∀ n, n < wordLength fourWire → (h.run fourWire shiftBack s (w.clocks.take n)).received = s.received := by
  have hlen := Sends.length hw
  cases hclocks : w.clocks with
  | nil =>
    rw [hclocks] at hlen
    exact absurd hlen (Nat.ne_of_lt (wordLength_pos fourWire))
  | cons c cs =>
    obtain ⟨hfirst, hsize, hreceived, hcollected⟩ := run_first shiftBack hs hpos hw hclocks
    have hsel := (run_clock shiftBack hs c).2
    have hlong : 8 ≤ wordLength fourWire := by cases fourWire <;> decide
    obtain ⟨ds, d, hcs⟩ : ∃ ds d, cs = ds ++ [d] := by
      refine ⟨cs.dropLast, cs.getLast ?_, (List.dropLast_append_getLast _).symm⟩
      rintro rfl
      rw [List.length_nil] at hsize
      omega
    have hdown := run_down shiftBack ds d hsel (by
      rw [hfirst, hcs, List.length_append, List.length_singleton])
    rw [← hcs, ← run_append, List.singleton_append, hreceived] at hdown
    refine ⟨hdown.1, hdown.2.1, hdown.2.2, fun i => ?_, fun n hn => ?_⟩
    · have hbits : Bits h w.value cs := (hclocks ▸ Sends.bits hw).cons.2
      have htop : (decide (i < 9) && w.value.getLsbD i) = w.value.getLsbD i := by
        by_cases hi : i < 9
        · rw [decide_eq_true hi, Bool.true_and]
        · rw [BitVec.getLsbD_of_ge w.value i (by omega), Bool.and_false]
      unfold reported
      rw [hclocks, List.tail_cons, ← List.singleton_append, run_append]
      cases fourWire with
      | false =>
        have hcs8 : cs.length = 8 := Nat.succ.inj hsize
        rw [run_three cs hsel hfirst hbits (by omega) i, hcollected i, hcs8, Bool.false_and, Bool.false_and,
          Bool.false_or, bits_eq _ w.value i rfl, htop, Bool.not_false, Bool.true_and]
      | true =>
        have hcs7 : cs.length = 7 := Nat.succ.inj hsize
        have hwrx : ∀ c ∈ cs, c.wrx = h.level (w.value.getLsbD 8) :=
          fun c hc => hw.wrx rfl c (hclocks ▸ List.mem_cons_of_mem _ hc)
        have hhigh : ∀ i, 8 ≤ i → (h.run true shiftBack s [c]).collected.getLsbD i =
            (w.value.getLsbD 8 && decide (i = 8)) := by
          intro i h8
          rw [hcollected i, hcs7, decide_eq_false (show ¬ i = 7 by omega)]
          simp
        rw [run_four cs hsel hfirst hbits (by omega) hwrx hhigh i, hcollected i, hcs7, Bool.true_and, Bool.or_assoc,
          bits_eq (n := 7) _ w.value i rfl, bits_eq (n := 8) _ w.value i rfl, htop, Bool.not_true, Bool.false_and,
          Bool.false_and, Bool.or_false]
    · cases n with
      | zero => rfl
      | succ n =>
        rw [List.take_succ_cons, ← List.singleton_append, run_append]
        have hshort : (cs.take n).length + 1 < (h.run fourWire shiftBack s [c]).pos := by
          rw [hfirst, List.length_take]
          omega
        exact (run_above shiftBack (cs.take n) hsel hshort).2.1.trans hreceived

/-! ## §7 — the result -/

/-- A change of `resx` wakes the thread. -/
theorem set_resx {p : Pins} (hchange : p.resx ≠ s.pins.resx) :
    s.set shiftBack p = { s with pins := p }.collect shiftBack := if_pos (Or.inr (Or.inr (Or.inl hchange)))

/-- The end of a reset: a clock that is high counts. -/
theorem reset_eq (fourWire : Bool) (shiftBack : BitVec 32) (hresx : s.pins.resx = h.level true) (idle : Bool)
    (sda wrx : GnLogic) :
    Selected h fourWire (h.reset fourWire shiftBack idle sda wrx s) ∧
      (h.reset fourWire shiftBack idle sda wrx s).pos = (if idle then wordLength fourWire else 0) ∧
      (h.reset fourWire shiftBack idle sda wrx s).received = s.received := by
  have hlow : s.set shiftBack { h.pins fourWire idle sda wrx with resx := h.level false } =
      ⟨{ h.pins fourWire idle sda wrx with resx := h.level false }, true, 0, 0, s.received⟩ := by
    rw [set_resx (by rw [hresx]; exact h.level_ne.symm)]
    unfold St7735.collect
    simp [ScLogic.islogic_eq, h.islow_level]
  unfold Host.reset
  rw [hlow, set_resx h.level_ne]
  cases idle with
  | false =>
    rw [collect_low h fourWire sda wrx rfl rfl]
    exact ⟨⟨rfl, false, sda, wrx, rfl⟩, rfl, rfl⟩
  | true =>
    rw [collect_high h fourWire sda wrx rfl rfl]
    obtain ⟨hpos, hreceived⟩ := latch_pos shiftBack (h := h)
      (s := ⟨h.pins fourWire true sda wrx, true, 0, 0, s.received⟩) rfl
    have hone : ¬ wordLength fourWire = 1 := by cases fourWire <;> decide
    rw [hpos, if_pos rfl, if_neg hone] at hreceived
    exact ⟨⟨rfl, true, sda, wrx, rfl⟩, hpos, hreceived⟩

/-- **The next word** is not reported: its first clock takes the counter from 1 to zero. -/
theorem run_next (shiftBack : BitVec 32) {w : Word} (hs : Selected h fourWire s) (hpos : s.pos = 1)
    (hw : h.Sends fourWire w) :
    (h.run fourWire shiftBack s w.clocks).received = s.received := by
  have hlen := Sends.length hw
  have hlong : 2 ≤ wordLength fourWire := by cases fourWire <;> decide
  match hclocks : w.clocks with
  | [] | [_] =>
    rw [hclocks] at hlen
    simp only [List.length_cons, List.length_nil] at hlen
    omega
  | c :: d :: cs =>
    rw [hclocks, List.length_cons, List.length_cons] at hlen
    obtain ⟨hpos₁, hreceived₁⟩ := run_clock_pos shiftBack hs c
    have hsel₁ := (run_clock shiftBack hs c).2
    rw [if_neg (by omega), hpos] at hpos₁
    rw [if_neg (by omega)] at hreceived₁
    obtain ⟨hpos₂, hreceived₂⟩ := run_clock_pos shiftBack hsel₁ d
    have hsel₂ := (run_clock shiftBack hsel₁ d).2
    rw [if_pos hpos₁] at hpos₂
    rw [if_neg (by omega)] at hreceived₂
    have habove := run_above shiftBack cs hsel₂ (by omega)
    rw [show c :: d :: cs = [c] ++ ([d] ++ cs) from rfl, run_append, run_append]
    exact habove.2.1.trans (hreceived₂.trans hreceived₁)

/-- The bit where a word and its report can differ. -/
theorem reported_eq_iff (w : Word) :
    (∀ i, reported fourWire w i = w.value.getLsbD i) ↔ Host.Clean fourWire w := by
  unfold reported Host.Clean
  constructor
  · intro heq
    have hflag := heq 8
    cases fourWire with
    | true => exact Or.inl rfl
    | false =>
      cases hvalue : w.value.getLsbD 8 with
      | true => exact Or.inr (Or.inl rfl)
      | false =>
        refine Or.inr (Or.inr fun c hc => ?_)
        rw [hvalue] at hflag
        have hnone : w.clocks.tail.any (fun c => c.wrx.scLogic.ishigh) = false := by simpa using hflag
        simpa using List.any_eq_false.mp hnone c hc
  · rintro (rfl | hvalue | hnone) i
    · simp
    · by_cases hi : i = 8
      · subst hi
        rw [hvalue, Bool.true_or]
      · rw [decide_eq_false hi, Bool.and_false, Bool.or_false]
    · have hany : w.clocks.tail.any (fun c => c.wrx.scLogic.ishigh) = false := by
        rw [List.any_eq_false]
        exact fun c hc => by rw [hnone c hc]; decide
      rw [hany, Bool.and_false, Bool.false_and, Bool.or_false]

theorem setWidth_eq_iff {x : BitVec 32} {v : BitVec 9} :
    x = v.setWidth 32 ↔ ∀ i, x.getLsbD i = v.getLsbD i := by
  have hwide : ∀ i, (v.setWidth 32).getLsbD i = v.getLsbD i := by
    intro i
    rw [BitVec.getLsbD_setWidth]
    by_cases hi : i < 32
    · rw [decide_eq_true hi, Bool.true_and]
    · rw [decide_eq_false hi, Bool.false_and, BitVec.getLsbD_of_ge v i (by omega)]
  constructor
  · rintro rfl
    exact hwide
  · exact fun hbits => BitVec.eq_of_getLsbD_eq fun i _ => (hbits i).trans (hwide i).symm

/-- A clock that is high at the end of the reset is one too many: the report comes a clock early. -/
theorem run_early (shiftBack : BitVec 32) {w : Word} (hs : Selected h fourWire s) (hpos : s.pos = wordLength fourWire)
    (hw : h.Sends fourWire w) :
    ∃ x, (h.run fourWire shiftBack s (w.clocks.take (wordLength fourWire - 1))).received = s.received ++ [x] := by
  have hlen := Sends.length hw
  obtain ⟨k, hk⟩ : ∃ k, wordLength fourWire = k + 2 := by cases fourWire <;> exact ⟨_, rfl⟩
  have hlt : k < w.clocks.length := by omega
  have htake : w.clocks.take (wordLength fourWire - 1) = w.clocks.take k ++ [w.clocks[k]] := by
    rw [hk]
    exact (List.take_append_getElem hlt).symm
  have hdown := run_down shiftBack (w.clocks.take k) w.clocks[k] hs (by
    rw [hpos, hk, List.length_take]
    omega)
  rw [htake]
  exact ⟨_, hdown.2.1⟩

/-- **One word is decoded**, after a reset that ends with a low clock, and no more. -/
theorem words_decoded {idle : Bool} {sda wrx : GnLogic} {words : List Word} (hresx : s.pins.resx = h.level true)
    (hwords : ∀ w ∈ words, h.Sends fourWire w) :
    h.Decodes fourWire shiftBack (h.reset fourWire shiftBack idle sda wrx s) s.received words ↔
      words = [] ∨ idle = false ∧ ∃ w, words = [w] ∧ Host.Clean fourWire w := by
  obtain ⟨hsel, hpos, hreceived⟩ := reset_eq fourWire shiftBack hresx idle sda wrx
  have hlong : 0 < wordLength fourWire := wordLength_pos fourWire
  constructor
  · intro hdec
    match words with
    | [] => exact Or.inl rfl
    | w :: ws =>
      right
      have hw := hwords w (List.mem_cons_self ..)
      have hlen := Sends.length hw
      cases idle with
      | true =>
        exfalso
        obtain ⟨x, hx⟩ := run_early shiftBack hsel hpos hw
        have hn := hdec (wordLength fourWire - 1) (by
          rw [List.flatMap_cons, List.length_append]
          omega)
        rw [List.flatMap_cons, List.take_append_of_le_length (by omega), hx, hreceived,
          Nat.div_eq_of_lt (Nat.sub_lt hlong Nat.one_pos)] at hn
        exact absurd (congrArg List.length hn) (by simp)
      | false =>
        refine ⟨rfl, ?_⟩
        obtain ⟨hpos', hreceived', hsel', hcollected, -⟩ := run_word shiftBack hsel hpos hw
        rw [hreceived] at hreceived'
        match ws with
        | [] =>
          have hn := hdec (wordLength fourWire) (by
            rw [List.flatMap_cons, List.length_append]
            omega)
          rw [List.flatMap_cons, List.flatMap_nil, List.append_nil, List.take_of_length_le (Nat.le_of_eq hlen),
            hreceived', Nat.div_self hlong] at hn
          have hsame := List.append_cancel_left hn
          injection hsame with hvalue
          refine ⟨w, rfl, (reported_eq_iff w).mp fun i => ?_⟩
          rw [← hcollected i]
          exact setWidth_eq_iff.mp hvalue i
        | v :: vs =>
          exfalso
          have hv := hwords v (List.mem_cons_of_mem _ (List.mem_cons_self ..))
          have hnext := run_next shiftBack hsel' hpos' hv
          have htwo : (w.clocks ++ v.clocks).length = 2 * wordLength fourWire := by
            rw [List.length_append, hlen, Sends.length hv]
            omega
          have hn := hdec (2 * wordLength fourWire) (by
            rw [List.flatMap_cons, List.flatMap_cons, ← List.append_assoc, List.length_append, htwo]
            omega)
          rw [List.flatMap_cons, List.flatMap_cons, ← List.append_assoc, ← htwo, List.take_left, run_append, hnext,
            hreceived', htwo, Nat.mul_div_cancel _ hlong] at hn
          exact absurd (congrArg List.length hn) (by simp)
  · rintro (rfl | ⟨rfl, w, rfl, hclean⟩)
    · intro n hn
      have hn : n = 0 := Nat.le_zero.mp hn
      subst hn
      rw [List.take_zero, run_nil, hreceived, Nat.zero_div]
      exact (List.append_nil _).symm
    · have hw := hwords w (List.mem_singleton_self w)
      have hlen := Sends.length hw
      obtain ⟨-, hreceived', -, hcollected, hbefore⟩ := run_word shiftBack hsel hpos hw
      intro n hn
      rw [List.flatMap_cons, List.flatMap_nil, List.append_nil] at hn ⊢
      rcases Nat.lt_or_eq_of_le hn with hlt | rfl
      · rw [hbefore n (by omega), hreceived, Nat.div_eq_of_lt (by omega)]
        exact (List.append_nil _).symm
      · have hvalue := setWidth_eq_iff.mpr fun i => (hcollected i).trans ((reported_eq_iff w).mpr hclean i)
        rw [List.take_length, hreceived', hreceived, hvalue, hlen, Nat.div_self hlong]
        rfl

/-- A host with strong levels. -/
def strongHost : Host := ⟨GnLogic.strong, fun b => by cases b <;> rfl⟩

/-- At power-on, the reset line high. -/
def powerOn : St7735 := ⟨strongHost.pins true false (.strong false) (.strong false), false, 0, 0, []⟩

/-- A word without more ado. -/
def Host.word (h : Host) (fourWire : Bool) (value : BitVec 9) : Word :=
  ⟨value, (List.range (wordLength fourWire)).reverse.map fun i =>
    ⟨[], h.level (value.getLsbD i), h.level (value.getLsbD 8)⟩⟩

theorem Host.sends_word (h : Host) (fourWire : Bool) (value : BitVec 9) :
    h.Sends fourWire (h.word fourWire value) where
  sda := List.map_map
  wrx := by
    intro _ c hc
    obtain ⟨i, _, rfl⟩ := List.mem_map.mp hc
    rfl

theorem words_decoded_one :
    strongHost.Decodes true 0 (strongHost.reset true 0 false (.strong false) (.strong false) powerOn) []
      [strongHost.word true 0x155] :=
  have hsends : ∀ w ∈ [strongHost.word true 0x155], strongHost.Sends true w :=
    fun _ hw => List.mem_singleton.mp hw ▸ strongHost.sends_word true 0x155
  (words_decoded (s := powerOn) rfl hsends).mpr (Or.inr ⟨rfl, _, rfl, Or.inl rfl⟩)

/-- Two words in 4-wire mode: the second is not reported. -/
theorem two_words_undecoded :
    (∀ w ∈ [strongHost.word true 0x155, strongHost.word true 0x0aa], strongHost.Sends true w) ∧
      (strongHost.run true 0 (strongHost.reset true 0 false (.strong false) (.strong false) powerOn)
        ((strongHost.word true 0x155).clocks ++ (strongHost.word true 0x0aa).clocks)).received = [0x155] ∧
      ¬ strongHost.Decodes true 0 (strongHost.reset true 0 false (.strong false) (.strong false) powerOn) []
        [strongHost.word true 0x155, strongHost.word true 0x0aa] := by
  have hrun : (strongHost.run true 0 (strongHost.reset true 0 false (.strong false) (.strong false) powerOn)
      ((strongHost.word true 0x155).clocks ++ (strongHost.word true 0x0aa).clocks)).received = [0x155] := by
    decide +kernel
  refine ⟨?_, hrun, fun hdec => ?_⟩
  · intro w hw
    rcases List.mem_pair.mp hw with rfl | rfl <;> exact strongHost.sends_word true _
  · have hn := hdec 16 (by decide +kernel)
    exact absurd (hn.symm.trans hrun) (by decide +kernel)

end Espmod.Tft
