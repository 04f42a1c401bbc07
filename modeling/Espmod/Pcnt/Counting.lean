/-
# Espmod.Pcnt.Counting — the counter against the edges that were sampled

With the filter and the limits off and the unit neither paused nor in reset, every change of a signal
from one sample to the next should count by what the configuration prescribes for that channel, that
edge and the control level sampled with it. The specification sums these prescriptions over the run,
both channels of every sample.

The two events of a sample wake `count` once, and `count` serves the first channel's event *or* the
second's. So a sample in which both signals change counts for the first channel alone, and the counter
agrees with the specification exactly as long as the second channel's part of such samples is zero.
-/
import Espmod.Lib.Run
import Espmod.Pcnt.Unit

namespace Espmod.Pcnt

open Espmod.Lib

/-! ## §1 — what the configuration prescribes -/

/-- Increase, decrease, or neither, by the mode of an edge. -/
def edgeStep (mode : Nat) : Int := if mode = 1 then 1 else if mode = 2 then -1 else 0

/-- The control mode keeps the step, inverts it, or inhibits it. -/
def prescribed (mode ctl : Nat) : Int :=
  if ctl = 0 then edgeStep mode else if ctl = 1 then -edgeStep mode else 0

/-- The four mode fields of a channel. -/
structure ChannelFields where
  pos : Field
  neg : Field
  hctrl : Field
  lctrl : Field

def channel0 : ChannelFields := ⟨pcntCh0PosMode, pcntCh0NegMode, pcntCh0HctrlMode, pcntCh0LctrlMode⟩
def channel1 : ChannelFields := ⟨pcntCh1PosMode, pcntCh1NegMode, pcntCh1HctrlMode, pcntCh1LctrlMode⟩

/-- What a channel counts for an edge to `sig` at the control level `ctl`. -/
def ChannelFields.increment (c : ChannelFields) (conf0 : BitVec 32) (sig ctl : Bool) : Int :=
  prescribed (rdfield conf0 (if sig then c.pos else c.neg))
    (rdfield conf0 (if ctl then c.hctrl else c.lctrl))

/-- The first channel's part of a sample. -/
def increment0 (conf0 : BitVec 32) (last lvl : PcntBus) : Int :=
  if lvl.sigCh0 ≠ last.sigCh0 then channel0.increment conf0 lvl.sigCh0 lvl.ctrlCh0 else 0

/-- The second channel's part. -/
def increment1 (conf0 : BitVec 32) (last lvl : PcntBus) : Int :=
  if lvl.sigCh1 ≠ last.sigCh1 then channel1.increment conf0 lvl.sigCh1 lvl.ctrlCh1 else 0

/-! ## §2 — what the comparators say -/

/-- The limit comparators of `docnt`, on the new count. -/
def atLimit (conf0 conf2 : BitVec 32) (nc : BitVec 16) : Prop :=
  rdfield conf0 pcntThrLLimEn ≠ 0 ∧ nc.sle (BitVec.ofNat 16 (rdfield conf2 pcntCntLLim)) = true
    ∨ rdfield conf0 pcntThrHLimEn ≠ 0 ∧ (BitVec.ofNat 16 (rdfield conf2 pcntCntHLim)).sle nc = true

instance (conf0 conf2 : BitVec 32) (nc : BitVec 16) : Decidable (atLimit conf0 conf2 nc) :=
  inferInstanceAs (Decidable (_ ∨ _))

/-- The count that is committed. -/
def afterLimit (conf0 conf2 : BitVec 32) (nc : BitVec 16) : BitVec 16 :=
  if atLimit conf0 conf2 nc then 0 else nc

/-- One of the comparators finds its value: a limit in the new count, a threshold or zero in the count
that is committed. -/
def compares (conf0 conf1 conf2 : BitVec 32) (nc : BitVec 16) : Prop :=
  atLimit conf0 conf2 nc
    ∨ rdfield conf0 pcntThrThres0En ≠ 0
      ∧ afterLimit conf0 conf2 nc = BitVec.ofNat 16 (rdfield conf1 pcntCntThres0)
    ∨ rdfield conf0 pcntThrThres1En ≠ 0
      ∧ afterLimit conf0 conf2 nc = BitVec.ofNat 16 (rdfield conf1 pcntCntThres1)
    ∨ afterLimit conf0 conf2 nc = 0 ∧ rdfield conf0 pcntThrZeroEn ≠ 0

instance (conf0 conf1 conf2 : BitVec 32) (nc : BitVec 16) :
    Decidable (compares conf0 conf1 conf2 nc) :=
  inferInstanceAs (Decidable (_ ∨ _))

/-- `docnt` counts: the unit is neither in reset nor paused. -/
def Counts (un : Nat) (ctrl : BitVec 32) : Prop :=
  ctrl &&& ((pcntPlusCntRstM ||| pcntCntPauseM) <<< (un * 2)) = 0

instance (un : Nat) (ctrl : BitVec 32) : Decidable (Counts un ctrl) :=
  inferInstanceAs (Decidable (_ = _))

namespace PcntUnit

/-- What an event should add to the counter: a sample that is taken adds both parts. -/
def increment (u : PcntUnit) : PcntEvent → Int
  | .sample =>
    if u.armed then
      increment0 u.conf0.cur u.lastlvl u.bus + increment1 u.conf0.cur u.lastlvl u.bus
    else 0
  | _ => 0

/-- The sum over a run. -/
def total (un : Nat) : PcntUnit → List PcntEvent → Int
  | _, [] => 0
  | u, e :: es => u.increment e + total un (u.step un e) es

theorem total_append (un : Nat) (u : PcntUnit) (es : List PcntEvent) (e : PcntEvent) :
    total un u (es ++ [e]) = total un u es + (es.foldl (step un) u).increment e := by
  induction es generalizing u with
  | nil =>
    show u.increment e + 0 = 0 + u.increment e
    rw [Int.add_zero, Int.zero_add]
  | cons a es ih =>
    show u.increment a + total un (u.step un a) (es ++ [e]) =
      u.increment a + total un (u.step un a) es + _
    rw [ih, Int.add_assoc]
    rfl

/-- **The counter is right**: once `count` has run and the signal has been updated, it is the initial
value plus the sum, modulo 2^16. -/
def CountsEdges (un : Nat) (u : PcntUnit) (es : List PcntEvent) (s : PcntUnit) : Prop :=
  (((s.step un .count).commit s.bus).cnt).cur = u.cnt.cur + BitVec.ofInt 16 (total un u es)

/-! ## §3 — the configuration -/

/-- The filter and the limits are off. -/
def PlainConf (conf0 : BitVec 32) : Prop :=
  rdfield conf0 pcntFilterEn = 0 ∧ rdfield conf0 pcntThrLLimEn = 0 ∧ rdfield conf0 pcntThrHLimEn = 0

instance (conf0 : BitVec 32) : Decidable (PlainConf conf0) := inferInstanceAs (Decidable (_ ∧ _))

/-- The unit is neither in reset nor paused. -/
def Running (un : Nat) (ctrl : BitVec 32) : Prop :=
  inReset ctrl un = false ∧ ctrl &&& ((pcntPlusCntRstM ||| pcntCntPauseM) <<< (un * 2)) = 0

instance (un : Nat) (ctrl : BitVec 32) : Decidable (Running un ctrl) :=
  inferInstanceAs (Decidable (_ ∧ _))

/-- The events of a run in which the configuration stays so. -/
def Admissible (un : Nat) : PcntEvent → Prop
  | .updateth conf0 _ _ ctrl => PlainConf conf0 ∧ Running un ctrl
  | _ => True

instance (un : Nat) (e : PcntEvent) : Decidable (Admissible un e) := by
  unfold Admissible
  split <;> infer_instance

/-- The state such a run begins in: nothing is pending. -/
structure Idle (un : Nat) (u : PcntUnit) : Prop where
  plain : PlainConf u.conf0.cur ∧ PlainConf u.conf0.next
  running : Running un u.ctrl.cur ∧ Running un u.ctrl.next
  filtered : u.filtered0 = .quiet ∧ u.filtered1 = .quiet
  fctrl : u.fctrl0 ≤ u.now ∧ u.fctrl1 ≤ u.now
  cnt : u.cnt.Quiet
  reset : u.reset = false
  counting : u.counting = false

/-- After the start of simulation nothing is. -/
theorem idle_new (un apbPeriod : Nat) : Idle un (new apbPeriod) where
  plain := by
    have hplain : PlainConf 0 := by decide
    exact ⟨hplain, hplain⟩
  running := by
    have hrun : Running un 0 := by
      unfold Running inReset
      simp
    exact ⟨hrun, hrun⟩
  filtered := ⟨rfl, rfl⟩
  fctrl := ⟨Nat.le_refl 0, Nat.le_refl 0⟩
  cnt := rfl
  reset := rfl
  counting := rfl

/-- When both signals of a sample change, the second channel's part is zero. -/
def SecondSilent (u : PcntUnit) : PcntEvent → Prop
  | .sample => u.armed = true → u.bus.sigCh0 ≠ u.lastlvl.sigCh0 → u.bus.sigCh1 ≠ u.lastlvl.sigCh1 →
      increment1 u.conf0.cur u.lastlvl u.bus = 0
  | _ => True

instance (u : PcntUnit) (e : PcntEvent) : Decidable (SecondSilent u e) := by
  unfold SecondSilent
  split <;> infer_instance

/-! ## §4 — the two threads -/

/-- The nested cases of `docnt` add what is prescribed. -/
theorem newCount_eq (cnt : BitVec 16) (mode ctl : Nat) :
    newCount cnt mode ctl = cnt + BitVec.ofInt 16 (prescribed mode ctl) := by
  have hminus : cnt - 1 = cnt + BitVec.ofInt 16 (-1) := by
    rw [BitVec.sub_eq_add_neg]
    rfl
  have hzero : cnt = cnt + BitVec.ofInt 16 0 := (BitVec.add_zero cnt).symm
  unfold newCount prescribed edgeStep
  by_cases hc0 : ctl = 0
  · subst hc0
    by_cases hm1 : mode = 1
    · simp [hm1]
    · by_cases hm2 : mode = 2
      · simpa [hm2] using hminus
      · simp [hm1, hm2]
  · by_cases hc1 : ctl = 1
    · subst hc1
      by_cases hm1 : mode = 1
      · simpa [hm1] using hminus
      · by_cases hm2 : mode = 2
        · simp [hm2]
        · simp [hm1, hm2]
    · simp [hc0, hc1]

/-- The mode fields that `docnt` reads, one branch for each channel, edge and control level. -/
theorem newCount_nested (cnt : BitVec 16) (conf0 : BitVec 32) (sig ctl : Bool) (ch : Nat) :
    (if ctl then newCount cnt
      (if ch = 0 then (if sig then rdfield conf0 pcntCh0PosMode else rdfield conf0 pcntCh0NegMode)
      else (if sig then rdfield conf0 pcntCh1PosMode else rdfield conf0 pcntCh1NegMode))
      (if ch = 0 then rdfield conf0 pcntCh0HctrlMode else rdfield conf0 pcntCh1HctrlMode)
    else newCount cnt
      (if ch = 0 then (if sig then rdfield conf0 pcntCh0PosMode else rdfield conf0 pcntCh0NegMode)
      else (if sig then rdfield conf0 pcntCh1PosMode else rdfield conf0 pcntCh1NegMode))
      (if ch = 0 then rdfield conf0 pcntCh0LctrlMode else rdfield conf0 pcntCh1LctrlMode)) =
      cnt + BitVec.ofInt 16 ((if ch = 0 then channel0 else channel1).increment conf0 sig ctl) := by
  unfold ChannelFields.increment
  rw [← newCount_eq]
  by_cases hch : ch = 0 <;> cases sig <;> cases ctl <;> simp [hch, channel0, channel1]

/-- **`docnt` of a unit that counts**: what the edge prescribes is added, a limit starts again at zero,
and a comparator that finds its value raises the interrupt. -/
theorem docnt_counts {un : Nat} {u : PcntUnit} (hgo : Counts un u.ctrl.cur) (sig ctl : Bool) (ch : Nat)
    {nc : BitVec 16}
    (hnc : u.cnt.cur + BitVec.ofInt 16
      ((if ch = 0 then channel0 else channel1).increment u.conf0.cur sig ctl) = nc) :
    docnt un sig ctl ch u =
      { u with
        intRaw := if compares u.conf0.cur u.conf1.cur u.conf2.cur nc then u.intRaw.write true
          else u.intRaw
        cnt := u.cnt.write (afterLimit u.conf0.cur u.conf2.cur nc) } := by
  have hstop : ¬ u.ctrl.cur &&& ((pcntPlusCntRstM ||| pcntCntPauseM) <<< (un * 2)) ≠ 0 :=
    not_not.mpr hgo
  have hnested := (newCount_nested u.cnt.cur u.conf0.cur sig ctl ch).trans hnc
  unfold docnt
  rw [if_neg hstop]
  dsimp only
  rw [hnested]
  rfl

theorem docnt_stopped {un : Nat} {u : PcntUnit} (hstop : ¬ Counts un u.ctrl.cur) (sig ctl : Bool)
    (ch : Nat) : docnt un sig ctl ch u = u :=
  if_pos hstop

/-- What a turn of `count` counts: the channel whose event it serves, the first if both have happened,
at the bus level of the moment, with the control level inverted while its filter time is to come. -/
def pulse (u : PcntUnit) : Int :=
  if u.filtered0.triggered then
    channel0.increment u.conf0.cur u.bus.sigCh0
      (if u.now < u.fctrl0 then !u.bus.ctrlCh0 else u.bus.ctrlCh0)
  else
    channel1.increment u.conf0.cur u.bus.sigCh1
      (if u.now < u.fctrl1 then !u.bus.ctrlCh1 else u.bus.ctrlCh1)

/-- The new count in 16 bits, before the limits are looked at. -/
def unreset (u : PcntUnit) : BitVec 16 := u.cnt.cur + BitVec.ofInt 16 u.pulse

/-- **A turn of `count`** that was woken by signals, of a unit that counts. -/
theorem count_counts {un : Nat} {u : PcntUnit} (hreset : u.reset = false)
    (hgo : Counts un u.ctrl.cur) :
    count un u =
      { u with
        counting := false
        intRaw := if compares u.conf0.cur u.conf1.cur u.conf2.cur u.unreset then u.intRaw.write true
          else u.intRaw
        cnt := u.cnt.write (afterLimit u.conf0.cur u.conf2.cur u.unreset) } := by
  have hno : ¬ u.reset = true := by
    rw [hreset]
    exact Bool.false_ne_true
  unfold count
  dsimp only
  rw [if_neg hno]
  by_cases htrig : u.filtered0.triggered = true
  · have hpulse : u.unreset = u.cnt.cur + BitVec.ofInt 16 (channel0.increment u.conf0.cur
        u.bus.sigCh0 (if u.now < u.fctrl0 then !u.bus.ctrlCh0 else u.bus.ctrlCh0)) := by
      rw [unreset, pulse, if_pos htrig]
    rw [if_pos htrig, docnt_counts (u := { u with counting := false }) hgo _ _ 0 hpulse.symm]
  · have hpulse : u.unreset = u.cnt.cur + BitVec.ofInt 16 (channel1.increment u.conf0.cur
        u.bus.sigCh1 (if u.now < u.fctrl1 then !u.bus.ctrlCh1 else u.bus.ctrlCh1)) := by
      rw [unreset, pulse, if_neg htrig]
    rw [if_neg htrig, docnt_counts (u := { u with counting := false }) hgo _ _ 1 hpulse.symm]

/-- With the limits off, nothing starts again. -/
theorem afterLimit_plain {conf0 : BitVec 32} (hplain : PlainConf conf0) (conf2 : BitVec 32)
    (nc : BitVec 16) : afterLimit conf0 conf2 nc = nc := by
  refine if_neg ?_
  rintro (⟨hlow, _⟩ | ⟨hhigh, _⟩)
  · exact hlow hplain.2.1
  · exact hhigh hplain.2.2

/-- The same with the limits and the filter off: the levels are those of the bus. -/
theorem count_eq (un : Nat) {u : PcntUnit} (hplain : PlainConf u.conf0.cur)
    (hrun : Running un u.ctrl.cur) (hreset : u.reset = false)
    (hf : u.fctrl0 ≤ u.now ∧ u.fctrl1 ≤ u.now) :
    ∃ r, count un u =
      { u with
        counting := false
        intRaw := r
        cnt := u.cnt.write (u.cnt.cur + BitVec.ofInt 16
          (if u.filtered0.triggered then channel0.increment u.conf0.cur u.bus.sigCh0 u.bus.ctrlCh0
          else channel1.increment u.conf0.cur u.bus.sigCh1 u.bus.ctrlCh1)) } := by
  have hpulse : u.pulse =
      if u.filtered0.triggered then channel0.increment u.conf0.cur u.bus.sigCh0 u.bus.ctrlCh0
      else channel1.increment u.conf0.cur u.bus.sigCh1 u.bus.ctrlCh1 := by
    rw [pulse, if_neg (Nat.not_lt.mpr hf.1), if_neg (Nat.not_lt.mpr hf.2)]
  rw [count_counts hreset hrun.2, afterLimit_plain hplain, unreset, hpulse]
  exact ⟨_, rfl⟩

theorem filterThres_off {u : PcntUnit} (h : PlainConf u.conf0.cur) : u.filterThres = 0 := by
  unfold filterThres
  rw [h.1]
  rfl

/-- The control part of a sample, with the filter off: no time of a control level is in the future. -/
theorem captureCtrl_eq {u : PcntUnit} (hplain : PlainConf u.conf0.cur) (lvl : PcntBus)
    (hf : u.fctrl0 ≤ u.now ∧ u.fctrl1 ≤ u.now) :
    ∃ f₀ f₁, captureCtrl lvl u = { u with fctrl0 := f₀, fctrl1 := f₁ } ∧ f₀ ≤ u.now ∧ f₁ ≤ u.now := by
  have hafter : ∀ v : PcntUnit, v.conf0 = u.conf0 → v.fctrlAfter = v.now := by
    intro v hv
    unfold fctrlAfter
    rw [filterThres_off (hv ▸ hplain)]
    rfl
  unfold captureCtrl
  dsimp only
  have hnow := Nat.le_refl u.now
  split
  · split <;> split
    · split
      · exact ⟨0, u.fctrl1, rfl, Nat.zero_le _, hf.2⟩
      · exact ⟨0, _, rfl, Nat.zero_le _, Nat.le_of_eq (hafter { u with fctrl0 := 0 } rfl)⟩
    · exact ⟨0, u.fctrl1, rfl, Nat.zero_le _, hf.2⟩
    · split
      · exact ⟨0, u.fctrl1, rfl, Nat.zero_le _, hf.2⟩
      · exact ⟨_, _, rfl, Nat.le_of_eq (hafter u rfl),
          Nat.le_of_eq (hafter { u with fctrl0 := u.fctrlAfter } rfl)⟩
    · exact ⟨_, u.fctrl1, rfl, Nat.le_of_eq (hafter u rfl), hf.2⟩
  · split
    · split
      · exact ⟨0, u.fctrl1, rfl, Nat.zero_le _, hf.2⟩
      · exact ⟨u.fctrl0, _, rfl, hf.1, Nat.le_of_eq (hafter u rfl)⟩
    · exact ⟨u.fctrl0, u.fctrl1, rfl, hf⟩

/-- The event of a channel after a sample in which its signal has changed or not. -/
def notified (changed : Bool) (e : ScEvent) : ScEvent := if changed then e.notify else e

/-- A sample, with the filter off. -/
theorem capture_eq {un : Nat} {u : PcntUnit} (hplain : PlainConf u.conf0.cur)
    (hrun : Running un u.ctrl.cur) (hf : u.fctrl0 ≤ u.now ∧ u.fctrl1 ≤ u.now) :
    ∃ f₀ f₁, capture un u =
      { u with
        fctrl0 := f₀
        fctrl1 := f₁
        filtered0 := notified (u.bus.sigCh0 != u.lastlvl.sigCh0) u.filtered0
        filtered1 := notified (u.bus.sigCh1 != u.lastlvl.sigCh1) u.filtered1
        counting := u.counting || (u.bus.sigCh0 != u.lastlvl.sigCh0)
          || (u.bus.sigCh1 != u.lastlvl.sigCh1)
        lastlvl := u.bus
        armed := false } ∧ f₀ ≤ u.now ∧ f₁ ≤ u.now := by
  obtain ⟨f₀, f₁, hctrl, hf₀, hf₁⟩ := captureCtrl_eq hplain u.bus hf
  refine ⟨f₀, f₁, ?_, hf₀, hf₁⟩
  have hoff : ∀ v : PcntUnit, v.conf0 = u.conf0 → v.filterThres = 0 :=
    fun v hv => filterThres_off (hv ▸ hplain)
  show ({ captureSig un u.bus (captureCtrl u.bus u) with lastlvl := u.bus, armed := false } :
    PcntUnit) = _
  rw [hctrl]
  unfold captureSig
  dsimp only
  rw [hrun.1, if_neg Bool.false_ne_true]
  by_cases h₀ : u.bus.sigCh0 = u.lastlvl.sigCh0 <;> by_cases h₁ : u.bus.sigCh1 = u.lastlvl.sigCh1 <;>
    simp [h₀, h₁, notify0, notify1, hoff, notified]

/-- **A sample and the turn of `count` after it**: the first channel's part is counted, the second's
only when the first has none. -/
theorem sample_counts {un : Nat} {u : PcntUnit} (hplain : PlainConf u.conf0.cur)
    (hrun : Running un u.ctrl.cur) (hf : u.fctrl0 ≤ u.now ∧ u.fctrl1 ≤ u.now)
    (hreset : u.reset = false) (hidle : u.counting = false) (hquiet : u.cnt.Quiet)
    (htrig : u.filtered0.triggered = false) :
    (((u.capture un).step un .count).cnt).next = u.cnt.cur +
      BitVec.ofInt 16 (increment0 u.conf0.cur u.lastlvl u.bus +
        if u.bus.sigCh0 ≠ u.lastlvl.sigCh0 then 0 else increment1 u.conf0.cur u.lastlvl u.bus) := by
  obtain ⟨f₀, f₁, heq, hf₀, hf₁⟩ := capture_eq hplain hrun hf
  show (if (u.capture un).counting then (u.capture un).count un else u.capture un).cnt.next = _
  by_cases h₀ : u.bus.sigCh0 = u.lastlvl.sigCh0
  · by_cases h₁ : u.bus.sigCh1 = u.lastlvl.sigCh1
    · -- nothing has changed and `count` sleeps on
      have hsleep : (u.capture un).counting = false := by
        rw [heq]
        simp [hidle, h₀, h₁]
      have hcnt : (u.capture un).cnt.next = u.cnt.cur := by
        rw [heq]
        exact hquiet
      rw [hsleep, if_neg Bool.false_ne_true, hcnt, increment0, increment1]
      simp [h₀, h₁]
    · have hwoken : (u.capture un).counting = true := by
        rw [heq]
        simp [h₁]
      obtain ⟨r, hcount⟩ := count_eq un (u := u.capture un) (by rw [heq]; exact hplain)
        (by rw [heq]; exact hrun) (by rw [heq]; exact hreset) (by rw [heq]; exact ⟨hf₀, hf₁⟩)
      rw [hwoken, if_pos rfl, hcount, heq]
      simp [notified, h₀, h₁, htrig, increment0, increment1]
  · have hwoken : (u.capture un).counting = true := by
      rw [heq]
      simp [h₀]
    obtain ⟨r, hcount⟩ := count_eq un (u := u.capture un) (by rw [heq]; exact hplain)
      (by rw [heq]; exact hrun) (by rw [heq]; exact hreset) (by rw [heq]; exact ⟨hf₀, hf₁⟩)
    rw [hwoken, if_pos rfl, hcount, heq]
    simp [notified, h₀, ScEvent.notify, increment0]

/-! ## §5 — the invariant -/

/-- What holds along such a run: the configuration stays plain, no notification is timed, no control
level waits for its time, a unit that is about to sample has nothing left to count, and the counter is
the sum so far. -/
structure Tracked (un : Nat) (u₀ : PcntUnit) (es : List PcntEvent) (u : PcntUnit) : Prop where
  replay : u = es.foldl (step un) u₀
  plain : PlainConf u.conf0.cur ∧ PlainConf u.conf0.next
  running : Running un u.ctrl.cur ∧ Running un u.ctrl.next
  untimed : u.filtered0.due = none ∧ u.filtered1.due = none
  fctrl : u.fctrl0 ≤ u.now ∧ u.fctrl1 ≤ u.now
  reset : u.reset = false
  ready : u.armed = true →
    u.counting = false ∧ u.cnt.Quiet ∧ u.filtered0.triggered = false
  counts : ((u.step un .count).cnt).next = u₀.cnt.cur + BitVec.ofInt 16 (total un u₀ es)

theorem Tracked.countsEdges {un : Nat} {u₀ u : PcntUnit} {es : List PcntEvent}
    (h : Tracked un u₀ es u) : CountsEdges un u₀ es u := h.counts

theorem tracked_idle {un : Nat} {u : PcntUnit} (h : Idle un u) : Tracked un u [] u where
  replay := rfl
  plain := h.plain
  running := h.running
  untimed := by
    rw [h.filtered.1, h.filtered.2]
    exact ⟨rfl, rfl⟩
  fctrl := h.fctrl
  reset := h.reset
  ready _ := ⟨h.counting, h.cnt, by rw [h.filtered.1]; rfl⟩
  counts := by
    show (if u.counting then u.count un else u).cnt.next = u.cnt.cur + BitVec.ofInt 16 0
    rw [h.counting, if_neg Bool.false_ne_true, h.cnt]
    exact (BitVec.add_zero _).symm

/-- The sum grows by what the event adds. -/
theorem Tracked.total_snoc {un : Nat} {u₀ u : PcntUnit} {es : List PcntEvent}
    (h : Tracked un u₀ es u) (e : PcntEvent) :
    u₀.cnt.cur + BitVec.ofInt 16 (total un u₀ (es ++ [e])) =
      ((u.step un .count).cnt).next + BitVec.ofInt 16 (u.increment e) := by
  rw [total_append, ← h.replay, BitVec.ofInt_add, h.counts, BitVec.add_assoc]

/-- A channel counts one up, one down or not at all. -/
theorem increment1_cases (conf0 : BitVec 32) (last lvl : PcntBus) :
    increment1 conf0 last lvl = 0 ∨ increment1 conf0 last lvl = 1 ∨
      increment1 conf0 last lvl = -1 := by
  unfold increment1 ChannelFields.increment prescribed edgeStep
  repeat' split
  all_goals simp

/-- The counter after a sample that is taken, against the sum after it. -/
theorem Tracked.sample {un : Nat} {u₀ u : PcntUnit} {es : List PcntEvent} (h : Tracked un u₀ es u)
    (harmed : u.armed = true) :
    CountsEdges un u₀ (es ++ [PcntEvent.sample]) (u.step un .sample) ↔ SecondSilent u .sample := by
  obtain ⟨hidle, hquiet, htrig⟩ := h.ready harmed
  have hcount := sample_counts h.plain.1 h.running.1 h.fctrl h.reset hidle hquiet htrig
  have hbefore : ((u.step un .count).cnt).next = u.cnt.cur := by
    show (if u.counting then u.count un else u).cnt.next = u.cnt.cur
    rw [hidle, if_neg Bool.false_ne_true]
    exact hquiet
  have hstep : u.step un .sample = u.capture un := if_pos harmed
  show (((u.step un .sample).step un .count).cnt).next = _ ↔ _
  rw [h.total_snoc, hbefore, hstep, hcount]
  unfold PcntUnit.increment SecondSilent
  rw [if_pos harmed]
  by_cases h₀ : u.bus.sigCh0 = u.lastlvl.sigCh0
  · simp [h₀]
  · by_cases h₁ : u.bus.sigCh1 = u.lastlvl.sigCh1
    · simp [h₀, h₁, increment1]
    · simp only [ne_eq, h₀, h₁, not_false_eq_true, if_true, harmed, true_implies, Int.add_zero]
      rw [BitVec.ofInt_add, ← BitVec.add_assoc]
      constructor
      · intro hsum
        have hzero : BitVec.ofInt 16 (increment1 u.conf0.cur u.lastlvl u.bus) = 0 :=
          BitVec.self_eq_add_right.mp hsum
        -- a part is at most one in size, so it vanishes modulo 2^16 only when it is zero
        rcases increment1_cases u.conf0.cur u.lastlvl u.bus with h | h | h
        · exact h
        · rw [h] at hzero
          exact absurd hzero (by decide)
        · rw [h] at hzero
          exact absurd hzero (by decide)
      · intro hzero
        rw [hzero]
        exact (BitVec.add_zero _).symm

/-- An event that does nothing and adds nothing. -/
theorem Tracked.nothing {un : Nat} {u₀ u : PcntUnit} {es : List PcntEvent} (h : Tracked un u₀ es u)
    {e : PcntEvent} (hstep : u.step un e = u) (hinc : u.increment e = 0) :
    Tracked un u₀ (es ++ [e]) (u.step un e) := by
  rw [hstep]
  refine ⟨?_, h.plain, h.running, h.untimed, h.fctrl, h.reset, h.ready, ?_⟩
  · rw [List.foldl_append, ← h.replay]
    exact hstep.symm
  · rw [h.total_snoc, hinc]
    exact (BitVec.add_zero _).symm

/-- The replay of one more event. -/
theorem Tracked.replay_snoc {un : Nat} {u₀ u : PcntUnit} {es : List PcntEvent}
    (h : Tracked un u₀ es u) (e : PcntEvent) :
    u.step un e = (es ++ [e]).foldl (step un) u₀ := by
  rw [List.foldl_append, ← h.replay]
  rfl

/-- The counter after an event that adds nothing and leaves the pending count as it was. -/
theorem Tracked.counts_same {un : Nat} {u₀ u : PcntUnit} {es : List PcntEvent}
    (h : Tracked un u₀ es u) {e : PcntEvent} (hinc : u.increment e = 0)
    (hsame : (((u.step un e).step un .count).cnt).next = ((u.step un .count).cnt).next) :
    (((u.step un e).step un .count).cnt).next =
      u₀.cnt.cur + BitVec.ofInt 16 (total un u₀ (es ++ [e])) := by
  rw [h.total_snoc, hinc, hsame]
  exact (BitVec.add_zero _).symm

theorem due_notified {changed : Bool} {e : ScEvent} (h : e.due = none) :
    (notified changed e).due = none := by
  unfold notified
  split
  · rfl
  · exact h

/-- The end of a delta cycle, and then of any time, with nothing left to count. -/
theorem step_committed (un : Nat) {u : PcntUnit} (hidle : u.counting = false) (lvl : PcntBus) :
    ((u.step un .count).cnt).next = u.cnt.next ∧ ((u.commit lvl).step un .count) = u.commit lvl := by
  constructor
  · show (if u.counting then u.count un else u).cnt.next = u.cnt.next
    rw [hidle, if_neg Bool.false_ne_true]
  · show (if u.counting then (u.commit lvl).count un else u.commit lvl) = u.commit lvl
    rw [hidle, if_neg Bool.false_ne_true]

/-- Time that passes with no timed notification changes the time and nothing else. -/
theorem advance_eq {u : PcntUnit} (h : u.filtered0.due = none ∧ u.filtered1.due = none) (d : Nat) :
    u.advance d = { u with now := u.now + d, counting := false } := by
  unfold advance ScEvent.fire
  rw [h.1, h.2]
  simp

/-- A sample, taken or not: the counts are what `Tracked.sample` says, the rest is untouched. -/
theorem Tracked.stepSample {un : Nat} {u₀ u : PcntUnit} {es : List PcntEvent} (h : Tracked un u₀ es u)
    (hok : SecondSilent u .sample) : Tracked un u₀ (es ++ [PcntEvent.sample]) (u.step un .sample) := by
  by_cases harmed : u.armed = true
  · obtain ⟨f₀, f₁, heq, hf₀, hf₁⟩ := capture_eq h.plain.1 h.running.1 h.fctrl
    have hstep : u.step un .sample = u.capture un := if_pos harmed
    have hcounts := (h.sample harmed).mpr hok
    refine ⟨h.replay_snoc _, ?_, ?_, ?_, ?_, ?_, ?_, hcounts⟩ <;> rw [hstep, heq]
    · exact h.plain
    · exact h.running
    · exact ⟨due_notified h.untimed.1, due_notified h.untimed.2⟩
    · exact ⟨hf₀, hf₁⟩
    · exact h.reset
    · intro hno
      cases hno
  · apply h.nothing
    · exact if_neg harmed
    · exact if_neg harmed

/-- `count` writes down what is pending, so that counting once more adds nothing. -/
theorem Tracked.stepCount {un : Nat} {u₀ u : PcntUnit} {es : List PcntEvent}
    (h : Tracked un u₀ es u) : Tracked un u₀ (es ++ [PcntEvent.count]) (u.step un .count) := by
  by_cases hwoken : u.counting = true
  · obtain ⟨r, heq⟩ := count_eq un h.plain.1 h.running.1 h.reset h.fctrl
    have hstep : u.step un .count = u.count un := if_pos hwoken
    have hcounts : ((u.step un .count).step un .count).cnt.next = ((u.step un .count).cnt).next := by
      rw [hstep]
      show (if (u.count un).counting then (u.count un).count un else u.count un).cnt.next = _
      rw [heq]
      rfl
    have hsum := h.counts_same (e := .count) rfl hcounts
    refine ⟨h.replay_snoc _, ?_, ?_, ?_, ?_, ?_, ?_, hsum⟩ <;> rw [hstep, heq]
    · exact h.plain
    · exact h.running
    · exact h.untimed
    · exact h.fctrl
    · exact h.reset
    · intro harmed
      have hno := (h.ready harmed).1
      rw [hwoken] at hno
      cases hno
  · apply h.nothing
    · exact if_neg hwoken
    · rfl

/-- What `updateth` writes is not seen before the delta cycle ends. -/
theorem Tracked.stepUpdateth {un : Nat} {u₀ u : PcntUnit} {es : List PcntEvent}
    (h : Tracked un u₀ es u) {conf0 conf1 conf2 ctrl : BitVec 32}
    (ha : Admissible un (.updateth conf0 conf1 conf2 ctrl)) :
    Tracked un u₀ (es ++ [PcntEvent.updateth conf0 conf1 conf2 ctrl])
      (u.step un (.updateth conf0 conf1 conf2 ctrl)) := by
  obtain ⟨hconf, hrun⟩ := ha
  have heq : u.step un (.updateth conf0 conf1 conf2 ctrl) =
      { u with
        conf0 := u.conf0.write conf0
        conf1 := u.conf1.write conf1
        conf2 := u.conf2.write conf2
        ctrl := u.ctrl.write ctrl } := by
    show u.updateth un conf0 conf1 conf2 ctrl = _
    unfold updateth
    rw [hrun.1, Bool.or_false, Bool.or_false]
  have hcounts : ((u.step un (.updateth conf0 conf1 conf2 ctrl)).step un .count).cnt.next =
      ((u.step un .count).cnt).next := by
    rw [heq]
    show (if u.counting then _ else _ : PcntUnit).cnt.next =
      (if u.counting then u.count un else u).cnt.next
    split
    · -- `count` reads the registers as they were when the delta cycle began
      obtain ⟨r, hcount⟩ := count_eq un h.plain.1 h.running.1 h.reset h.fctrl
      obtain ⟨r', hcount'⟩ := count_eq un
        (u := { u with
          conf0 := u.conf0.write conf0
          conf1 := u.conf1.write conf1
          conf2 := u.conf2.write conf2
          ctrl := u.ctrl.write ctrl }) h.plain.1 h.running.1 h.reset h.fctrl
      rw [hcount, hcount']
      rfl
    · rfl
  have hsum := h.counts_same (e := .updateth conf0 conf1 conf2 ctrl) rfl hcounts
  refine ⟨h.replay_snoc _, ?_, ?_, ?_, ?_, ?_, ?_, hsum⟩ <;> rw [heq]
  · exact ⟨h.plain.1, hconf⟩
  · exact ⟨h.running.1, hrun⟩
  · exact h.untimed
  · exact h.fctrl
  · exact h.reset
  · exact h.ready

/-- The end of a delta cycle arms the unit with everything counted. -/
theorem Tracked.stepDelta {un : Nat} {u₀ u : PcntUnit} {es : List PcntEvent}
    (h : Tracked un u₀ es u) (lvl : PcntBus) :
    Tracked un u₀ (es ++ [PcntEvent.delta lvl]) (u.step un (.delta lvl)) := by
  by_cases hwoken : u.counting = true
  · apply h.nothing
    · exact if_pos hwoken
    · rfl
  · have hidle : u.counting = false := Bool.eq_false_iff.mpr hwoken
    obtain ⟨hbefore, hafter⟩ := step_committed un hidle lvl
    have hstep : u.step un (.delta lvl) = u.commit lvl := if_neg hwoken
    have hcounts : ((u.step un (.delta lvl)).step un .count).cnt.next =
        ((u.step un .count).cnt).next := by
      rw [hstep, hafter, hbefore]
      rfl
    have hsum := h.counts_same (e := .delta lvl) rfl hcounts
    refine ⟨h.replay_snoc _, ?_, ?_, ?_, ?_, ?_, ?_, hsum⟩ <;> rw [hstep]
    · exact ⟨h.plain.2, h.plain.2⟩
    · exact ⟨h.running.2, h.running.2⟩
    · exact h.untimed
    · exact h.fctrl
    · rfl
    · exact fun _ => ⟨hidle, Signal.quiet_update _, rfl⟩

/-- Time that passes fires nothing. -/
theorem Tracked.stepAdvance {un : Nat} {u₀ u : PcntUnit} {es : List PcntEvent}
    (h : Tracked un u₀ es u) (d : Nat) :
    Tracked un u₀ (es ++ [PcntEvent.advance d]) (u.step un (.advance d)) := by
  by_cases hwoken : u.counting = true
  · apply h.nothing
    · exact if_pos hwoken
    · rfl
  · have hidle : u.counting = false := Bool.eq_false_iff.mpr hwoken
    obtain ⟨hbefore, hafter⟩ := step_committed un hidle u.bus
    have hstep : u.step un (.advance d) =
        { u.commit u.bus with now := u.now + d, counting := false } := by
      show (if u.counting then u else (u.commit u.bus).advance d) = _
      rw [if_neg hwoken]
      exact advance_eq (u := u.commit u.bus) h.untimed d
    have hcounts : ((u.step un (.advance d)).step un .count).cnt.next =
        ((u.step un .count).cnt).next := by
      rw [hstep, hbefore]
      rfl
    have hsum := h.counts_same (e := .advance d) rfl hcounts
    refine ⟨h.replay_snoc _, ?_, ?_, ?_, ?_, ?_, ?_, hsum⟩ <;> rw [hstep]
    · exact ⟨h.plain.2, h.plain.2⟩
    · exact ⟨h.running.2, h.running.2⟩
    · exact h.untimed
    · exact ⟨Nat.le_add_right_of_le h.fctrl.1, Nat.le_add_right_of_le h.fctrl.2⟩
    · rfl
    · exact fun _ => ⟨rfl, Signal.quiet_update _, rfl⟩

/-- **One step** of an admissible run, when both parts of a sample are counted. -/
theorem Tracked.step {un : Nat} {u₀ u : PcntUnit} {es : List PcntEvent} (h : Tracked un u₀ es u)
    {e : PcntEvent} (ha : Admissible un e) (hok : SecondSilent u e) :
    Tracked un u₀ (es ++ [e]) (u.step un e) := by
  cases e with
  | sample => exact h.stepSample hok
  | count => exact h.stepCount
  | updateth conf0 conf1 conf2 ctrl => exact h.stepUpdateth ha
  | delta lvl => exact h.stepDelta lvl
  | advance d => exact h.stepAdvance d

/-! ## §6 — runs -/

/-- **Edge counting.** From any state with nothing pending, in every run in which the filter and the
limits stay off and the unit is neither paused nor reset, the counter is at every point the initial
value plus the prescribed sum over all sampled changes of both channels, if and only if in every
sample in which both signals change the second channel's part is zero. -/
theorem edges_counted {un : Nat} {u : PcntUnit} (hidle : Idle un u) (es : List PcntEvent)
    (hadm : ∀ e ∈ es, Admissible un e) :
    Always (CountsEdges un u) (PcntUnit.step un) [] u es ↔
      Throughout SecondSilent (PcntUnit.step un) u es := by
  have hrun : Throughout (fun _ e => Admissible un e) (PcntUnit.step un) u es :=
    (throughout_forall es u).mpr hadm
  refine always_iff_throughout (I := Tracked un u) ?_ ?_ ?_ es [] u ?_ hrun
  · intro _ s h
    exact h.countsEdges
  · intro _ s e h ha hok
    exact h.step ha hok
  · intro _ s e h _ hbad
    cases e with
    | sample =>
      have harmed : s.armed = true := by
        by_contra hno
        exact hbad fun harmed => absurd harmed hno
      rw [h.sample harmed]
      exact hbad
    | count => exact absurd trivial hbad
    | updateth conf0 conf1 conf2 ctrl => exact absurd trivial hbad
    | delta lvl => exact absurd trivial hbad
    | advance d => exact absurd trivial hbad
  · exact tracked_idle hidle

/-- Both channels count rising edges up; the second one's signal changes after the first one's. -/
theorem edges_counted_apart :
    Always (CountsEdges 0 (new 12)) (PcntUnit.step 0) [] (new 12)
      [.updateth 0x04040000 0 0 0, .delta ⟨true, false, false, false⟩, .advance 12, .sample, .count,
        .delta ⟨true, true, false, false⟩, .advance 12, .sample, .count] :=
  (edges_counted (idle_new 0 12) _ (by decide)).mpr (by decide)

/-- Both signals rise in one sample and the counter goes up by one only. -/
theorem edges_counted_together :
    ¬ Always (CountsEdges 0 (new 12)) (PcntUnit.step 0) [] (new 12)
      [.updateth 0x04040000 0 0 0, .delta ⟨true, true, false, false⟩, .advance 12, .sample] := by
  intro h
  have hlast := h.last
  revert hlast
  unfold CountsEdges
  decide

end PcntUnit

end Espmod.Pcnt
