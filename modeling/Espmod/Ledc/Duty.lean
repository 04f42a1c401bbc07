/-
# Espmod.Ledc.Duty — the pulse of a channel

While no register changes, a channel only follows the counter of its timer. At each zero of the counter
it computes its pulse anew: its length is the duty without the four fraction bits, and one more in as many
of sixteen cycles as the fraction says. So sixteen periods in a row are high for exactly the duty
(`duty_exact`).

With `duty_start` set each zero also counts a cycle of a fade and notifies the duty-end event, whether the
fade has come to its end or not (`never_fades`).
-/
import Espmod.Lib.Periods
import Espmod.Ledc.Groups

namespace Espmod.Ledc

open Espmod.Lib
open Espmod.Pcnt (Field rdfield)

/-! ## §1 — a channel and its counter -/

/-- The thread of a channel, from one delta cycle of a history to the next, with the last inputs. -/
def follow (ls : Bool) : Inputs → Chan → List Inputs → Inputs × Chan
  | prev, c, [] => (prev, c)
  | prev, c, cur :: rest => follow ls cur (channel ls (look ls prev cur) c) rest

/-- The channel after so many ticks. -/
def chanAt (ls : Bool) (c : Chan) (ticks : Nat → Inputs) : Nat → Chan
  | 0 => c
  | t + 1 => channel ls (look ls (ticks t) (ticks (t + 1))) (chanAt ls c ticks t)

/-- The timer that a channel selects. -/
def selected (ls : Bool) (conf0 : BitVec 32) : Nat :=
  rdfield conf0 (fields ls).timerSel + if ls then LEDC_TIMERS / 2 else 0

/-- The counter of that timer. -/
def Inputs.selectedCnt (ls : Bool) (i : Inputs) : BitVec 32 := i.counter ls (selected ls i.conf0)

/-- No register changes, and the counter cycles from 0 to `m - 1`, one value a tick. -/
structure Cycles (ls : Bool) (m : Nat) (ticks : Nat → Inputs) : Prop where
  conf0 : ∀ t, (ticks t).conf0 = (ticks 0).conf0
  conf1 : ∀ t, (ticks t).conf1 = (ticks 0).conf1
  hpoint : ∀ t, (ticks t).hpoint = (ticks 0).hpoint
  duty : ∀ t, (ticks t).duty = (ticks 0).duty
  two : 2 ≤ m
  below : ((ticks 0).selectedCnt ls).toNat < m
  counts : ∀ t, ((ticks (t + 1)).selectedCnt ls).toNat = (((ticks t).selectedCnt ls).toNat + 1) % m

/-- The next of the sixteen cycles. -/
def nextcyc (thiscyc : Int) : Int := if thiscyc + 1 = LEDC_CYCLES then 0 else thiscyc + 1

variable {ls : Bool} {m : Nat} {c start : Chan} {ticks : Nat → Inputs} {prev cur : Inputs}

/-- The thread, awake. -/
theorem channel_awake (hwakes : wakes (look ls prev cur) c = true) :
    channel ls (look ls prev cur) c =
      let r := recheck ls (look ls prev cur) (selected ls cur.conf0)
        (idle ls (look ls prev cur) (rdfield cur.conf0 (fields ls).sigOutEn != 0)
          { c with sel := some (selected ls cur.conf0) })
      if rdfield cur.conf0 (fields ls).sigOutEn != 0 &&
          ((look ls prev cur).timerCntEv (selected ls cur.conf0) || r.2) then
        { r.1 with out := level (look ls prev cur) (selected ls cur.conf0) r.1 }
      else r.1 := by
  unfold channel
  rw [if_pos hwakes]
  rfl

/-- **A tick**: all that the thread does when only the counter has changed. -/
theorem channel_tick (hconf0 : cur.conf0 = prev.conf0) (hduty : cur.duty = prev.duty)
    (hsel : c.sel = some (selected ls cur.conf0))
    (hcnt : cur.selectedCnt ls ≠ prev.selectedCnt ls) :
    channel ls (look ls prev cur) c =
      let c := if cur.selectedCnt ls = 0 then
        calcPoints ls cur.conf1 cur.duty false { c with thiscyc := nextcyc c.thiscyc } else c
      if rdfield cur.conf0 (fields ls).sigOutEn ≠ 0 then
        { c with out := level (look ls prev cur) (selected ls cur.conf0) c }
      else c := by
  have hchanged : (look ls prev cur).timerCntEv (selected ls cur.conf0) = true := by
    show (cur.counter ls (selected ls cur.conf0) != prev.counter ls (selected ls cur.conf0)) = true
    rw [bne_iff_ne]
    have hcnt : cur.counter ls (selected ls cur.conf0) ≠ prev.counter ls (selected ls prev.conf0) := hcnt
    rwa [← hconf0] at hcnt
  have hquiet : (look ls prev cur).conf0Ev = false ∧ (look ls prev cur).dutyEv = false := by
    constructor
    · show (cur.conf0 != prev.conf0) = false
      rw [hconf0, bne_self_eq_false]
    · show (cur.duty != prev.duty) = false
      rw [hduty, bne_self_eq_false]
  have hwakes : wakes (look ls prev cur) c = true := by
    unfold wakes
    rw [hsel]
    dsimp only
    rw [hchanged, Bool.or_true]
  have hself : { c with sel := some (selected ls cur.conf0) } = c := by rw [← hsel]
  have hidle (outen : Bool) (c : Chan) : idle ls (look ls prev cur) outen c = c := by
    unfold idle
    rw [hquiet.1, Bool.false_and]
    exact if_neg Bool.false_ne_true
  have hrecheck : recheck ls (look ls prev cur) (selected ls cur.conf0) c =
      if cur.selectedCnt ls = 0 then
        (calcPoints ls cur.conf1 cur.duty false { c with thiscyc := nextcyc c.thiscyc }, true)
      else (c, false) := by
    unfold recheck
    rw [hquiet.1, hquiet.2]
    rfl
  rw [channel_awake hwakes, hidle, hself, hrecheck, hchanged]
  by_cases hzero : cur.selectedCnt ls = 0
  · rw [if_pos hzero, if_pos hzero]
    simp only [Bool.true_or, Bool.and_true, bne_iff_ne]
  · rw [if_neg hzero, if_neg hzero]
    simp only [Bool.true_or, Bool.and_true, bne_iff_ne]

theorem nextcyc_nat {k : Nat} (hk : k < 16) : nextcyc k = ((k + 1) % 16 : Nat) := by
  unfold nextcyc LEDC_CYCLES
  split <;> omega

/-- Once it has been configured a channel waits for the timer it selects, in one of sixteen cycles. -/
def Ready (ls : Bool) (prev : Inputs) (c : Chan) : Prop :=
  (c.sel = none → prev.conf0 = 0) ∧
    ∀ sel ∈ c.sel, sel = selected ls prev.conf0 ∧ ∃ k < 16, c.thiscyc = (k : Nat)

theorem calcPoints_sel (ls : Bool) (conf1 duty : BitVec 32) (startDither : Bool) (c : Chan) :
    (calcPoints ls conf1 duty startDither c).sel = c.sel ∧
      (calcPoints ls conf1 duty startDither c).thiscyc = c.thiscyc := by
  unfold calcPoints
  dsimp only
  repeat' split
  all_goals exact ⟨rfl, rfl⟩

/-- The points are computed again: the timer stays selected, and the cycle is one of sixteen. -/
theorem recheck_cycle (ls : Bool) (l : Look) (sel : Nat) (c : Chan)
    (hcyc : l.conf0Ev = true ∨ ∃ k < 16, c.thiscyc = (k : Nat)) :
    (recheck ls l sel c).1.sel = c.sel ∧ ∃ k < 16, (recheck ls l sel c).1.thiscyc = (k : Nat) := by
  unfold recheck
  by_cases hconfigured : (l.dutyEv || l.conf0Ev) = true
  · rw [if_pos hconfigured]
    exact ⟨(calcPoints_sel ..).1, 0, by decide, rfl⟩
  · rw [if_neg hconfigured]
    obtain ⟨k, hk, hthis⟩ := hcyc.resolve_left fun h => hconfigured (by rw [h, Bool.or_true])
    split
    · refine ⟨(calcPoints_sel ..).1, (k + 1) % 16, Nat.mod_lt _ (by decide), ?_⟩
      rw [← nextcyc_nat hk, ← hthis]
      exact (calcPoints_sel ..).2
    · exact ⟨rfl, k, hk, hthis⟩

theorem Ready.next (h : Ready ls prev c) (cur : Inputs) :
    Ready ls cur (channel ls (look ls prev cur) c) := by
  by_cases hwakes : wakes (look ls prev cur) c = true
  · have hcyc : (look ls prev cur).conf0Ev = true ∨ ∃ k < 16, c.thiscyc = (k : Nat) := by
      cases hsel : c.sel with
      | none =>
        unfold wakes at hwakes
        rw [hsel] at hwakes
        exact Or.inl hwakes
      | some sel => exact Or.inr (h.2 sel hsel).2
    have hidle : ∀ outen, (idle ls (look ls prev cur) outen
        { c with sel := some (selected ls cur.conf0) }).sel = some (selected ls cur.conf0) ∧
        (idle ls (look ls prev cur) outen
          { c with sel := some (selected ls cur.conf0) }).thiscyc = c.thiscyc := by
      intro outen
      unfold idle
      split <;> exact ⟨rfl, rfl⟩
    obtain ⟨hsel, k, hk, hthis⟩ := recheck_cycle ls (look ls prev cur)
      (selected ls cur.conf0)
      (idle ls (look ls prev cur) (rdfield cur.conf0 (fields ls).sigOutEn != 0)
        { c with sel := some (selected ls cur.conf0) })
      (hcyc.imp_right fun ⟨k, hk, hthis⟩ => ⟨k, hk, (hidle _).2.trans hthis⟩)
    have hready : ∀ out, Ready ls cur { (recheck ls (look ls prev cur) (selected ls cur.conf0)
        (idle ls (look ls prev cur) (rdfield cur.conf0 (fields ls).sigOutEn != 0)
          { c with sel := some (selected ls cur.conf0) })).1 with out := out } := by
      intro out
      refine ⟨fun hnone => ?_, fun sel hsome => ?_⟩
      · exact absurd (hnone.symm.trans (hsel.trans (hidle _).1)) (by simp)
      · exact ⟨(Option.some.inj ((hsel.trans (hidle _).1).symm.trans hsome)).symm, k, hk, hthis⟩
    rw [channel_awake hwakes]
    dsimp only
    split
    · exact hready _
    · exact hready _
  · have hasleep : channel ls (look ls prev cur) c = c := if_neg hwakes
    rw [hasleep]
    have hsame : cur.conf0 = prev.conf0 := by
      unfold wakes at hwakes
      by_contra hne
      have hev : (look ls prev cur).conf0Ev = true := bne_iff_ne.mpr hne
      rw [hev] at hwakes
      split at hwakes
      · exact hwakes rfl
      · exact hwakes rfl
    unfold Ready
    rw [hsame]
    exact h

/-- **After every history.** -/
theorem ready_follow (history : List Inputs) : ∀ {prev : Inputs} {c : Chan}, Ready ls prev c →
    Ready ls (follow ls prev c history).1 (follow ls prev c history).2 := by
  induction history with
  | nil => exact fun h => h
  | cons cur rest ih => exact fun h => ih (h.next cur)

theorem ready_start (hstart : start.sel = none) : Ready ls .zero start := by
  refine ⟨fun _ => rfl, fun sel hsel => ?_⟩
  rw [hstart] at hsel
  exact nomatch hsel

theorem ready_chanAt (h : Ready ls (ticks 0) c) (t : Nat) :
    Ready ls (ticks t) (chanAt ls c ticks t) := by
  induction t with
  | zero => exact h
  | succ t ih => exact ih.next _

/-- A channel whose output is enabled has been configured. -/
theorem Ready.selects (h : Ready ls prev c) (hout : rdfield prev.conf0 hsch0.sigOutEn ≠ 0) :
    c.sel = some (selected ls prev.conf0) ∧ ∃ k < 16, c.thiscyc = (k : Nat) := by
  cases hsel : c.sel with
  | none =>
    rw [h.1 hsel] at hout
    exact absurd rfl hout
  | some sel =>
    obtain ⟨hsame, hcyc⟩ := h.2 sel hsel
    exact ⟨congrArg some hsame, hcyc⟩

/-! ## §2 — ticks -/

theorem Cycles.selected (h : Cycles ls m ticks) (t : Nat) :
    selected ls (ticks t).conf0 = Ledc.selected ls (ticks 0).conf0 := by
  rw [h.conf0 t]

/-- The counter at a tick. -/
theorem Cycles.cnt (h : Cycles ls m ticks) {t : Nat} (hzero : (ticks t).selectedCnt ls = 0) (v : Nat) :
    ((ticks (t + v)).selectedCnt ls).toNat = v % m := by
  induction v with
  | zero =>
    rw [Nat.add_zero, hzero, Nat.zero_mod]
    rfl
  | succ v ih =>
    rw [← Nat.add_assoc, h.counts, ih, Nat.mod_add_mod]

theorem Cycles.lt (h : Cycles ls m ticks) (t : Nat) : ((ticks t).selectedCnt ls).toNat < m := by
  cases t with
  | zero => exact h.below
  | succ t =>
    rw [h.counts]
    exact Nat.mod_lt _ (Nat.lt_of_lt_of_le (by decide) h.two)

/-- A tick changes the counter. -/
theorem Cycles.moves (h : Cycles ls m ticks) (t : Nat) :
    (ticks (t + 1)).selectedCnt ls ≠ (ticks t).selectedCnt ls := by
  intro hsame
  have hcounts := h.counts t
  have hlt := h.lt t
  have htwo := h.two
  rw [hsame] at hcounts
  rcases Nat.lt_or_ge (((ticks t).selectedCnt ls).toNat + 1) m with hless | hmore
  · rw [Nat.mod_eq_of_lt hless] at hcounts
    omega
  · rw [show ((ticks t).selectedCnt ls).toNat + 1 = m by omega, Nat.mod_self] at hcounts
    omega

/-- **The tick at a time.** -/
theorem Cycles.tick (h : Cycles ls m ticks) {t : Nat}
    (hsel : (chanAt ls c ticks t).sel = some (Ledc.selected ls (ticks 0).conf0)) :
    chanAt ls c ticks (t + 1) =
      let r := if (ticks (t + 1)).selectedCnt ls = 0 then
        calcPoints ls (ticks 0).conf1 (ticks 0).duty false
          { chanAt ls c ticks t with thiscyc := nextcyc (chanAt ls c ticks t).thiscyc }
      else chanAt ls c ticks t
      if rdfield (ticks 0).conf0 (fields ls).sigOutEn ≠ 0 then
        { r with out := level (look ls (ticks t) (ticks (t + 1))) (Ledc.selected ls (ticks 0).conf0) r }
      else r := by
  have hconf0 : (ticks (t + 1)).conf0 = (ticks t).conf0 := (h.conf0 _).trans (h.conf0 _).symm
  have hduty : (ticks (t + 1)).duty = (ticks t).duty := (h.duty _).trans (h.duty _).symm
  have htick := channel_tick hconf0 hduty (by rw [h.selected]; exact hsel) (h.moves t)
  rw [h.conf0, h.conf1, h.duty] at htick
  exact htick

/-! ## §3 — without a fade -/

/-- The length of a pulse, in a cycle. -/
def pulse (duty : BitVec 32) (thiscyc : Int) : BitVec 32 :=
  (if ((duty &&& 0x0f).toNat : Int) > thiscyc then duty >>> 4 + 1 else duty >>> 4) &&& ledcDutyHsch0

theorem calcPoints_plain (ls : Bool) {conf1 : BitVec 32}
    (hstart : rdfield conf1 (fields ls).dutyStart = 0) (duty : BitVec 32) (startDither : Bool) (c : Chan) :
    (calcPoints ls conf1 duty startDither c).thislp = pulse duty c.thiscyc := by
  have hnot : ¬ rdfield conf1 (fields ls).dutyStart > 0 := by omega
  unfold calcPoints
  dsimp only
  rw [if_neg hnot]
  rfl

theorem toNat_pulse {duty : BitVec 32} (hduty : duty.toNat < 2 ^ 25) (k : Nat) :
    (pulse duty k).toNat = duty.toNat / 16 + if k < duty.toNat % 16 then 1 else 0 := by
  have hfrac : (duty &&& 0x0f).toNat = duty.toNat % 16 := by
    rw [BitVec.toNat_and]
    exact Nat.and_two_pow_sub_one_eq_mod duty.toNat 4
  have hmask (v : BitVec 32) (hv : v.toNat < 2 ^ 25) : (v &&& ledcDutyHsch0).toNat = v.toNat := by
    rw [BitVec.toNat_and]
    exact (Nat.and_two_pow_sub_one_eq_mod v.toNat 25).trans (Nat.mod_eq_of_lt hv)
  have hshift : (duty >>> 4).toNat = duty.toNat / 16 := by
    rw [BitVec.toNat_ushiftRight, Nat.shiftRight_eq_div_pow]
  have hmore : (duty >>> 4 + 1).toNat = duty.toNat / 16 + 1 := by
    rw [BitVec.toNat_add, hshift, Nat.mod_eq_of_lt]
    · rfl
    · show duty.toNat / 16 + 1 < 2 ^ 32
      omega
  unfold pulse
  rw [hfrac]
  by_cases hk : k < duty.toNat % 16
  · rw [if_pos (by omega), if_pos hk, hmask _ (by omega), hmore]
  · rw [if_neg (by omega), if_neg hk, hmask _ (by omega), hshift, Nat.add_zero]

/-- A high-speed channel with its output enabled and no fade, and a duty and an hpoint in their fields,
whose longest pulse fits into the cycle of its counter. -/
structure Steady (m : Nat) (i : Inputs) : Prop where
  out : rdfield i.conf0 hsch0.sigOutEn ≠ 0
  start : rdfield i.conf1 hsch0.dutyStart = 0
  duty : i.duty.toNat < 2 ^ 25
  hpoint : i.hpoint.toNat < 2 ^ 20
  fits : i.hpoint.toNat + i.duty.toNat / 16 + 1 ≤ m

/-- Where the counter is in a cycle with this pulse. -/
theorem level_eq {l : Look} {sel : Nat} (hlp : c.thislp.toNat + l.hpoint.toNat < 2 ^ 32) :
    level l sel c = decide (l.hpoint.toNat ≤ (l.timerCnt sel).toNat ∧
      (l.timerCnt sel).toNat < l.hpoint.toNat + c.thislp.toNat) := by
  have hsum : (c.thislp + l.hpoint).toNat = c.thislp.toNat + l.hpoint.toNat := by
    rw [BitVec.toNat_add, Nat.mod_eq_of_lt hlp]
  have hend : c.thislp + l.hpoint ≤ l.timerCnt sel ↔
      c.thislp.toNat + l.hpoint.toNat ≤ (l.timerCnt sel).toNat := by
    rw [BitVec.le_def, hsum]
  have hbegin : l.hpoint ≤ l.timerCnt sel ↔ l.hpoint.toNat ≤ (l.timerCnt sel).toNat := BitVec.le_def
  unfold level
  symm
  split
  · next h =>
    rw [hend] at h
    exact decide_eq_false (by omega)
  · next h =>
    rw [hend] at h
    split
    · next h' =>
      rw [hbegin] at h'
      exact decide_eq_true (by omega)
    · next h' =>
      rw [hbegin] at h'
      exact decide_eq_false (by omega)

/-- At a time, with the timer selected, in the cycle `k`, with the pulse of that cycle. -/
structure InCycle (c : Chan) (ticks : Nat → Inputs) (t k : Nat) : Prop where
  sel : (chanAt false c ticks t).sel = some (selected false (ticks 0).conf0)
  thiscyc : (chanAt false c ticks t).thiscyc = (k : Nat)
  thislp : (chanAt false c ticks t).thislp = pulse (ticks 0).duty (k : Nat)

/-- The output at a time is the pulse of the cycle, by the counter. -/
def Shows (c : Chan) (ticks : Nat → Inputs) (t k : Nat) : Prop :=
  (chanAt false c ticks t).out = decide ((ticks 0).hpoint.toNat ≤ ((ticks t).selectedCnt false).toNat ∧
    ((ticks t).selectedCnt false).toNat <
      (ticks 0).hpoint.toNat + (pulse (ticks 0).duty (k : Nat)).toNat)

/-- What the output is after a tick, once the pulse is known. -/
theorem shows_of (hc : Cycles false m ticks) (hs : Steady m (ticks 0)) {t k : Nat} {r : Chan}
    (hlp : r.thislp = pulse (ticks 0).duty (k : Nat))
    (hout : (chanAt false c ticks t).out =
      level (look false (ticks (t - 1)) (ticks t)) (selected false (ticks 0).conf0) r) :
    Shows c ticks t k := by
  have hlen := toNat_pulse hs.duty k
  have hduty := hs.duty
  have hpoint := hs.hpoint
  have hsame : (look false (ticks (t - 1)) (ticks t)).hpoint = (ticks 0).hpoint := hc.hpoint t
  have hcnt : (look false (ticks (t - 1)) (ticks t)).timerCnt (selected false (ticks 0).conf0) =
      (ticks t).selectedCnt false := by
    rw [← hc.selected t]
    rfl
  unfold Shows
  rw [hout, level_eq, hsame, hcnt, hlp]
  rw [hsame, hlp, hlen]
  split <;> omega

/-- **The tick of a zero**: the next cycle begins. -/
theorem zero_tick (hc : Cycles false m ticks) (hs : Steady m (ticks 0)) {t k : Nat} (hk : k < 16)
    (hsel : (chanAt false c ticks t).sel = some (selected false (ticks 0).conf0))
    (hcyc : (chanAt false c ticks t).thiscyc = (k : Nat))
    (hzero : (ticks (t + 1)).selectedCnt false = 0) :
    InCycle c ticks (t + 1) ((k + 1) % 16) ∧ Shows c ticks (t + 1) ((k + 1) % 16) := by
  have htick := hc.tick hsel
  rw [if_pos hzero, hcyc, nextcyc_nat hk] at htick
  dsimp only at htick
  rw [if_pos (by exact hs.out)] at htick
  have hfields := calcPoints_sel false (ticks 0).conf1 (ticks 0).duty false
    { chanAt false c ticks t with thiscyc := ((k + 1) % 16 : Nat) }
  have hlp := calcPoints_plain false hs.start (ticks 0).duty false
    { chanAt false c ticks t with thiscyc := ((k + 1) % 16 : Nat) }
  refine ⟨⟨?_, ?_, ?_⟩, shows_of hc hs hlp (by rw [htick]; rfl)⟩
  · rw [htick]
    exact hfields.1.trans hsel
  · rw [htick]
    exact hfields.2
  · rw [htick]
    exact hlp

/-- **Any other tick** leaves the cycle and its pulse. -/
theorem count_tick (hc : Cycles false m ticks) (hs : Steady m (ticks 0)) {t k : Nat}
    (h : InCycle c ticks t k) (hcnt : (ticks (t + 1)).selectedCnt false ≠ 0) :
    InCycle c ticks (t + 1) k ∧ Shows c ticks (t + 1) k := by
  have htick := hc.tick h.sel
  rw [if_neg hcnt] at htick
  dsimp only at htick
  rw [if_pos (by exact hs.out)] at htick
  refine ⟨⟨?_, ?_, ?_⟩, shows_of hc hs h.thislp (by rw [htick]; rfl)⟩
  · rw [htick]
    exact h.sel
  · rw [htick]
    exact h.thiscyc
  · rw [htick]
    exact h.thislp

/-- **A period** from a zero on: it stays in its cycle and shows its pulse. -/
theorem period (hc : Cycles false m ticks) (hs : Steady m (ticks 0)) {t k : Nat}
    (hzero : (ticks t).selectedCnt false = 0) (h : InCycle c ticks t k) (hshows : Shows c ticks t k)
    (v : Nat) (hv : v < m) : InCycle c ticks (t + v) k ∧ Shows c ticks (t + v) k := by
  induction v with
  | zero => exact ⟨h, hshows⟩
  | succ v ih =>
    refine count_tick hc hs (ih (by omega)).1 fun hnext => ?_
    have hnext : (ticks (t + v + 1)).selectedCnt false = 0 := hnext
    have hcnt := hc.cnt hzero (v + 1)
    rw [Nat.mod_eq_of_lt hv, ← Nat.add_assoc, hnext] at hcnt
    exact absurd hcnt (by simp)

/-- So is the next one, and so on. -/
theorem periods (hc : Cycles false m ticks) (hs : Steady m (ticks 0)) {t k : Nat} (hk : k < 16)
    (hzero : (ticks t).selectedCnt false = 0) (h : InCycle c ticks t k) (hshows : Shows c ticks t k)
    (j : Nat) : (ticks (t + j * m)).selectedCnt false = 0 ∧
      InCycle c ticks (t + j * m) ((k + j) % 16) ∧ Shows c ticks (t + j * m) ((k + j) % 16) := by
  have htwo := hc.two
  induction j with
  | zero =>
    rw [Nat.zero_mul, Nat.add_zero, Nat.add_zero, Nat.mod_eq_of_lt hk]
    exact ⟨hzero, h, hshows⟩
  | succ j ih =>
    obtain ⟨hzero, h, hshows⟩ := ih
    have hlast := (period hc hs hzero h hshows (m - 1) (by omega)).1
    have hend : t + (j + 1) * m = t + j * m + (m - 1) + 1 := by
      rw [Nat.succ_mul]
      omega
    have hnext : (ticks (t + (j + 1) * m)).selectedCnt false = 0 := by
      apply BitVec.eq_of_toNat_eq
      rw [Nat.succ_mul, ← Nat.add_assoc, hc.cnt hzero m, Nat.mod_self]
      rfl
    rw [hend] at hnext
    have hstep := zero_tick hc hs (Nat.mod_lt (k + j) (by decide)) hlast.sel hlast.thiscyc hnext
    rw [show ((k + j) % 16 + 1) % 16 = (k + (j + 1)) % 16 by omega] at hstep
    rw [hend]
    exact ⟨hnext, hstep⟩

/-- In a period the output is the pulse, by the time since its zero. -/
theorem period_out (hc : Cycles false m ticks) (hs : Steady m (ticks 0)) {t k : Nat}
    (hzero : (ticks t).selectedCnt false = 0) (h : InCycle c ticks t k) (hshows : Shows c ticks t k)
    {v : Nat} (hv : v < m) : (chanAt false c ticks (t + v)).out =
      decide ((ticks 0).hpoint.toNat ≤ v ∧
        v < (ticks 0).hpoint.toNat + (pulse (ticks 0).duty (k : Nat)).toNat) := by
  have hout := (period hc hs hzero h hshows v hv).2
  unfold Shows at hout
  rwa [hc.cnt hzero v, Nat.mod_eq_of_lt hv] at hout

/-- **The duty is exact over sixteen periods**, from whatever history: in a period from a zero of the
counter on the output is one run from the hpoint on, as long as the whole part of the duty or one more,
and in sixteen periods it is high for as many ticks as the duty says. -/
theorem duty_exact (start : Chan) (hstart : start.sel = none) (history : List Inputs)
    (ticks : Nat → Inputs) (hticks : ticks 0 = (follow false .zero start history).1) (m : Nat)
    (hc : Cycles false m ticks) (hs : Steady m (ticks 0)) (t : Nat) (ht : 1 ≤ t)
    (hzero : (ticks t).selectedCnt false = 0) :
    (∃ len, (len = (ticks 0).duty.toNat / 16 ∨ len = (ticks 0).duty.toNat / 16 + 1) ∧
      ∀ v < m, (chanAt false (follow false .zero start history).2 ticks (t + v)).out =
        decide ((ticks 0).hpoint.toNat ≤ v ∧ v < (ticks 0).hpoint.toNat + len)) ∧
      Nat.count (fun i => (chanAt false (follow false .zero start history).2 ticks (t + i)).out = true)
        (16 * m) = (ticks 0).duty.toNat := by
  have hfirst : Ready false (ticks 0) (follow false .zero start history).2 := by
    rw [hticks]
    exact ready_follow history (ready_start hstart)
  generalize (follow false .zero start history).2 = c at hfirst ⊢
  obtain ⟨t, rfl⟩ : ∃ s, t = s + 1 := ⟨t - 1, by omega⟩
  obtain ⟨hsel, k, hk, hcyc⟩ := (ready_chanAt hfirst t).selects (by rw [hc.conf0]; exact hs.out)
  rw [hc.selected] at hsel
  obtain ⟨hin, hshows⟩ := zero_tick hc hs hk hsel hcyc hzero
  have hk' : (k + 1) % 16 < 16 := Nat.mod_lt _ (by decide)
  generalize (k + 1) % 16 = k at hin hshows hk'
  constructor
  · refine ⟨(pulse (ticks 0).duty (k : Nat)).toNat, ?_,
      fun v hv => period_out hc hs hzero hin hshows hv⟩
    rw [toNat_pulse hs.duty]
    split
    · exact Or.inr rfl
    · exact Or.inl rfl
  · -- each period counts its pulse, and the sixteen pulses make up the duty
    have hcount (j : Nat) : Nat.count
        (fun v => (chanAt false c ticks (t + 1 + (j * m + v))).out = true) m =
          (ticks 0).duty.toNat / 16 + if (k + j) % 16 < (ticks 0).duty.toNat % 16 then 1 else 0 := by
      obtain ⟨hz, hi, hsh⟩ := periods hc hs hk' hzero hin hshows j
      have hlen := toNat_pulse hs.duty ((k + j) % 16)
      have hfits := hs.fits
      have hroom : (ticks 0).hpoint.toNat + (pulse (ticks 0).duty ((k + j) % 16 : Nat)).toNat ≤ m := by
        rw [hlen]
        split <;> omega
      rw [← hlen, ← count_pulse hroom]
      apply count_congr
      intro v hv
      rw [← Nat.add_assoc, period_out hc hs hz hi hsh hv, decide_eq_true_iff]
    rw [count_periods fun j _ => hcount j, Finset.sum_add_distrib, sum_cycle (by omega) k,
      Finset.sum_const, Finset.card_range]
    show 16 * ((ticks 0).duty.toNat / 16) + (ticks 0).duty.toNat % 16 = (ticks 0).duty.toNat
    omega

/-- A counter of five and a duty of two and five sixteenths, from the hpoint 1 on. -/
def fiveTicks (t : Nat) : Inputs := ⟨0x4, 0, 1, 0x25, fun _ => BitVec.ofNat 32 (t % 5)⟩

theorem duty_exact_five : Nat.count
    (fun i => (chanAt false (follow false .zero idleChan [fiveTicks 0]).2 fiveTicks (5 + i)).out = true)
      (16 * 5) = 0x25 := by
  have hcnt (t : Nat) : ((fiveTicks t).selectedCnt false).toNat = t % 5 :=
    Nat.mod_eq_of_lt (Nat.lt_of_lt_of_le (Nat.mod_lt t (by decide)) (by decide))
  have hcycles : Cycles false 5 fiveTicks :=
    ⟨fun _ => rfl, fun _ => rfl, fun _ => rfl, fun _ => rfl, by decide, by decide, fun t => by
      rw [hcnt, hcnt, Nat.mod_add_mod]⟩
  exact (duty_exact idleChan rfl [fiveTicks 0] fiveTicks rfl 5 hcycles
    ⟨by decide, by decide, by decide, by decide, by decide⟩ 5 (by decide) rfl).2

/-! ## §4 — a fade -/

/-- How often the counter has come to zero. -/
def zeros (ls : Bool) (ticks : Nat → Inputs) (t : Nat) : Nat :=
  Nat.count (fun i => (ticks (i + 1)).selectedCnt ls = 0) t

/-- The fade that the registers of a channel ask for: a number of steps, periods for each, and a scale,
within the range of the pulse. -/
structure Asks (ls : Bool) (i : Inputs) : Prop where
  start : rdfield i.conf1 (fields ls).dutyStart > 0
  num : 1 ≤ rdfield i.conf1 (fields ls).dutyNum
  cycle : 1 ≤ rdfield i.conf1 (fields ls).dutyCycle
  duty : i.duty.toNat < 2 ^ 25
  range : if rdfield i.conf1 (fields ls).dutyInc = 0 then
      rdfield i.conf1 (fields ls).dutyScale * rdfield i.conf1 (fields ls).dutyNum ≤ i.duty.toNat / 16
    else i.duty.toNat / 16 + 1 +
      rdfield i.conf1 (fields ls).dutyScale * rdfield i.conf1 (fields ls).dutyNum < 2 ^ 25

/-- **The fade**: after each `dutyCycle` periods the pulse is a step longer or shorter, `dutyNum` times,
and the end of the last step is notified, and nothing else. -/
def Fades (ls : Bool) (c : Chan) (ticks : Nat → Inputs) : Prop :=
  ∀ t, let i := ticks 0
    let steps := min (zeros ls ticks t / rdfield i.conf1 (fields ls).dutyCycle)
      (rdfield i.conf1 (fields ls).dutyNum)
    ((chanAt ls c ticks t).thislp.toNat : Int) =
        (pulse i.duty (chanAt ls c ticks t).thiscyc).toNat +
          (if rdfield i.conf1 (fields ls).dutyInc = 0 then -1 else 1) *
            (rdfield i.conf1 (fields ls).dutyScale * steps) ∧
      (chanAt ls c ticks t).ends = c.ends +
        if rdfield i.conf1 (fields ls).dutyNum * rdfield i.conf1 (fields ls).dutyCycle ≤
          zeros ls ticks t then 1 else 0

/-- A zero counts as an end of the fade. -/
theorem calcPoints_ends {conf1 : BitVec 32} (hstart : rdfield conf1 (fields ls).dutyStart > 0)
    (duty : BitVec 32) (c : Chan) : (calcPoints ls conf1 duty false c).ends = c.ends + 1 := by
  unfold calcPoints
  dsimp only
  rw [if_pos hstart, if_neg Bool.false_ne_true, Bool.false_and, if_neg Bool.false_ne_true]
  split <;> rfl

/-- **With a fade every zero notifies its end.** -/
theorem ends_zeros (hc : Cycles ls m ticks) (hstart : rdfield (ticks 0).conf1 (fields ls).dutyStart > 0)
    (hsel : c.sel = some (selected ls (ticks 0).conf0)) (t : Nat) :
    (chanAt ls c ticks t).sel = c.sel ∧ (chanAt ls c ticks t).ends = c.ends + zeros ls ticks t := by
  induction t with
  | zero => exact ⟨rfl, rfl⟩
  | succ t ih =>
    have htick := hc.tick (c := c) (ih.1.trans hsel)
    unfold zeros at ih ⊢
    rw [htick, Nat.count_succ]
    by_cases hzero : (ticks (t + 1)).selectedCnt ls = 0
    · rw [if_pos hzero, if_pos hzero]
      have hends := calcPoints_ends hstart (ticks 0).duty
        { chanAt ls c ticks t with thiscyc := nextcyc (chanAt ls c ticks t).thiscyc }
      have hfields := calcPoints_sel ls (ticks 0).conf1 (ticks 0).duty false
        { chanAt ls c ticks t with thiscyc := nextcyc (chanAt ls c ticks t).thiscyc }
      dsimp only
      split
      · exact ⟨hfields.1.trans ih.1, hends.trans (congrArg (· + 1) ih.2)⟩
      · exact ⟨hfields.1.trans ih.1, hends.trans (congrArg (· + 1) ih.2)⟩
    · rw [if_neg hzero, if_neg hzero]
      dsimp only
      split
      · exact ih
      · exact ih

/-- A channel that has never been configured sleeps. -/
theorem asleep (hc : Cycles ls m ticks) (hsel : c.sel = none) (t : Nat) : chanAt ls c ticks t = c := by
  induction t with
  | zero => rfl
  | succ t ih =>
    have hsleeps : wakes (look ls (ticks t) (ticks (t + 1))) c = false := by
      unfold wakes
      rw [hsel]
      show ((ticks (t + 1)).conf0 != (ticks t).conf0) = false
      rw [hc.conf0 (t + 1), hc.conf0 t, bne_self_eq_false]
    rw [chanAt, ih, channel, if_neg (Bool.eq_false_iff.mp hsleeps)]

/-- The counter comes to zero again and again. -/
theorem zeros_unbounded (hc : Cycles ls m ticks) (n : Nat) : ∃ t, n ≤ zeros ls ticks t := by
  induction n with
  | zero => exact ⟨0, Nat.zero_le _⟩
  | succ n ih =>
    obtain ⟨t, ht⟩ := ih
    have hlt := hc.lt t
    have hcnt (v : Nat) : ((ticks (t + v)).selectedCnt ls).toNat =
        (((ticks t).selectedCnt ls).toNat + v) % m := by
      induction v with
      | zero => exact (Nat.mod_eq_of_lt hlt).symm
      | succ v ih => rw [← Nat.add_assoc, hc.counts, ih, Nat.mod_add_mod, Nat.add_assoc]
    obtain ⟨k, hk⟩ : ∃ k, m = ((ticks t).selectedCnt ls).toNat + (k + 1) :=
      ⟨m - 1 - ((ticks t).selectedCnt ls).toNat, by omega⟩
    have hzero : (ticks (t + k + 1)).selectedCnt ls = 0 := by
      apply BitVec.eq_of_toNat_eq
      rw [Nat.add_assoc, hcnt, ← hk, Nat.mod_self]
      rfl
    refine ⟨t + k + 1, ?_⟩
    unfold zeros at ht ⊢
    rw [Nat.count_succ, if_pos hzero]
    exact Nat.succ_le_succ (Nat.le_trans ht (Nat.count_monotone _ (Nat.le_add_right t k)))

/-- No state of a channel is one from which it fades as it was asked to. -/
theorem not_fades (hc : Cycles ls m ticks) (hready : Ready ls (ticks 0) c) (hasks : Asks ls (ticks 0)) :
    ¬ Fades ls c ticks := by
  intro hfades
  cases hsel : c.sel with
  | none =>
    obtain ⟨t, ht⟩ := zeros_unbounded hc
      (rdfield (ticks 0).conf1 (fields ls).dutyNum * rdfield (ticks 0).conf1 (fields ls).dutyCycle)
    have hends := (hfades t).2
    rw [if_pos ht, asleep hc hsel] at hends
    omega
  | some sel =>
    obtain ⟨t, ht⟩ := zeros_unbounded hc 2
    have hends := (hfades t).2
    have hsel : c.sel = some (selected ls (ticks 0).conf0) := by
      rw [hsel, (hready.2 sel hsel).1]
    rw [(ends_zeros hc hasks.start hsel t).2] at hends
    split at hends <;> omega

/-- **No channel fades as it was asked to**, whatever was before and whatever its fade is. -/
theorem never_fades (ls : Bool) (start : Chan) (hstart : start.sel = none) (history : List Inputs)
    (ticks : Nat → Inputs) (hticks : ticks 0 = (follow ls .zero start history).1) (m : Nat)
    (hc : Cycles ls m ticks) (hasks : Asks ls (ticks 0)) :
    ¬ Fades ls (follow ls .zero start history).2 ticks := by
  refine not_fades hc ?_ hasks
  rw [hticks]
  exact ready_follow history (ready_start hstart)

/-- One step up by 1 after two periods of a counter of five. -/
def fadeTicks (t : Nat) : Inputs := ⟨0x4, 0xC0100801, 0, 0x20, fun _ => BitVec.ofNat 32 (t % 5)⟩

theorem cycles_fadeTicks : Cycles false 5 fadeTicks := by
  have hcnt (t : Nat) : ((fadeTicks t).selectedCnt false).toNat = t % 5 :=
    Nat.mod_eq_of_lt (Nat.lt_of_lt_of_le (Nat.mod_lt t (by decide)) (by decide))
  refine ⟨fun _ => rfl, fun _ => rfl, fun _ => rfl, fun _ => rfl, by decide, by decide, fun t => ?_⟩
  rw [hcnt, hcnt, Nat.mod_add_mod]

theorem never_fades_once : ¬ Fades false (follow false .zero idleChan [fadeTicks 0]).2 fadeTicks :=
  never_fades false idleChan rfl [fadeTicks 0] fadeTicks rfl 5 cycles_fadeTicks
    ⟨by decide, by decide, by decide, by decide, by decide⟩

/-- The fade lasts two periods; after the first of them its end is notified already. -/
theorem fade_ends_early :
    rdfield (fadeTicks 0).conf1 (fields false).dutyNum * rdfield (fadeTicks 0).conf1 (fields false).dutyCycle = 2 ∧
      zeros false fadeTicks 5 = 1 ∧ (follow false .zero idleChan [fadeTicks 0]).2.ends = 0 ∧
      (chanAt false (follow false .zero idleChan [fadeTicks 0]).2 fadeTicks 5).ends = 1 ∧
      ¬ Fades false (follow false .zero idleChan [fadeTicks 0]).2 fadeTicks :=
  ⟨by decide, by decide, by decide, by decide, fun h => absurd (h 5).2 (by decide)⟩

end Espmod.Ledc
