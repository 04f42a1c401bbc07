/-
# Espmod.Gpio.ReturnPath — what a pad returns to the peripherals

Firmware samples a pad with `get_val`; a peripheral is fed by `drive_return`, which writes the sample on
the return path of the selected function and low on all others. The first goes by the character of the
sample. The second asks `islogic` and `ishigh`, which compare the sample's `sc_logic` with a `gn_logic_t`.
There is no such comparison: the enumerator becomes an `int`, and this an `sc_logic`, with `LOGIC_W0` the
number of Z and `LOGIC_W1` that of X. So everything is a logic level, and a conflict or an analog level is
high.

`drive_return` sleeps on the pad and on `updatereturn`. `set_ie` and `set_function` notify this, but
`clr_ie` notifies `updatedriver`, so a peripheral keeps the level that it had when its input was disabled.
-/
import Espmod.Lib.Run
import Espmod.Gpio.PadLevel
import Espmod.Gpio.Resolution

namespace Espmod.Gpio

open Espmod.Lib
open GnLogic (ScLogic)

/-! ## §1 — levels, high and low -/

/-- The number of an enumerator of `gn_logic_t`. -/
def GnLogic.number : GnLogic → Nat
  | .logic0 => 0
  | .logic1 => 1
  | .logicW0 => 2
  | .logicW1 => 3
  | .logicZ => 4
  | .logicA => 5
  | .logicX => 6

namespace GnLogic.ScLogic

/-- `sc_logic` of a number; `none` is an error. -/
def ofNumber : Nat → Option ScLogic
  | 0 => some .zero
  | 1 => some .one
  | 2 => some .z
  | 3 => some .x
  | _ => none

/-- `sc_logic == gn_logic_t`, by way of `int`. -/
def isNumber (a : ScLogic) (g : GnLogic) : Bool := decide (ofNumber g.number = some a)

/-- `gn_mixed::islogic`. -/
def islogic (a : ScLogic) : Bool :=
  a.isNumber .logic0 || a.isNumber .logic1 || a.isNumber .logicW0 || a.isNumber .logicW1

/-- `gn_mixed::ishigh`. -/
def ishigh (a : ScLogic) : Bool := a.isNumber .logic1 || a.isNumber .logicW1

theorem islogic_eq (a : ScLogic) : a.islogic = true := by cases a <;> decide

theorem ishigh_eq (a : ScLogic) : a.ishigh = decide (a = .one ∨ a = .x) := by cases a <;> decide

end GnLogic.ScLogic

/-- A strong or weak 1. -/
def GnLogic.High (v : GnLogic) : Prop := v = .logic1 ∨ v = .logicW1

/-- A conflict or an analog level. -/
def GnLogic.Undefined (v : GnLogic) : Prop := v = .logicX ∨ v = .logicA

instance (v : GnLogic) : Decidable v.High := inferInstanceAs (Decidable (_ ∨ _))

instance (v : GnLogic) : Decidable v.Undefined := inferInstanceAs (Decidable (_ ∨ _))

namespace IoMux

/-! ## §2 — the two samplers -/

/-- The value that `drive_return` returns for a sample, after time zero if `late`. -/
def returnVal (m : IoMux) (late : Bool) (pinsamp : GnLogic) : Bool :=
  if !m.ie then false
  else if late && !pinsamp.scLogic.islogic then false
  else if pinsamp.scLogic.ishigh then true
  else false

/-- What `drive_return` writes on the return path of function number `func + 1`. -/
def returned (m : IoMux) (late : Bool) (pinsamp : GnLogic) (func : Nat) : Bool :=
  match m.function with
  | .analog => false
  | .gpio => false
  | .func k => if func ≠ k then false else m.returnVal late pinsamp

/-- The sample counts as high for the peripherals: also a conflict or an analog level does. -/
theorem returnVal_eq (m : IoMux) (late : Bool) (v : GnLogic) :
    m.returnVal late v = (m.ie && decide (v.High ∨ v.Undefined)) := by
  unfold returnVal
  rw [GnLogic.ScLogic.islogic_eq, GnLogic.ScLogic.ishigh_eq]
  cases m.ie <;> cases late <;> cases v <;> decide

/-- **The samplers agree** on a value of the pad: firmware and the selected peripheral see the same, and
high only for a strong or weak 1. -/
structure SamplersAgree (m : IoMux) (k : Nat) (v : GnLogic) : Prop where
  same : m.getVal v = m.returned true v k
  val : m.getVal v = true → v.High
  ret : m.returned true v k = true → v.High

/-- **The samplers agree exactly on pads without a conflict and without an analog level**: for every list
of drivers, with the input enabled, no pull-up, and a function selected. -/
theorem samplers_agree {L : Type} (lv : GnLevels L) (vs : List (GnMixed L)) {m : IoMux} {k : Nat}
    (hie : m.ie = true) (hwpu : m.wpu = false) (hf : m.function = .func k) :
    SamplersAgree m k (GnMixed.resolve lv vs).value ↔ ¬ (GnMixed.resolve lv vs).value.Undefined := by
  generalize (GnMixed.resolve lv vs).value = v
  have hret : m.returned true v k = decide (v.High ∨ v.Undefined) := by
    unfold returned
    rw [hf]
    show (if k ≠ k then false else m.returnVal true v) = _
    rw [if_neg (not_not.mpr rfl), returnVal_eq, hie, Bool.true_and]
  have hval : m.getVal v = decide v.High := by
    have hfunc : GpioFunction.func k ≠ .analog := fun h => nomatch h
    unfold getVal
    rw [hf, hie, hwpu, if_neg hfunc]
    cases v <;> decide
  constructor
  · intro h hu
    have hhigh := h.ret (hret.trans (decide_eq_true (Or.inr hu)))
    rcases hhigh with rfl | rfl
    · exact absurd hu (by decide)
    · exact absurd hu (by decide)
  · intro hu
    have hiff : v.High ∨ v.Undefined ↔ v.High := or_iff_left hu
    refine ⟨?_, fun h => ?_, fun h => ?_⟩
    · rw [hret, hval]
      exact (decide_eq_decide.mpr hiff).symm
    · rw [hval] at h
      exact of_decide_eq_true h
    · rw [hret] at h
      exact hiff.mp (of_decide_eq_true h)

/-- A pad of an input, on its first function, with two return paths. -/
def inputPad : IoMux := new 0x7 gpiomodeInput false (.func 0) [] [] 2

/-- A pulled-up pad that nobody else drives. -/
theorem samplers_agree_pulled :
    SamplersAgree inputPad 0
      (GnMixed.resolve GnMixed.volts [GnMixed.ofLogic GnMixed.volts .logicZ,
        GnMixed.ofLogic GnMixed.volts .logicW1]).value :=
  (samplers_agree GnMixed.volts _ rfl rfl rfl).mpr (by decide)

/-- Two drivers in conflict: firmware reads low, the peripheral high. -/
theorem samplers_differ :
    let v := (GnMixed.resolve GnMixed.volts [GnMixed.ofLogic GnMixed.volts .logic0,
      GnMixed.ofLogic GnMixed.volts .logic1]).value
    inputPad.getVal v = false ∧ inputPad.returned true v 0 = true ∧ ¬ SamplersAgree inputPad 0 v := by
  refine ⟨by decide, by decide, fun h => ?_⟩
  exact absurd h.same (by decide)

end IoMux

/-! ## §3 — the return path -/

/-- A pad with its value, the levels on its return paths, and the thread that drives them. -/
structure ReturnPath where
  m : IoMux
  pin : GnLogic
  fouts : Nat → Bool
  /-- the pad has changed, or `updatereturn` has been notified, and `drive_return` has not run since -/
  pending : Bool
  /-- time zero is over -/
  late : Bool
  /-- the input was enabled when `drive_return` last ran -/
  sampled : Bool

namespace ReturnPath

/-- The start of simulation, at which the thread runs. -/
def init (m : IoMux) : ReturnPath := ⟨m, .logicX, fun _ => false, true, false, false⟩

/-- A setter of the pad; `set_ie` notifies the thread if the flag changes, and `set_function` if the
function does. -/
def setIe (w : ReturnPath) : ReturnPath :=
  { w with m := w.m.setIe.2, pending := w.pending || w.m.setIe.2.ie != w.m.ie }

def setFunction (w : ReturnPath) (f : GpioFunction) : ReturnPath :=
  { w with
    m := w.m.setFunction f
    pending := w.pending || decide ((w.m.setFunction f).function ≠ w.m.function) }

/-- A turn of `drive_return`. -/
def driveReturn (w : ReturnPath) : ReturnPath :=
  { w with fouts := fun func => w.m.returned w.late w.pin func, pending := false, sampled := w.m.ie }

/-- A call of a setter, a new value of the pad, a turn of the thread, or the end of time zero, when the
thread sleeps. -/
inductive Event where
  | setIe
  | clrIe
  | setOe
  | clrOe
  | setFunction (f : GpioFunction)
  | pin (v : GnLogic)
  | turn
  | later

def step (w : ReturnPath) : Event → ReturnPath
  | .setIe => w.setIe
  | .clrIe => { w with m := w.m.clrIe.2 }
  | .setOe => { w with m := w.m.setOe.2 }
  | .clrOe => { w with m := w.m.clrOe.2 }
  | .setFunction f => w.setFunction f
  | .pin v => { w with pin := v, pending := w.pending || decide (v ≠ w.pin) }
  | .turn => if w.pending then w.driveReturn else w
  | .later => if w.pending then w else { w with late := true }

/-- **The return path has no memory**: after time zero, when the thread sleeps, each return path shows
what the pad, the input enable and the function are now. -/
def Memoryless (w : ReturnPath) : Prop :=
  w.late = true → w.pending = false → ∀ k < w.m.fout,
    w.fouts k = decide (w.m.function = .func k ∧ w.m.ie = true ∧ w.pin.High)

/-- The pad feeds a peripheral. -/
def Feeds (w : ReturnPath) : Prop := ∃ k < w.m.fout, w.m.function = .func k

/-- The thread runs, after time zero, on a pad without a conflict and without an analog level, if it feeds
a peripheral; the input of such a pad is disabled while it is not high, or the thread is due anyway; and
when time zero ends neither of the two has happened since. -/
def Sound (w : ReturnPath) : Event → Prop
  | .turn => w.pending = true → w.late = true → w.m.ie = true → w.Feeds → ¬ w.pin.Undefined
  | .clrIe => w.late = true → w.pending = false → w.m.clrIe.2.ie ≠ w.m.ie → w.Feeds → ¬ w.pin.High
  | .later => w.late = false → w.pending = false → w.sampled = true → w.Feeds →
      ¬ w.pin.Undefined ∧ (w.pin.High → w.m.ie = true)
  | _ => True

/-! ## §4 — the invariant -/

/-- While the thread sleeps the paths show its last sample, and an enabled input was sampled; after time
zero the sample was of a pad that has not changed its meaning since. -/
structure Shows (w : ReturnPath) : Prop where
  paths : w.pending = false → ∀ k, w.fouts k =
    (decide (w.m.function = .func k) && (w.sampled && decide (w.pin.High ∨ w.pin.Undefined)))
  enabled : w.pending = false → w.m.ie = true → w.sampled = true
  meant : w.late = true → w.pending = false → w.sampled = true → w.Feeds →
    ¬ w.pin.Undefined ∧ (w.pin.High → w.m.ie = true)

variable {w : ReturnPath}

theorem shows_init (m : IoMux) : Shows (init m) where
  paths h := nomatch h
  enabled h := nomatch h
  meant _ h := nomatch h

/-- A state in which the thread is due. -/
theorem shows_of_pending (h : w.pending = true) : Shows w where
  paths hp := absurd (h.symm.trans hp) Bool.noConfusion
  enabled hp := absurd (h.symm.trans hp) Bool.noConfusion
  meant _ hp := absurd (h.symm.trans hp) Bool.noConfusion

theorem Shows.memoryless (h : Shows w) : w.Memoryless := by
  intro hlate hsleep k hk
  rw [h.paths hsleep k]
  by_cases hf : w.m.function = .func k
  · rw [decide_eq_true hf, Bool.true_and]
    cases hs : w.sampled with
    | false =>
      -- an input enabled now would have been sampled
      have hie : w.m.ie ≠ true := fun hie => by
        have hen := h.enabled hsleep hie
        rw [hs] at hen
        cases hen
      exact (decide_eq_false fun hall => hie hall.2.1).symm
    | true =>
      obtain ⟨hdef, hhigh⟩ := h.meant hlate hsleep hs ⟨k, hk, hf⟩
      rw [Bool.true_and]
      exact decide_eq_decide.mpr
        ⟨fun hor => ⟨hf, hhigh (hor.resolve_right hdef), hor.resolve_right hdef⟩,
          fun hall => Or.inl hall.2.2⟩
  · rw [decide_eq_false hf, Bool.false_and]
    exact (decide_eq_false fun hall => hf hall.1).symm

/-! ## §5 — steps -/

/-- A setter that leaves the function, the return paths and the input enable. -/
theorem Shows.flag (h : Shows w) {m : IoMux} (hf : m.function = w.m.function) (ho : m.fout = w.m.fout)
    (hie : m.ie = w.m.ie) : Shows { w with m := m } where
  paths hp k := by
    show w.fouts k = _
    rw [show ({ w with m := m } : ReturnPath).m.function = w.m.function from hf]
    exact h.paths hp k
  enabled hp hen := h.enabled hp (hie.symm.trans hen)
  meant hl hp hs hfeeds := by
    have hfeeds' : w.Feeds := by
      obtain ⟨k, hk, hk'⟩ := hfeeds
      exact ⟨k, ho ▸ hk, hf.symm.trans hk'⟩
    obtain ⟨hdef, hhigh⟩ := h.meant hl hp hs hfeeds'
    exact ⟨hdef, fun hv => hie.trans (hhigh hv)⟩

/-- The setters of `oe` touch nothing that is returned. -/
theorem setOe_kept (m : IoMux) :
    m.setOe.2.function = m.function ∧ m.setOe.2.fout = m.fout ∧ m.setOe.2.ie = m.ie := by
  unfold IoMux.setOe
  rcases IoMux.request_cases _ m.oe true { m with oe := true, drivePending := true } m with he | he
  · rw [he]
    exact ⟨rfl, rfl, rfl⟩
  · rw [he]
    exact ⟨rfl, rfl, rfl⟩

theorem clrOe_kept (m : IoMux) :
    m.clrOe.2.function = m.function ∧ m.clrOe.2.fout = m.fout ∧ m.clrOe.2.ie = m.ie := by
  unfold IoMux.clrOe
  rcases IoMux.request_cases _ m.oe false { m with oe := false, drivePending := true } m with he | he
  · rw [he]
    exact ⟨rfl, rfl, rfl⟩
  · rw [he]
    exact ⟨rfl, rfl, rfl⟩

theorem setIe_kept (m : IoMux) : m.setIe.2.function = m.function ∧ m.setIe.2.fout = m.fout := by
  unfold IoMux.setIe
  rcases IoMux.request_cases _ m.ie true { m with ie := true } m with he | he
  · rw [he]
    exact ⟨rfl, rfl⟩
  · rw [he]
    exact ⟨rfl, rfl⟩

/-- `clr_ie` either leaves the flag or clears it. -/
theorem clrIe_kept (m : IoMux) : m.clrIe.2.function = m.function ∧ m.clrIe.2.fout = m.fout ∧
    (m.clrIe.2.ie = m.ie ∨ m.clrIe.2.ie = false) := by
  unfold IoMux.clrIe
  rcases IoMux.request_cases _ m.ie false { m with ie := false, drivePending := true } m with he | he
  · rw [he]
    exact ⟨rfl, rfl, Or.inl rfl⟩
  · rw [he]
    exact ⟨rfl, rfl, Or.inr rfl⟩

/-- `set_function` leaves the pad as it is or changes the function. -/
theorem setFunction_same {m : IoMux} {f : GpioFunction} (h : (m.setFunction f).function = m.function) :
    m.setFunction f = m := by
  unfold IoMux.setFunction at h ⊢
  by_cases hf : f = m.function
  · rw [if_pos hf]
  · rw [if_neg hf] at h ⊢
    cases f with
    | gpio => rfl
    | analog =>
      dsimp only at h ⊢
      split at h
      · exact absurd h hf
      · next hno => rw [if_neg hno]
    | func k =>
      dsimp only at h ⊢
      split at h
      · next hno => rw [if_pos hno]
      · exact absurd h hf

/-- `set_ie` wakes the thread if it changes anything. -/
theorem Shows.setIe (h : Shows w) : Shows (w.step .setIe) := by
  obtain ⟨hf, ho⟩ := setIe_kept w.m
  cases hchange : (w.m.setIe.2.ie != w.m.ie) with
  | true =>
    apply shows_of_pending
    show (w.pending || w.m.setIe.2.ie != w.m.ie) = true
    rw [hchange, Bool.or_true]
  | false =>
    have hsame : w.m.setIe.2.ie = w.m.ie := by simpa using hchange
    have hw : w.step .setIe = { w with m := w.m.setIe.2 } := by
      show ({ w with m := w.m.setIe.2, pending := w.pending || w.m.setIe.2.ie != w.m.ie } :
        ReturnPath) = _
      rw [hchange, Bool.or_false]
    rw [hw]
    exact h.flag hf ho hsame

/-- So does `set_function`. -/
theorem Shows.setFunction (h : Shows w) (f : GpioFunction) : Shows (w.step (.setFunction f)) := by
  by_cases hchange : (w.m.setFunction f).function = w.m.function
  · have hw : w.step (.setFunction f) = w := by
      show ({ w with
        m := w.m.setFunction f
        pending := w.pending || decide ((w.m.setFunction f).function ≠ w.m.function) } :
          ReturnPath) = w
      rw [decide_eq_false (not_not.mpr hchange), Bool.or_false, setFunction_same hchange]
    rw [hw]
    exact h
  · apply shows_of_pending
    show (w.pending || decide ((w.m.setFunction f).function ≠ w.m.function)) = true
    rw [decide_eq_true hchange, Bool.or_true]

/-- `clr_ie` does not, and is sound on a pad that is not high. -/
theorem Shows.clrIe (h : Shows w) (hok : w.Sound .clrIe) : Shows (w.step .clrIe) := by
  obtain ⟨hf, ho, hie⟩ := clrIe_kept w.m
  by_cases hchange : w.m.clrIe.2.ie = w.m.ie
  · exact h.flag hf ho hchange
  · -- nobody is notified, so the paths keep the sample of the enabled input
    have hoff : w.m.clrIe.2.ie = false := hie.resolve_left hchange
    refine ⟨fun hp k => ?_, fun _ hen => ?_, fun hl hp hs hfeeds => ?_⟩
    · show w.fouts k = (decide (w.m.clrIe.2.function = .func k) && _)
      rw [hf]
      exact h.paths hp k
    · exact absurd (hoff.symm.trans hen) Bool.noConfusion
    · have hfeeds' : w.Feeds := by
        obtain ⟨k, hk, hk'⟩ := hfeeds
        exact ⟨k, ho ▸ hk, hf.symm.trans hk'⟩
      exact ⟨(h.meant hl hp hs hfeeds').1, fun hv => absurd hv (hok hl hp hchange hfeeds')⟩

/-- A turn of the thread. -/
theorem paths_driveReturn (w : ReturnPath) (k : Nat) : w.driveReturn.fouts k =
    (decide (w.m.function = .func k) && (w.m.ie && decide (w.pin.High ∨ w.pin.Undefined))) := by
  show w.m.returned w.late w.pin k = _
  unfold IoMux.returned
  rw [IoMux.returnVal_eq]
  cases w.m.function with
  | analog => rfl
  | gpio => rfl
  | func j =>
    by_cases hk : k = j
    · simp [hk]
    · have hne : GpioFunction.func j ≠ .func k := fun he => hk (GpioFunction.func.inj he).symm
      simp [hk, hne]

theorem shows_driveReturn (hp : w.pending = true) (hok : w.Sound .turn) : Shows w.driveReturn where
  paths _ k := paths_driveReturn w k
  enabled _ hen := hen
  meant hl _ hs hfeeds := ⟨hok hp hl hs hfeeds, fun _ => hs⟩

/-- **One step.** -/
theorem Shows.step (h : Shows w) {e : Event} (hok : w.Sound e) : Shows (w.step e) := by
  cases e with
  | setIe => exact h.setIe
  | clrIe => exact h.clrIe hok
  | setOe =>
    obtain ⟨hf, ho, hie⟩ := setOe_kept w.m
    exact h.flag hf ho hie
  | clrOe =>
    obtain ⟨hf, ho, hie⟩ := clrOe_kept w.m
    exact h.flag hf ho hie
  | setFunction f => exact h.setFunction f
  | pin v =>
    by_cases hv : v = w.pin
    · have hw : w.step (.pin v) = w := by
        show ({ w with pin := v, pending := w.pending || decide (v ≠ w.pin) } : ReturnPath) = w
        rw [decide_eq_false (not_not.mpr hv), Bool.or_false, hv]
      rw [hw]
      exact h
    · apply shows_of_pending
      show (w.pending || decide (v ≠ w.pin)) = true
      rw [decide_eq_true hv, Bool.or_true]
  | turn =>
    show Shows (if w.pending then w.driveReturn else w)
    by_cases hp : w.pending = true
    · rw [if_pos hp]
      exact shows_driveReturn hp hok
    · rw [if_neg hp]
      exact h
  | later =>
    show Shows (if w.pending then w else { w with late := true })
    by_cases hp : w.pending = true
    · rw [if_pos hp]
      exact h
    · rw [if_neg hp]
      refine ⟨h.paths, h.enabled, fun _ hsleep hs hfeeds => ?_⟩
      cases hl : w.late with
      | false => exact hok hl hsleep hs hfeeds
      | true => exact h.meant hl hsleep hs hfeeds

/-! ## §6 — steps that are remembered -/

/-- A state after time zero in which the thread sleeps, and the path of the selected function is high
though the input is disabled or the pad is not. -/
theorem not_memoryless {k : Nat} (hl : w.late = true) (hp : w.pending = false) (hk : k < w.m.fout)
    (hhigh : w.fouts k = true) (hno : ¬ (w.m.ie = true ∧ w.pin.High)) : ¬ w.Memoryless := by
  intro h
  have hshown := h hl hp k hk
  rw [hhigh] at hshown
  exact hno (of_decide_eq_true hshown.symm).2

theorem Undefined.not_high {v : GnLogic} (h : v.Undefined) : ¬ v.High := by
  rcases h with rfl | rfl <;> decide

/-- A step that is not sound leaves a level that is not the pad's. -/
theorem Shows.break (h : Shows w) {e : Event} (hbad : ¬ w.Sound e) : ¬ (w.step e).Memoryless := by
  cases e with
  | setIe => exact absurd trivial hbad
  | setOe => exact absurd trivial hbad
  | clrOe => exact absurd trivial hbad
  | setFunction => exact absurd trivial hbad
  | pin => exact absurd trivial hbad
  | turn =>
    unfold Sound at hbad
    push Not at hbad
    obtain ⟨hp, hl, hie, ⟨k, hk, hf⟩, hu⟩ := hbad
    show ¬ (if w.pending then w.driveReturn else w).Memoryless
    rw [if_pos hp]
    -- the sample is not low, so it is taken for high
    refine not_memoryless hl rfl hk ?_ fun hall => Undefined.not_high hu hall.2
    rw [paths_driveReturn, decide_eq_true hf, hie, decide_eq_true (Or.inr hu)]
    rfl
  | clrIe =>
    unfold Sound at hbad
    push Not at hbad
    obtain ⟨hl, hp, hchange, ⟨k, hk, hf⟩, hhigh⟩ := hbad
    obtain ⟨_, ho, hie⟩ := clrIe_kept w.m
    have hoff : w.m.clrIe.2.ie = false := hie.resolve_left hchange
    -- the input was enabled, so the path shows the pad as it was then
    have hon : w.m.ie = true := by
      rw [hoff] at hchange
      exact (Bool.eq_false_or_eq_true _).resolve_right fun hno => hchange hno.symm
    refine @not_memoryless (w.step .clrIe) k hl hp (ho ▸ hk) ?_ fun hall => ?_
    · show w.fouts k = true
      rw [h.paths hp, h.enabled hp hon, decide_eq_true hf, decide_eq_true (Or.inl hhigh)]
      rfl
    · exact absurd (hoff.symm.trans hall.1) Bool.noConfusion
  | later =>
    unfold Sound at hbad
    push Not at hbad
    obtain ⟨_, hp, hs, ⟨k, hk, hf⟩, hno⟩ := hbad
    have hsleep : ¬ w.pending = true := fun hdue => absurd (hp.symm.trans hdue) Bool.noConfusion
    show ¬ (if w.pending then w else { w with late := true }).Memoryless
    rw [if_neg hsleep]
    -- at time zero a conflict is sampled as high too
    have hor : w.pin.High ∨ w.pin.Undefined := by
      by_cases hu : w.pin.Undefined
      · exact Or.inr hu
      · exact Or.inl (hno hu).1
    refine @not_memoryless { w with late := true } k rfl hp hk ?_ fun hall => ?_
    · show w.fouts k = true
      rw [h.paths hp, hs, decide_eq_true hf, decide_eq_true hor]
      rfl
    · by_cases hu : w.pin.Undefined
      · exact Undefined.not_high hu hall.2
      · exact (hno hu).2 hall.1

/-! ## §7 — runs -/

/-- **The return path has no memory exactly as long as every step is sound**: for any pad, and every
sequence of calls, changes of the pad and turns of the thread. -/
theorem return_path (m : IoMux) (es : List Event) :
    Always (fun _ w => w.Memoryless) ReturnPath.step [] (init m) es ↔
      Throughout Sound ReturnPath.step (init m) es := by
  refine always_iff_of_invariant (I := fun _ (w : ReturnPath) => w.Shows) ?_ ?_ ?_ es [] _ (shows_init m)
  · intro _ w h
    exact h.memoryless
  · intro _ w e h hok
    exact h.step hok
  · intro _ w e h hbad
    exact h.break hbad

/-- An input that is high, and then disabled. -/
def disabled : List Event := [.pin .logic1, .turn, .later, .clrIe]

/-- The peripheral goes on seeing it. -/
theorem disabled_feeds :
    let w := disabled.foldl step (init IoMux.inputPad)
    w.m.ie = false ∧ w.pending = false ∧ w.fouts 0 = true ∧
      ¬ Always (fun _ w => w.Memoryless) step [] (init IoMux.inputPad) disabled := by
  refine ⟨by decide, by decide, by decide, fun h => ?_⟩
  exact @not_memoryless (disabled.foldl step (init IoMux.inputPad)) 0 (by decide) (by decide) (by decide)
    (by decide) (by decide) h.last

end ReturnPath

end Espmod.Gpio
