/-
# Espmod.Gpio.ModeChange — what a change of the mode of a pad does

`set_mode` asks for the five flags of a pad one after the other, and each request is checked against the
flags that the ones before it have left. It does not stop at a refusal and does not undo anything. So
its answer depends on a direction in between, the new input flag with the old output flag, and a mode
change that is refused may have changed part of the mode.

What no call can do is leave the pad in a direction that is not permitted: each setter checks the
direction it would lead to.
-/
import Espmod.Gpio.Sound

namespace Espmod.Gpio

open IoMux

/-! ## §1 — modes as flags and as words -/

/-- `GPIOMODE_DIR`. -/
def gpiomodeDir (w : BitVec 32) : BitVec 32 := w &&& 0x000F

/-- The direction of two flags. -/
def direction (ie oe : Bool) : BitVec 32 :=
  if ie && oe then gpiomodeInout
  else if ie then gpiomodeInput
  else if oe then gpiomodeOutput
  else gpiomodeNone

/-- The mode made of these flags: one direction, the pulls and the open drain. -/
def Flags.word (f : Flags) : BitVec 32 :=
  let mode := direction f.ie f.oe
  let mode := if f.wpu then mode ||| gpiomodeWpu else mode
  let mode := if f.wpd then mode ||| gpiomodeWpd else mode
  if f.od then mode ||| gpiomodeOd else mode

namespace IoMux

/-- `get_mode`. -/
def getMode (m : IoMux) : BitVec 32 :=
  let mode :=
    if m.ie && m.oe then gpiomodeInout
    else if m.ie then gpiomodeInput
    else if m.oe then gpiomodeOutput
    else gpiomodeNone
  let mode := if m.wpu then mode ||| gpiomodeWpu else mode
  let mode := if m.wpd then mode ||| gpiomodeWpd else mode
  if m.od then mode ||| gpiomodeOd else mode

theorem getMode_flags (m : IoMux) : m.getMode = m.flags.word := rfl

end IoMux

/-- The flags `set_mode` asks for when it is given a word. -/
def wanted (w : BitVec 32) : Flags where
  ie := has w gpiomodeInput || has w gpiomodeInout
  oe := has w gpiomodeOutput || has w gpiomodeInout
  wpu := has w gpiomodeWpu
  wpd := has w gpiomodeWpd
  od := has w gpiomodeOd

theorem wanted_word (f : Flags) : wanted f.word = f := by
  have hall : ∀ i o u d r : Bool, wanted (Flags.word ⟨i, o, u, d, r⟩) = ⟨i, o, u, d, r⟩ := by decide
  exact hall f.ie f.oe f.wpu f.wpd f.od

theorem gpiomodeDir_word (f : Flags) : gpiomodeDir f.word = direction f.ie f.oe := by
  have hall : ∀ i o u d r : Bool, gpiomodeDir (Flags.word ⟨i, o, u, d, r⟩) = direction i o := by decide
  exact hall f.ie f.oe f.wpu f.wpd f.od

/-! ## §2 — the calls -/

/-- A call that changes the mode. -/
inductive ModeCall where
  | setMode (w : BitVec 32)
  | ie (on : Bool)
  | oe (on : Bool)
  | wpu (on : Bool)
  | wpd (on : Bool)
  | od (on : Bool)
deriving Repr, DecidableEq

namespace IoMux

/-- `set_ie` or `clr_ie`, and so on. -/
def askIe (on : Bool) (m : IoMux) : Bool × IoMux := if on then m.setIe else m.clrIe

def askOe (on : Bool) (m : IoMux) : Bool × IoMux := if on then m.setOe else m.clrOe

def askWpu (on : Bool) (m : IoMux) : Bool × IoMux := if on then m.setWpu else m.clrWpu

def askWpd (on : Bool) (m : IoMux) : Bool × IoMux := if on then m.setWpd else m.clrWpd

def askOd (on : Bool) (m : IoMux) : Bool × IoMux := if on then m.setOd else m.clrOd

def modeCall (m : IoMux) : ModeCall → IoMux
  | .setMode w => (m.setMode w).2
  | .ie on => (m.askIe on).2
  | .oe on => (m.askOe on).2
  | .wpu on => (m.askWpu on).2
  | .wpd on => (m.askWpd on).2
  | .od on => (m.askOd on).2

/-- `set_mode` by the flags it asks for. -/
theorem setMode_wanted (w : BitVec 32) (m : IoMux) :
    m.setMode w =
      let r₁ := m.askIe (wanted w).ie
      let r₂ := r₁.2.askOe (wanted w).oe
      let r₃ := r₂.2.askWpu (wanted w).wpu
      let r₄ := r₃.2.askWpd (wanted w).wpd
      let r₅ := r₄.2.askOd (wanted w).od
      (r₁.1 && r₂.1 && r₃.1 && r₄.1 && r₅.1, r₅.2) := rfl

end IoMux

/-! ## §3 — one request -/

/-- The permitted modes that a pull or the open drain needs: its own to be set, and no ban to be clear. -/
def flagAllowed (modes allow ban : BitVec 32) (on : Bool) : Bool :=
  if on then has modes allow else !has modes ban

/-- A request is answered by whether it is allowed, and makes the flags `f` if it is. -/
structure AskResult (m : IoMux) (ok : Bool) (f : Flags) (r : Bool × IoMux) : Prop where
  answer : r.1 = ok
  modes : r.2.modes = m.modes
  flags : r.2.flags = if ok then f else m.flags

section Requests

variable {m : IoMux}

/-- `f` is the flags of the pad by the one asked for. -/
theorem asked_request (f : Bool → Flags) {allowed ok cur want : Bool} {put : IoMux} (hok : allowed = ok)
    (hmodes : put.modes = m.modes) (hput : put.flags = f want) (hcur : m.flags = f cur) :
    AskResult m ok (f want) (request allowed cur want put m) where
  answer := (request_fst allowed cur want put m).trans hok
  modes := modes_request hmodes
  flags := by
    rw [flags_request fun hsame => by rw [hput, hcur, hsame], hok, hput]

/-- The check of a direction, by the flag that stays. -/
theorem stays_or (modes a b : BitVec 32) (stays : Bool) :
    (!stays && has modes a || stays && has modes b) = has modes (if stays then b else a) := by
  cases stays with
  | true => exact Bool.false_or _
  | false => exact Bool.or_false _

theorem asked_askIe (m : IoMux) (on : Bool) :
    AskResult m (has m.modes (direction on m.oe)) { m.flags with ie := on } (m.askIe on) := by
  cases on
  all_goals
    -- the two answers check the same direction, by the output enable
    refine asked_request (fun b => { m.flags with ie := b }) ?_ rfl rfl rfl
    rw [stays_or]
    cases m.oe <;> rfl

theorem asked_askOe (m : IoMux) (on : Bool) :
    AskResult m (has m.modes (direction m.ie on)) { m.flags with oe := on } (m.askOe on) := by
  cases on
  all_goals
    refine asked_request (fun b => { m.flags with oe := b }) ?_ rfl rfl rfl
    rw [stays_or]
    cases m.ie <;> rfl

theorem asked_askWpu (m : IoMux) (on : Bool) :
    AskResult m (flagAllowed m.modes gpiomodeWpu gpiomodeNowpu on) { m.flags with wpu := on }
      (m.askWpu on) := by
  cases on <;> exact asked_request (fun b => { m.flags with wpu := b }) rfl rfl rfl rfl

theorem asked_askWpd (m : IoMux) (on : Bool) :
    AskResult m (flagAllowed m.modes gpiomodeWpd gpiomodeNowpd on) { m.flags with wpd := on }
      (m.askWpd on) := by
  cases on <;> exact asked_request (fun b => { m.flags with wpd := b }) rfl rfl rfl rfl

theorem asked_askOd (m : IoMux) (on : Bool) :
    AskResult m (flagAllowed m.modes gpiomodeOd gpiomodeNood on) { m.flags with od := on } (m.askOd on) := by
  cases on <;> exact asked_request (fun b => { m.flags with od := b }) rfl rfl rfl rfl

/-- What a request leaves, by what it has found. -/
theorem AskResult.leaves {modes : BitVec 32} {now new f : Flags} {ok : Bool} {r : Bool × IoMux}
    (h : AskResult m ok f r) (hmodes : m.modes = modes) (hflags : m.flags = now)
    (hnew : (if ok then f else now) = new) : r.1 = ok ∧ r.2.modes = modes ∧ r.2.flags = new := by
  refine ⟨h.answer, h.modes.trans hmodes, ?_⟩
  rw [h.flags, hflags]
  exact hnew

end Requests

/-! ## §4 — `set_mode` -/

/-- `set_mode` is granted the flags `f` by a pad whose flags are `now`: the direction in between and the
direction asked for are permitted, and so is each of the other flags. -/
structure Granted (modes : BitVec 32) (now f : Flags) : Prop where
  between : has modes (direction f.ie now.oe) = true
  direction : has modes (direction f.ie f.oe) = true
  wpu : flagAllowed modes gpiomodeWpu gpiomodeNowpu f.wpu = true
  wpd : flagAllowed modes gpiomodeWpd gpiomodeNowpd f.wpd = true
  od : flagAllowed modes gpiomodeOd gpiomodeNood f.od = true

/-- Each flag is as it was or as it was asked for. -/
structure Partly (now f new : Flags) : Prop where
  ie : new.ie = now.ie ∨ new.ie = f.ie
  oe : new.oe = now.oe ∨ new.oe = f.oe
  wpu : new.wpu = now.wpu ∨ new.wpu = f.wpu
  wpd : new.wpd = now.wpd ∨ new.wpd = f.wpd
  od : new.od = now.od ∨ new.od = f.od

/-- The flags after five requests with these answers. -/
def taken (now f : Flags) (ie oe wpu wpd od : Bool) : Flags where
  ie := if ie then f.ie else now.ie
  oe := if oe then f.oe else now.oe
  wpu := if wpu then f.wpu else now.wpu
  wpd := if wpd then f.wpd else now.wpd
  od := if od then f.od else now.od

theorem partly_taken (now f : Flags) (ie oe wpu wpd od : Bool) :
    Partly now f (taken now f ie oe wpu wpd od) := by
  have hite : ∀ (c x y : Bool), (if c then y else x) = x ∨ (if c then y else x) = y := by decide
  exact ⟨hite ie _ _, hite oe _ _, hite wpu _ _, hite wpd _ _, hite od _ _⟩

section Taken

variable (now f : Flags) (ie oe wpu wpd od : Bool)

theorem taken_ie : (if ie then { now with ie := f.ie } else now) =
    taken now f ie false false false false := by
  cases ie <;> rfl

theorem taken_oe : (if oe then { taken now f ie false false false false with oe := f.oe } else
    taken now f ie false false false false) = taken now f ie oe false false false := by
  cases oe <;> rfl

theorem taken_wpu : (if wpu then { taken now f ie oe false false false with wpu := f.wpu } else
    taken now f ie oe false false false) = taken now f ie oe wpu false false := by
  cases wpu <;> rfl

theorem taken_wpd : (if wpd then { taken now f ie oe wpu false false with wpd := f.wpd } else
    taken now f ie oe wpu false false) = taken now f ie oe wpu wpd false := by
  cases wpd <;> rfl

theorem taken_od : (if od then { taken now f ie oe wpu wpd false with od := f.od } else
    taken now f ie oe wpu wpd false) = taken now f ie oe wpu wpd od := by
  cases od <;> rfl

variable {now f ie oe wpu wpd od} in
theorem taken_all (h : (ie && oe && wpu && wpd && od) = true) : taken now f ie oe wpu wpd od = f := by
  simp only [Bool.and_eq_true] at h
  obtain ⟨⟨⟨⟨rfl, rfl⟩, rfl⟩, rfl⟩, rfl⟩ := h
  rfl

end Taken

/-- **What `set_mode` does.** The output enable is checked against the input enable that the first
request has left. -/
theorem setMode_spec (m : IoMux) (w : BitVec 32) :
    let f := wanted w
    let ie := has m.modes (direction f.ie m.oe)
    let oe := has m.modes (direction (if ie then f.ie else m.ie) f.oe)
    let wpu := flagAllowed m.modes gpiomodeWpu gpiomodeNowpu f.wpu
    let wpd := flagAllowed m.modes gpiomodeWpd gpiomodeNowpd f.wpd
    let od := flagAllowed m.modes gpiomodeOd gpiomodeNood f.od
    (m.setMode w).1 = (ie && oe && wpu && wpd && od) ∧ (m.setMode w).2.modes = m.modes ∧
      (m.setMode w).2.flags = taken m.flags f ie oe wpu wpd od := by
  rw [setMode_wanted]
  generalize wanted w = f
  intro f' ie oe wpu wpd od
  dsimp only
  have h₁ := asked_askIe m f.ie
  generalize m.askIe f.ie = r₁ at h₁ ⊢
  obtain ⟨ha₁, hm₁, hf₁⟩ := h₁.leaves rfl rfl (taken_ie m.flags f ie)
  have hie : r₁.2.ie = if ie then f.ie else m.ie := congrArg Flags.ie hf₁
  have h₂ := asked_askOe r₁.2 f.oe
  generalize r₁.2.askOe f.oe = r₂ at h₂ ⊢
  rw [hm₁, hie, hf₁] at h₂
  obtain ⟨ha₂, hm₂, hf₂⟩ := h₂.leaves hm₁ hf₁ (taken_oe m.flags f ie oe)
  have h₃ := asked_askWpu r₂.2 f.wpu
  generalize r₂.2.askWpu f.wpu = r₃ at h₃ ⊢
  rw [hm₂, hf₂] at h₃
  obtain ⟨ha₃, hm₃, hf₃⟩ := h₃.leaves hm₂ hf₂ (taken_wpu m.flags f ie oe wpu)
  have h₄ := asked_askWpd r₃.2 f.wpd
  generalize r₃.2.askWpd f.wpd = r₄ at h₄ ⊢
  rw [hm₃, hf₃] at h₄
  obtain ⟨ha₄, hm₄, hf₄⟩ := h₄.leaves hm₃ hf₃ (taken_wpd m.flags f ie oe wpu wpd)
  have h₅ := asked_askOd r₄.2 f.od
  generalize r₄.2.askOd f.od = r₅ at h₅ ⊢
  rw [hm₄, hf₄] at h₅
  obtain ⟨ha₅, hm₅, hf₅⟩ := h₅.leaves hm₄ hf₄ (taken_od m.flags f ie oe wpu wpd od)
  refine ⟨?_, hm₅, hf₅⟩
  rw [ha₁, ha₂, ha₃, ha₄, ha₅]

/-! ## §5 — every history -/

/-- The pad keeps its permitted modes, and is in a direction that is one of them. -/
structure Permitted (modes : BitVec 32) (m : IoMux) : Prop where
  keeps : m.modes = modes
  direction : has modes (direction m.ie m.oe) = true

variable {modes : BitVec 32} {m : IoMux}

/-- A request that leaves a permitted direction if it is granted. -/
theorem Permitted.asked (h : Permitted modes m) {ok : Bool} {f : Flags} {r : Bool × IoMux}
    (hr : AskResult m ok f r) (hdir : ok = true → has modes (Gpio.direction f.ie f.oe) = true) :
    Permitted modes r.2 := by
  refine ⟨hr.modes.trans h.keeps, ?_⟩
  show has modes (Gpio.direction r.2.flags.ie r.2.flags.oe) = true
  rw [hr.flags]
  split
  next hok => exact hdir hok
  next => exact h.direction

theorem Permitted.askIe (h : Permitted modes m) (on : Bool) : Permitted modes (m.askIe on).2 := by
  refine h.asked (asked_askIe m on) fun hok => ?_
  rw [h.keeps] at hok
  exact hok

theorem Permitted.askOe (h : Permitted modes m) (on : Bool) : Permitted modes (m.askOe on).2 := by
  refine h.asked (asked_askOe m on) fun hok => ?_
  rw [h.keeps] at hok
  exact hok

theorem Permitted.askWpu (h : Permitted modes m) (on : Bool) : Permitted modes (m.askWpu on).2 :=
  h.asked (asked_askWpu m on) fun _ => h.direction

theorem Permitted.askWpd (h : Permitted modes m) (on : Bool) : Permitted modes (m.askWpd on).2 :=
  h.asked (asked_askWpd m on) fun _ => h.direction

theorem Permitted.askOd (h : Permitted modes m) (on : Bool) : Permitted modes (m.askOd on).2 :=
  h.asked (asked_askOd m on) fun _ => h.direction

/-- **One call.** -/
theorem Permitted.modeCall (h : Permitted modes m) (c : ModeCall) : Permitted modes (m.modeCall c) := by
  cases c with
  | setMode w =>
    show Permitted modes (m.setMode w).2
    rw [setMode_wanted]
    exact ((((h.askIe _).askOe _).askWpu _).askWpd _).askOd _
  | ie on => exact h.askIe on
  | oe on => exact h.askOe on
  | wpu on => exact h.askWpu on
  | wpd on => exact h.askWpd on
  | od on => exact h.askOd on

/-- **A run of calls.** -/
theorem Permitted.modeCalls (h : Permitted modes m) (calls : List ModeCall) :
    Permitted modes (calls.foldl IoMux.modeCall m) :=
  List.foldlRecOn calls IoMux.modeCall h fun _ h c _ => h.modeCall c

/-- A pad that was built with a permitted mode. -/
theorem permitted_new {f₀ : Flags} (h : has modes (gpiomodeDir f₀.word) = true) (hasana : Bool)
    (initialfunc : GpioFunction) (fin fen : List Bool) (fout : Nat) :
    Permitted modes (IoMux.new modes f₀.word hasana initialfunc fin fen fout) := by
  refine ⟨rfl, ?_⟩
  show has modes (direction (wanted f₀.word).ie (wanted f₀.word).oe) = true
  rw [wanted_word, ← gpiomodeDir_word]
  exact h

/-- The answer of `set_mode`, on a pad that keeps its permitted modes. -/
theorem Permitted.setMode_iff (h : Permitted modes m) (f : Flags) :
    (m.setMode f.word).1 = true ↔ Granted modes m.flags f := by
  have hanswer := (setMode_spec m f.word).1
  rw [wanted_word, h.keeps] at hanswer
  rw [hanswer]
  simp only [Bool.and_eq_true]
  constructor
  · rintro ⟨⟨⟨⟨hie, hoe⟩, hwpu⟩, hwpd⟩, hod⟩
    -- the first request was granted, so that the second is about the input enable asked for
    rw [if_pos hie] at hoe
    exact ⟨hie, hoe, hwpu, hwpd, hod⟩
  · intro hg
    have hie : has modes (Gpio.direction f.ie m.oe) = true := hg.between
    rw [if_pos hie]
    exact ⟨⟨⟨⟨hie, hg.direction⟩, hg.wpu⟩, hg.wpd⟩, hg.od⟩

/-- A mode that was granted is the mode. -/
theorem getMode_setMode (m : IoMux) {f : Flags} (h : (m.setMode f.word).1 = true) :
    (m.setMode f.word).2.getMode = f.word := by
  obtain ⟨hanswer, _, hflags⟩ := setMode_spec m f.word
  rw [h] at hanswer
  rw [getMode_flags, hflags, taken_all hanswer.symm, wanted_word]

/-- **Mode changes.** After any calls, the direction is permitted. `set_mode` with a mode returns true
exactly if the mode is permitted and so is the direction in between, and the pad then has the mode;
otherwise it may have taken a part of it. -/
theorem mode_changes (modes : BitVec 32) (f₀ : Flags) (h₀ : has modes (gpiomodeDir f₀.word) = true)
    (hasana : Bool) (initialfunc : GpioFunction) (fin fen : List Bool) (fout : Nat)
    (calls : List ModeCall) :
    let m := calls.foldl modeCall (IoMux.new modes f₀.word hasana initialfunc fin fen fout)
    has modes (gpiomodeDir m.getMode) = true ∧
      ∀ f : Flags, ((m.setMode f.word).1 = true ↔ Granted modes m.flags f) ∧
        ((m.setMode f.word).1 = true → (m.setMode f.word).2.getMode = f.word) ∧
        ((m.setMode f.word).1 = false → Partly m.flags f (m.setMode f.word).2.flags) := by
  intro m
  have hm : Permitted modes m := (permitted_new h₀ hasana initialfunc fin fen fout).modeCalls calls
  refine ⟨?_, fun f => ⟨hm.setMode_iff f, getMode_setMode m, fun _ => ?_⟩⟩
  · rw [getMode_flags, gpiomodeDir_word]
    exact hm.direction
  · rw [(setMode_spec m f.word).2.2, wanted_word]
    exact partly_taken m.flags f _ _ _ _ _

/-- The flags of an input. -/
def inputFlags : Flags := ⟨true, false, false, false, false⟩

/-- An input, on a pad with these permitted modes. -/
def inputPad (modes : BitVec 32) : IoMux := .new modes inputFlags.word true .gpio [] [] 0

/-- A pad for input only. -/
theorem mode_changes_inputOnly :
    has (gpiomodeNone ||| gpiomodeInput) (gpiomodeDir ([ModeCall.ie false, .setMode 2].foldl modeCall
      (inputPad (gpiomodeNone ||| gpiomodeInput))).getMode) = true :=
  (mode_changes _ inputFlags (by decide) true .gpio [] [] 0 [.ie false, .setMode 2]).1

/-- An input that is asked to be an output. Where it cannot be one, it is no input either afterwards;
where it can, it stays an input, if it cannot be neither of the two in between. -/
theorem mode_lost :
    ((inputPad (gpiomodeNone ||| gpiomodeInput)).getMode = gpiomodeInput ∧
        ((inputPad (gpiomodeNone ||| gpiomodeInput)).setMode gpiomodeOutput).1 = false ∧
        ((inputPad (gpiomodeNone ||| gpiomodeInput)).setMode gpiomodeOutput).2.getMode = gpiomodeNone) ∧
      has (gpiomodeInput ||| gpiomodeOutput) gpiomodeOutput = true ∧
        ((inputPad (gpiomodeInput ||| gpiomodeOutput)).setMode gpiomodeOutput).1 = false := by
  decide

end Espmod.Gpio
