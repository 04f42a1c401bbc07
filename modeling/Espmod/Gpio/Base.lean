/-
# Espmod.Gpio.Base — the pads of the simpler blocks, and the direction they store

`gpio_base` keeps the direction of a pad in one field, and the pulls and the open drain in three flags.
A direction and a mode have the same codes. `set_mode` takes the direction out of the mode word and
hands it to `set_dir`, except in the default branch of its switch, the one of `GPIOMODE_NONE`: there it
casts the whole word, flags and all, and `set_dir` stores that in turn from the default branch of its
own. `get_mode` has a default branch as well, so that the mode reads back as it should.
-/
import Espmod.Gpio.ModeChange
import Espmod.Lib.Run

namespace Espmod.Gpio

open Espmod.Lib

/-! ## §1 — the block -/

/-- The enumerators of `gpio_dir_t`. -/
inductive GpioDir where
  | none
  | input
  | output
  | inout
  | invalid
deriving Repr, DecidableEq

def GpioDir.word : GpioDir → BitVec 32
  | none => gpiomodeNone
  | input => gpiomodeInput
  | output => gpiomodeOutput
  | inout => gpiomodeInout
  | invalid => 0

/-- `gpio_base`. `dir` holds whatever was cast to a `gpio_dir_t`; `drivePending` says that
`updatedriver` has been notified. -/
structure GpioBase where
  pindrive : Bool
  driveok : Bool
  wpu : Bool
  wpd : Bool
  od : Bool
  dir : BitVec 32
  modes : BitVec 32
  drivePending : Bool
deriving Repr, DecidableEq

namespace GpioBase

/-- The check of `set_init_mode`. -/
def initAccepted (modes newmode : BitVec 32) : Bool :=
  modes &&& gpiomodeDir newmode != 0 &&
    flagAllowed modes gpiomodeWpu gpiomodeNowpu (has newmode gpiomodeWpu) &&
    flagAllowed modes gpiomodeWpd gpiomodeNowpd (has newmode gpiomodeWpd) &&
    flagAllowed modes gpiomodeOd gpiomodeNood (has newmode gpiomodeOd)

/-- `set_init_mode`. -/
def setInitMode (newmode : BitVec 32) (b : GpioBase) : GpioBase :=
  if !initAccepted b.modes newmode then b
  else { b with
    wpu := has newmode gpiomodeWpu
    wpd := has newmode gpiomodeWpd
    od := has newmode gpiomodeOd
    dir :=
      if gpiomodeDir newmode = gpiomodeNone then GpioDir.none.word
      else if gpiomodeDir newmode = gpiomodeInput then GpioDir.input.word
      else if gpiomodeDir newmode = gpiomodeOutput then GpioDir.output.word
      else GpioDir.inout.word }

/-- The mode that `set_dir` checks: `GPIOMODE_NONE` for `GPIODIR_NONE` and for every other code. -/
def dirMode (newdir : BitVec 32) : BitVec 32 :=
  if newdir = GpioDir.input.word then gpiomodeInput
  else if newdir = GpioDir.output.word then gpiomodeOutput
  else if newdir = GpioDir.inout.word then gpiomodeInout
  else gpiomodeNone

/-- `set_dir`. -/
def setDir (newdir : BitVec 32) (b : GpioBase) : Bool × GpioBase :=
  if b.dir = newdir then (true, b)
  else if !has b.modes (dirMode newdir) then (false, b)
  else (true, { b with dir := newdir, drivePending := true })

/-- The shape of the flag setters. -/
def request (allowed : Bool) (cur want : Bool) (put b : GpioBase) : Bool × GpioBase :=
  if allowed then (if cur = want then (true, b) else (true, put)) else (false, b)

/-- `set_wpu` and `clr_wpu`. -/
def askWpu (on : Bool) (b : GpioBase) : Bool × GpioBase :=
  request (flagAllowed b.modes gpiomodeWpu gpiomodeNowpu on) b.wpu on
    { b with wpu := on, drivePending := true } b

/-- `set_wpd` and `clr_wpd`. -/
def askWpd (on : Bool) (b : GpioBase) : Bool × GpioBase :=
  request (flagAllowed b.modes gpiomodeWpd gpiomodeNowpd on) b.wpd on
    { b with wpd := on, drivePending := true } b

/-- `set_od` and `clr_od`. -/
def askOd (on : Bool) (b : GpioBase) : Bool × GpioBase :=
  request (flagAllowed b.modes gpiomodeOd gpiomodeNood on) b.od on
    { b with od := on, drivePending := true } b

/-- What `set_mode` hands to `set_dir`. -/
def castDir (newmode : BitVec 32) : BitVec 32 :=
  if gpiomodeDir newmode = gpiomodeInput then GpioDir.input.word
  else if gpiomodeDir newmode = gpiomodeOutput then GpioDir.output.word
  else if gpiomodeDir newmode = gpiomodeInout then GpioDir.inout.word
  else newmode

/-- `set_mode`. -/
def setMode (newmode : BitVec 32) (b : GpioBase) : Bool × GpioBase :=
  let r₁ := b.setDir (castDir newmode)
  let r₂ := r₁.2.askWpu (has newmode gpiomodeWpu)
  let r₃ := r₂.2.askWpd (has newmode gpiomodeWpd)
  let r₄ := r₃.2.askOd (has newmode gpiomodeOd)
  (r₁.1 && r₂.1 && r₃.1 && r₄.1, r₄.2)

/-- The direction `get_mode` makes of what is stored. -/
def modeDir (dir : BitVec 32) : BitVec 32 :=
  if dir = GpioDir.inout.word then gpiomodeInout
  else if dir = GpioDir.input.word then gpiomodeInput
  else if dir = GpioDir.output.word then gpiomodeOutput
  else gpiomodeNone

/-- `get_mode`. -/
def getMode (b : GpioBase) : BitVec 32 :=
  let mode := modeDir b.dir
  let mode := if b.wpu then mode ||| gpiomodeWpu else mode
  let mode := if b.wpd then mode ||| gpiomodeWpd else mode
  if b.od then mode ||| gpiomodeOd else mode

/-- `set_val`. -/
def setVal (newval : Bool) (b : GpioBase) : GpioBase := { b with pindrive := newval, drivePending := true }

/-! ## §2 — what the calls do -/

/-- The calls leave the permitted modes and the level to drive alone. -/
structure SameDrive (b c : GpioBase) : Prop where
  modes : c.modes = b.modes
  driveok : c.driveok = b.driveok
  pindrive : c.pindrive = b.pindrive

variable {b : GpioBase}

theorem request_cases (allowed cur want : Bool) (put b : GpioBase) :
    request allowed cur want put b = (false, b) ∨
      (cur = want ∧ request allowed cur want put b = (true, b)) ∨
      request allowed cur want put b = (true, put) := by
  unfold request
  split
  · split
    next h => exact Or.inr (Or.inl ⟨h, rfl⟩)
    next => exact Or.inr (Or.inr rfl)
  · exact Or.inl rfl

theorem setDir_cases (newdir : BitVec 32) (b : GpioBase) :
    b.setDir newdir = (false, b) ∨ (b.dir = newdir ∧ b.setDir newdir = (true, b)) ∨
      b.setDir newdir = (true, { b with dir := newdir, drivePending := true }) := by
  unfold setDir
  split
  next h => exact Or.inr (Or.inl ⟨h, rfl⟩)
  next =>
    split
    · exact Or.inl rfl
    · exact Or.inr (Or.inr rfl)

theorem setDir_dir {newdir : BitVec 32} (h : (b.setDir newdir).1 = true) : (b.setDir newdir).2.dir = newdir := by
  rcases setDir_cases newdir b with hr | ⟨hsame, hr⟩ | hr
  · rw [hr] at h
    exact Bool.noConfusion h
  · rw [hr]
    exact hsame
  · rw [hr]

theorem sameDrive_setDir (newdir : BitVec 32) (b : GpioBase) : SameDrive b (b.setDir newdir).2 := by
  rcases setDir_cases newdir b with hr | ⟨_, hr⟩ | hr <;> rw [hr] <;> exact ⟨rfl, rfl, rfl⟩

/-- One flag is asked for: the others and the direction stay, and it has the value if that is allowed. -/
structure AskedFlag (b : GpioBase) (on : Bool) (flag : GpioBase → Bool) (r : Bool × GpioBase) : Prop where
  same : SameDrive b r.2
  dir : r.2.dir = b.dir
  granted : r.1 = true → flag r.2 = on

section Request

variable {allowed cur want : Bool} {put : GpioBase}

/-- A flag setter changes nothing that its flag is not part of. -/
theorem request_keeps {γ : Type} (g : GpioBase → γ) (hput : g put = g b) :
    g (request allowed cur want put b).2 = g b := by
  rcases request_cases allowed cur want put b with hr | ⟨_, hr⟩ | hr <;> rw [hr]
  exact hput

theorem request_granted (flag : GpioBase → Bool) (hput : flag put = want)
    (h : (request allowed (flag b) want put b).1 = true) :
    flag (request allowed (flag b) want put b).2 = want := by
  rcases request_cases allowed (flag b) want put b with hr | ⟨hsame, hr⟩ | hr <;> rw [hr] at h ⊢
  · exact Bool.noConfusion h
  · exact hsame
  · exact hput

theorem asked_request (flag : GpioBase → Bool) (hsame : SameDrive b put) (hdir : put.dir = b.dir)
    (hput : flag put = want) : AskedFlag b want flag (request allowed (flag b) want put b) where
  same := ⟨request_keeps GpioBase.modes hsame.modes, request_keeps GpioBase.driveok hsame.driveok,
    request_keeps GpioBase.pindrive hsame.pindrive⟩
  dir := request_keeps GpioBase.dir hdir
  granted := request_granted flag hput

end Request

theorem asked_askWpu (on : Bool) (b : GpioBase) :
    AskedFlag b on GpioBase.wpu (b.askWpu on) ∧ (b.askWpu on).2.wpd = b.wpd ∧ (b.askWpu on).2.od = b.od :=
  ⟨asked_request GpioBase.wpu ⟨rfl, rfl, rfl⟩ rfl rfl, request_keeps GpioBase.wpd rfl,
    request_keeps GpioBase.od rfl⟩

theorem asked_askWpd (on : Bool) (b : GpioBase) :
    AskedFlag b on GpioBase.wpd (b.askWpd on) ∧ (b.askWpd on).2.wpu = b.wpu ∧ (b.askWpd on).2.od = b.od :=
  ⟨asked_request GpioBase.wpd ⟨rfl, rfl, rfl⟩ rfl rfl, request_keeps GpioBase.wpu rfl,
    request_keeps GpioBase.od rfl⟩

theorem asked_askOd (on : Bool) (b : GpioBase) :
    AskedFlag b on GpioBase.od (b.askOd on) ∧ (b.askOd on).2.wpu = b.wpu ∧ (b.askOd on).2.wpd = b.wpd :=
  ⟨asked_request GpioBase.od ⟨rfl, rfl, rfl⟩ rfl rfl, request_keeps GpioBase.wpu rfl,
    request_keeps GpioBase.wpd rfl⟩

theorem SameDrive.trans {a b c : GpioBase} (h : SameDrive a b) (h' : SameDrive b c) : SameDrive a c :=
  ⟨h'.modes.trans h.modes, h'.driveok.trans h.driveok, h'.pindrive.trans h.pindrive⟩

/-- `set_mode` stores the direction that `set_dir` does. -/
theorem setMode_dir (newmode : BitVec 32) (b : GpioBase) :
    SameDrive b (b.setMode newmode).2 ∧ (b.setMode newmode).2.dir = (b.setDir (castDir newmode)).2.dir := by
  have hdir := sameDrive_setDir (castDir newmode) b
  unfold setMode
  dsimp only
  generalize b.setDir (castDir newmode) = r₁ at hdir ⊢
  have hwpu := (asked_askWpu (has newmode gpiomodeWpu) r₁.2).1
  generalize r₁.2.askWpu (has newmode gpiomodeWpu) = r₂ at hwpu ⊢
  have hwpd := (asked_askWpd (has newmode gpiomodeWpd) r₂.2).1
  generalize r₂.2.askWpd (has newmode gpiomodeWpd) = r₃ at hwpd ⊢
  have hod := (asked_askOd (has newmode gpiomodeOd) r₃.2).1
  exact ⟨((hdir.trans hwpu.same).trans hwpd.same).trans hod.same,
    (hod.dir.trans hwpd.dir).trans hwpu.dir⟩

/-- **A mode that was granted is the mode.** -/
theorem getMode_setMode {f : Flags} (h : (b.setMode f.word).1 = true) :
    (b.setMode f.word).2.getMode = f.word := by
  have hdecode : ∀ i o u d r : Bool,
      modeDir (castDir (Flags.word ⟨i, o, u, d, r⟩)) = direction i o := by decide
  have hwanted := wanted_word f
  have hu : has f.word gpiomodeWpu = f.wpu := congrArg Flags.wpu hwanted
  have hd : has f.word gpiomodeWpd = f.wpd := congrArg Flags.wpd hwanted
  have hr : has f.word gpiomodeOd = f.od := congrArg Flags.od hwanted
  unfold setMode at h ⊢
  dsimp only at h ⊢
  rw [hu, hd, hr] at h ⊢
  have hdir := @setDir_dir b (castDir f.word)
  generalize b.setDir (castDir f.word) = r₁ at h hdir ⊢
  obtain ⟨hwpu, hkeep₂⟩ := asked_askWpu f.wpu r₁.2
  generalize r₁.2.askWpu f.wpu = r₂ at h hwpu hkeep₂ ⊢
  obtain ⟨hwpd, hkeep₃⟩ := asked_askWpd f.wpd r₂.2
  generalize r₂.2.askWpd f.wpd = r₃ at h hwpd hkeep₃ ⊢
  obtain ⟨hod, hkeep₄⟩ := asked_askOd f.od r₃.2
  generalize r₃.2.askOd f.od = r₄ at h hod hkeep₄ ⊢
  simp only [Bool.and_eq_true] at h
  obtain ⟨⟨⟨h₁, h₂⟩, h₃⟩, h₄⟩ := h
  have hdir' : r₄.2.dir = castDir f.word :=
    ((hod.dir.trans hwpd.dir).trans hwpu.dir).trans (hdir h₁)
  have hwpu' : r₄.2.wpu = f.wpu := (hkeep₄.1.trans hkeep₃.1).trans (hwpu.granted h₂)
  have hwpd' : r₄.2.wpd = f.wpd := hkeep₄.2.trans (hwpd.granted h₃)
  have hod' : r₄.2.od = f.od := hod.granted h₄
  unfold getMode
  rw [hdir', hwpu', hwpd', hod', hdecode f.ie f.oe f.wpu f.wpd f.od]
  rfl

/-! ## §3 — runs -/

/-- A call. Modes have one direction and any of the pulls and the open drain. -/
inductive BaseCall where
  | setMode (mode : Flags)
  | setDir (dir : GpioDir)
  | wpu (on : Bool)
  | wpd (on : Bool)
  | od (on : Bool)
deriving Repr, DecidableEq

/-- The block, and the calls of `set_mode` that have returned true, each with what `get_mode` is then. -/
structure BaseRun where
  base : GpioBase
  granted : List (BitVec 32 × BitVec 32)
deriving Repr, DecidableEq

def BaseRun.step (s : BaseRun) : BaseCall → BaseRun
  | .setMode mode =>
    let r := s.base.setMode mode.word
    ⟨r.2, if r.1 then s.granted ++ [(mode.word, r.2.getMode)] else s.granted⟩
  | .setDir dir => { s with base := (s.base.setDir dir.word).2 }
  | .wpu on => { s with base := (s.base.askWpu on).2 }
  | .wpd on => { s with base := (s.base.askWpd on).2 }
  | .od on => { s with base := (s.base.askOd on).2 }

/-- After construction. `b` is what the fields held before. -/
def BaseRun.init (initial : BitVec 32) (b : GpioBase) : BaseRun := ⟨b.setInitMode initial, []⟩

def directions : List (BitVec 32) :=
  [GpioDir.none.word, GpioDir.input.word, GpioDir.output.word, GpioDir.inout.word]

/-- The stored direction is one of the four, and permitted. -/
def Proper (b : GpioBase) : Prop := b.dir ∈ directions ∧ has b.modes b.dir = true

instance (b : GpioBase) : Decidable b.Proper := inferInstanceAs (Decidable (_ ∧ _))

/-- **The mode is a proper one**, and it is the one that was granted. -/
structure BaseRun.Right (s : BaseRun) : Prop where
  proper : Proper s.base
  granted : ∀ g ∈ s.granted, g.2 = g.1

instance (s : BaseRun) : Decidable s.Right :=
  have : Decidable (∀ g ∈ s.granted, g.2 = g.1) := List.decidableBAll _ _
  decidable_of_iff (Proper s.base ∧ ∀ g ∈ s.granted, g.2 = g.1)
    ⟨fun h => ⟨h.1, h.2⟩, fun h => ⟨h.proper, h.granted⟩⟩

/-- `GPIODIR_INVALID`, or a mode without direction but with a flag, is only asked for where
`GPIOMODE_NONE` is not permitted. -/
def BaseRun.Plain (s : BaseRun) : BaseCall → Prop
  | .setMode mode => direction mode.ie mode.oe = gpiomodeNone → mode.word ≠ gpiomodeNone →
      has s.base.modes gpiomodeNone = false
  | .setDir dir => dir = .invalid → has s.base.modes gpiomodeNone = false
  | _ => True

instance (s : BaseRun) (c : BaseCall) : Decidable (s.Plain c) := by
  cases c <;> unfold BaseRun.Plain <;> infer_instance

/-! ## §4 — the direction -/

theorem dirMode_of_mem {newdir : BitVec 32} (h : newdir ∈ directions) : dirMode newdir = newdir := by
  unfold directions at h
  simp only [List.mem_cons, List.not_mem_nil, or_false] at h
  rcases h with rfl | rfl | rfl | rfl <;> decide

theorem dirMode_of_not_mem {newdir : BitVec 32} (h : newdir ∉ directions) :
    dirMode newdir = gpiomodeNone := by
  unfold dirMode
  rw [if_neg fun hd => h (by rw [hd]; decide), if_neg fun hd => h (by rw [hd]; decide),
    if_neg fun hd => h (by rw [hd]; decide)]

/-- `set_dir` keeps the direction proper, if it is given a direction, or may not set the one that it
takes another code for. -/
theorem Proper.setDir (h : Proper b) {newdir : BitVec 32}
    (hok : newdir ∉ directions → has b.modes gpiomodeNone = false) : Proper (b.setDir newdir).2 := by
  unfold GpioBase.setDir
  split
  next => exact h
  next =>
    split
    next => exact h
    next hallowed =>
      have hallowed : has b.modes (dirMode newdir) = true := by simpa using hallowed
      by_cases hmem : newdir ∈ directions
      · rw [dirMode_of_mem hmem] at hallowed
        exact ⟨hmem, hallowed⟩
      · rw [dirMode_of_not_mem hmem, hok hmem] at hallowed
        exact absurd hallowed Bool.false_ne_true

/-- And otherwise it stores the code as it is. -/
theorem not_proper_setDir (h : Proper b) {newdir : BitVec 32} (hmem : newdir ∉ directions)
    (hnone : has b.modes gpiomodeNone = true) : ¬ Proper (b.setDir newdir).2 := by
  have hne : b.dir ≠ newdir := fun hsame => hmem (hsame ▸ h.1)
  have hset : (b.setDir newdir).2.dir = newdir := by
    unfold GpioBase.setDir
    rw [if_neg hne, dirMode_of_not_mem hmem, hnone]
    rfl
  intro hproper
  exact hmem (hset ▸ hproper.1)

/-- The modes whose word is cast as it is, and is no direction. -/
theorem castDir_mem (f : Flags) :
    castDir f.word ∈ directions ↔ ¬ (direction f.ie f.oe = gpiomodeNone ∧ f.word ≠ gpiomodeNone) := by
  have hall : ∀ i o u d r : Bool, castDir (Flags.word ⟨i, o, u, d, r⟩) ∈ directions ↔
      ¬ (direction i o = gpiomodeNone ∧ Flags.word ⟨i, o, u, d, r⟩ ≠ gpiomodeNone) := by decide
  exact hall f.ie f.oe f.wpu f.wpd f.od

theorem word_mem (d : GpioDir) : d.word ∈ directions ↔ d ≠ .invalid := by
  cases d <;> decide

/-- A block with the same modes and the same direction. -/
theorem Proper.same (h : Proper b) {c : GpioBase} (hmodes : c.modes = b.modes) (hdir : c.dir = b.dir) :
    Proper c := by
  unfold Proper
  rw [hmodes, hdir]
  exact h

/-- An initial mode that is accepted is stored as a direction. -/
theorem proper_init {f₀ : Flags} (h : initAccepted b.modes f₀.word = true) :
    Proper (b.setInitMode f₀.word) := by
  have hdir : ∀ i o : Bool,
      (if direction i o = gpiomodeNone then GpioDir.none.word
        else if direction i o = gpiomodeInput then GpioDir.input.word
        else if direction i o = gpiomodeOutput then GpioDir.output.word
        else GpioDir.inout.word) = direction i o ∧ direction i o ∈ directions := by decide
  have hpermitted : has b.modes (gpiomodeDir f₀.word) = true := by
    unfold initAccepted at h
    simp only [Bool.and_eq_true] at h
    exact h.1.1.1
  have hno : ¬ (!initAccepted b.modes f₀.word) = true := by
    rw [h]
    exact Bool.false_ne_true
  unfold setInitMode
  rw [if_neg hno]
  unfold Proper
  dsimp only
  rw [gpiomodeDir_word] at hpermitted ⊢
  rw [(hdir f₀.ie f₀.oe).1]
  exact ⟨(hdir f₀.ie f₀.oe).2, hpermitted⟩

namespace BaseRun

variable {s : BaseRun}

/-- **One call that meets the condition.** -/
theorem Right.step (h : s.Right) {c : BaseCall} (hok : s.Plain c) : (s.step c).Right := by
  cases c with
  | setMode mode =>
    have hmode := setMode_dir mode.word s.base
    have hproper : Proper (s.base.setDir (castDir mode.word)).2 := by
      refine h.proper.setDir fun hno => ?_
      obtain ⟨hnone, hflag⟩ := not_not.mp (mt (castDir_mem mode).mpr hno)
      exact hok hnone hflag
    refine ⟨hproper.same (hmode.1.modes.trans (sameDrive_setDir _ s.base).modes.symm) hmode.2, ?_⟩
    intro g hg
    have hg : g ∈ if (s.base.setMode mode.word).1 = true then
        s.granted ++ [(mode.word, (s.base.setMode mode.word).2.getMode)] else s.granted := hg
    split at hg
    next hgranted =>
      rcases List.mem_append.mp hg with hold | hnew
      · exact h.granted g hold
      · rw [List.mem_singleton.mp hnew]
        exact getMode_setMode hgranted
    next => exact h.granted g hg
  | setDir dir =>
    refine ⟨h.proper.setDir fun hno => ?_, h.granted⟩
    exact hok (not_not.mp (mt (word_mem dir).mpr hno))
  | wpu on =>
    have hasked := (asked_askWpu on s.base).1
    exact ⟨h.proper.same hasked.same.modes hasked.dir, h.granted⟩
  | wpd on =>
    have hasked := (asked_askWpd on s.base).1
    exact ⟨h.proper.same hasked.same.modes hasked.dir, h.granted⟩
  | od on =>
    have hasked := (asked_askOd on s.base).1
    exact ⟨h.proper.same hasked.same.modes hasked.dir, h.granted⟩

/-- **A call that does not** leaves a direction that is none. -/
theorem Right.broken (h : s.Right) {c : BaseCall} (hbad : ¬ s.Plain c) : ¬ (s.step c).Right := by
  cases c with
  | setMode mode =>
    have hbad : ¬ (direction mode.ie mode.oe = gpiomodeNone → mode.word ≠ gpiomodeNone →
        has s.base.modes gpiomodeNone = false) := hbad
    simp only [Classical.not_imp, Bool.not_eq_false] at hbad
    obtain ⟨hnone, hflag, hpermitted⟩ := hbad
    have hno : castDir mode.word ∉ directions := fun hmem => (castDir_mem mode).mp hmem ⟨hnone, hflag⟩
    have hmode := setMode_dir mode.word s.base
    intro hright
    exact not_proper_setDir h.proper hno hpermitted
      (hright.proper.same ((sameDrive_setDir _ s.base).modes.trans hmode.1.modes.symm) hmode.2.symm)
  | setDir dir =>
    have hbad : ¬ (dir = .invalid → has s.base.modes gpiomodeNone = false) := hbad
    simp only [Classical.not_imp, Bool.not_eq_false] at hbad
    obtain ⟨hinvalid, hpermitted⟩ := hbad
    intro hright
    exact not_proper_setDir h.proper (fun hmem => (word_mem dir).mp hmem hinvalid) hpermitted hright.proper
  | wpu on => exact absurd trivial hbad
  | wpd on => exact absurd trivial hbad
  | od on => exact absurd trivial hbad

/-- **The mode of a block.** From an initial mode that is accepted, the direction is one of the four
and permitted after every call, and every mode that is granted reads back, exactly if no call asks for
`GPIODIR_INVALID` or for flags without a direction where no direction is permitted. -/
theorem mode_stored (b : GpioBase) (f₀ : Flags) (h₀ : initAccepted b.modes f₀.word = true)
    (calls : List BaseCall) :
    Always (fun _ => Right) step [] (init f₀.word b) calls ↔ Throughout Plain step (init f₀.word b) calls := by
  refine always_iff_of_invariant (P := fun _ => Right) (I := fun _ => Right) ?_ ?_ ?_ calls [] _ ?_
  · intro _ s h
    exact h
  · intro _ s c h hok
    exact h.step hok
  · intro _ s c h hbad
    exact h.broken hbad
  · exact ⟨proper_init h₀, (fun _ hg => nomatch hg)⟩

/-- An input with a pull-up, before construction. -/
def pulledInput : GpioBase where
  pindrive := false
  driveok := true
  wpu := false
  wpd := false
  od := false
  dir := 0
  modes := gpiomodeNone ||| gpiomodeInput ||| gpiomodeWpu
  drivePending := false

theorem mode_stored_plain :
    Always (fun _ => Right) step [] (init gpiomodeInput pulledInput)
        [.wpu true, .setDir .none, .setMode ⟨true, false, true, false, false⟩] ↔
      Throughout Plain step (init gpiomodeInput pulledInput)
        [.wpu true, .setDir .none, .setMode ⟨true, false, true, false, false⟩] :=
  mode_stored pulledInput ⟨true, false, false, false, false⟩ (by decide) _

/-- `GPIOMODE_NONE | GPIOMODE_WPU` is granted and reads back, and the direction is `0x11`. -/
theorem direction_cast :
    ¬ Always (fun _ => Right) step [] (init gpiomodeInput pulledInput)
        [.setMode ⟨false, false, true, false, false⟩] ∧
      (([BaseCall.setMode ⟨false, false, true, false, false⟩].foldl step
        (init gpiomodeInput pulledInput)).base.dir = 0x11) := by
  constructor
  · intro h
    have hlast := h.last
    revert hlast
    decide
  · decide

end BaseRun

end GpioBase

end Espmod.Gpio
