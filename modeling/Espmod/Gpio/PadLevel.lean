/-
# Espmod.Gpio.PadLevel — the pad as a function of the configuration

Everything that can happen to one pad is an event: a setter, a function request, a change on a
function input, or one turn of a pending thread. In a settled state the pad should be what the current
flags and inputs alone ask for. It is, as long as no request changes the enable that is configured for
the selected function: `drive_func` is the only thread that computes `driveok`, and `set_oe`,
`clr_oe`, `set_forceoe` and `clr_forceoe` notify `drive` instead, which reads the old one.

The invariant is in two halves. A `drive_func` with nothing pending has copied the present level and
enable and sleeps on the present function; a block with nothing pending shows the copies on its pad.
-/
import Espmod.Gpio.IoMux
import Espmod.Lib.Run

namespace Espmod.Gpio

open Espmod.Lib

/-! ## §1 — events -/

/-- Something that happens to a pad. -/
inductive PadEvent where
  | setIe
  | clrIe
  | setOe
  | clrOe
  | setForceoe
  | clrForceoe
  | setWpu
  | clrWpu
  | setWpd
  | clrWpd
  | setOd
  | clrOd
  | setFunction (f : GpioFunction)
  | fin (k : Nat) (v : Bool)
  | fen (k : Nat) (v : Bool)
  | driveFunc
  | drive
deriving Repr, DecidableEq

namespace IoMux

/-- What the event does. A thread takes its turn only when it is pending. -/
def step (m : IoMux) : PadEvent → IoMux
  | .setIe => m.setIe.2
  | .clrIe => m.clrIe.2
  | .setOe => m.setOe.2
  | .clrOe => m.clrOe.2
  | .setForceoe => m.setForceoe.2
  | .clrForceoe => m.clrForceoe.2
  | .setWpu => m.setWpu.2
  | .clrWpu => m.clrWpu.2
  | .setWpd => m.setWpd.2
  | .clrWpd => m.clrWpd.2
  | .setOd => m.setOd.2
  | .clrOd => m.clrOd.2
  | .setFunction f => m.setFunction f
  | .fin k v => m.finChange k v
  | .fen k v => m.fenChange k v
  | .driveFunc => if m.funcPending then m.driveFunc else m
  | .drive => if m.drivePending then m.drive else m

/-- The pad value the current flags, function and inputs ask for. -/
def configured (m : IoMux) : GnLogic := m.padValue m.funcEnable m.funcLevel

/-! ## §2 — what the setters leave alone -/

/-- `m'` is `m` after a request that touched only flags: what `drive_func` copied and where it sleeps
are as before, and a change of a flag that `drive` reads comes with a notification. -/
structure Adjusted (m m' : IoMux) : Prop where
  modes : m'.modes = m.modes
  anaok : m'.anaok = m.anaok
  function : m'.function = m.function
  fin : m'.fin = m.fin
  fen : m'.fen = m.fen
  watched : m'.watched = m.watched
  driveok : m'.driveok = m.driveok
  pindrive : m'.pindrive = m.pindrive
  funcPending : m'.funcPending = m.funcPending
  pad : m'.pad = m.pad
  notified : m'.drivePending = true ∨
    (m'.drivePending = m.drivePending ∧ m'.wpu = m.wpu ∧ m'.wpd = m.wpd ∧ m'.od = m.od)

theorem Adjusted.refl (m : IoMux) : Adjusted m m :=
  ⟨rfl, rfl, rfl, rfl, rfl, rfl, rfl, rfl, rfl, rfl, Or.inr ⟨rfl, rfl, rfl, rfl⟩⟩

theorem Adjusted.trans {m m' m'' : IoMux} (h : Adjusted m m') (h' : Adjusted m' m'') :
    Adjusted m m'' where
  modes := h'.modes.trans h.modes
  anaok := h'.anaok.trans h.anaok
  function := h'.function.trans h.function
  fin := h'.fin.trans h.fin
  fen := h'.fen.trans h.fen
  watched := h'.watched.trans h.watched
  driveok := h'.driveok.trans h.driveok
  pindrive := h'.pindrive.trans h.pindrive
  funcPending := h'.funcPending.trans h.funcPending
  pad := h'.pad.trans h.pad
  notified := by
    rcases h'.notified with hn | ⟨hp, hu, hd, ho⟩
    · exact Or.inl hn
    · rcases h.notified with hn | ⟨hp', hu', hd', ho'⟩
      · exact Or.inl (hp.trans hn)
      · exact Or.inr ⟨hp.trans hp', hu.trans hu', hd.trans hd', ho.trans ho'⟩

/-- A request does one of two things: nothing, or what it puts. -/
theorem request_cases (allowed : Bool) (cur want : Bool) (put m : IoMux) :
    (request allowed cur want put m).2 = m ∨ (request allowed cur want put m).2 = put := by
  unfold request
  split
  · split
    · exact Or.inl rfl
    · exact Or.inr rfl
  · exact Or.inl rfl

theorem adjusted_request {allowed cur want : Bool} {put m : IoMux} (h : Adjusted m put) :
    Adjusted m (request allowed cur want put m).2 := by
  rcases request_cases allowed cur want put m with he | he
  · rw [he]
    exact Adjusted.refl m
  · rw [he]
    exact h

theorem adjusted_setIe (m : IoMux) : Adjusted m m.setIe.2 :=
  adjusted_request ⟨rfl, rfl, rfl, rfl, rfl, rfl, rfl, rfl, rfl, rfl, Or.inr ⟨rfl, rfl, rfl, rfl⟩⟩

theorem adjusted_clrIe (m : IoMux) : Adjusted m m.clrIe.2 :=
  adjusted_request ⟨rfl, rfl, rfl, rfl, rfl, rfl, rfl, rfl, rfl, rfl, Or.inl rfl⟩

theorem adjusted_setOe (m : IoMux) : Adjusted m m.setOe.2 :=
  adjusted_request ⟨rfl, rfl, rfl, rfl, rfl, rfl, rfl, rfl, rfl, rfl, Or.inl rfl⟩

theorem adjusted_clrOe (m : IoMux) : Adjusted m m.clrOe.2 :=
  adjusted_request ⟨rfl, rfl, rfl, rfl, rfl, rfl, rfl, rfl, rfl, rfl, Or.inl rfl⟩

theorem adjusted_setForceoe (m : IoMux) : Adjusted m m.setForceoe.2 :=
  ⟨rfl, rfl, rfl, rfl, rfl, rfl, rfl, rfl, rfl, rfl, Or.inl rfl⟩

theorem adjusted_clrForceoe (m : IoMux) : Adjusted m m.clrForceoe.2 :=
  ⟨rfl, rfl, rfl, rfl, rfl, rfl, rfl, rfl, rfl, rfl, Or.inl rfl⟩

theorem adjusted_setWpu (m : IoMux) : Adjusted m m.setWpu.2 :=
  adjusted_request ⟨rfl, rfl, rfl, rfl, rfl, rfl, rfl, rfl, rfl, rfl, Or.inl rfl⟩

theorem adjusted_clrWpu (m : IoMux) : Adjusted m m.clrWpu.2 :=
  adjusted_request ⟨rfl, rfl, rfl, rfl, rfl, rfl, rfl, rfl, rfl, rfl, Or.inl rfl⟩

theorem adjusted_setWpd (m : IoMux) : Adjusted m m.setWpd.2 :=
  adjusted_request ⟨rfl, rfl, rfl, rfl, rfl, rfl, rfl, rfl, rfl, rfl, Or.inl rfl⟩

theorem adjusted_clrWpd (m : IoMux) : Adjusted m m.clrWpd.2 :=
  adjusted_request ⟨rfl, rfl, rfl, rfl, rfl, rfl, rfl, rfl, rfl, rfl, Or.inl rfl⟩

theorem adjusted_setOd (m : IoMux) : Adjusted m m.setOd.2 :=
  adjusted_request ⟨rfl, rfl, rfl, rfl, rfl, rfl, rfl, rfl, rfl, rfl, Or.inl rfl⟩

theorem adjusted_clrOd (m : IoMux) : Adjusted m m.clrOd.2 :=
  adjusted_request ⟨rfl, rfl, rfl, rfl, rfl, rfl, rfl, rfl, rfl, rfl, Or.inl rfl⟩

theorem adjusted_setMode (newmode : BitVec 32) (m : IoMux) : Adjusted m (m.setMode newmode).2 := by
  unfold setMode
  dsimp only
  have hie : ∀ (b : Bool) (x : IoMux), Adjusted x (if b then x.setIe else x.clrIe).2 := by
    intro b x
    cases b
    · exact adjusted_clrIe x
    · exact adjusted_setIe x
  have hoe : ∀ (b : Bool) (x : IoMux), Adjusted x (if b then x.setOe else x.clrOe).2 := by
    intro b x
    cases b
    · exact adjusted_clrOe x
    · exact adjusted_setOe x
  have hwpu : ∀ (b : Bool) (x : IoMux), Adjusted x (if b then x.setWpu else x.clrWpu).2 := by
    intro b x
    cases b
    · exact adjusted_clrWpu x
    · exact adjusted_setWpu x
  have hwpd : ∀ (b : Bool) (x : IoMux), Adjusted x (if b then x.setWpd else x.clrWpd).2 := by
    intro b x
    cases b
    · exact adjusted_clrWpd x
    · exact adjusted_setWpd x
  have hod : ∀ (b : Bool) (x : IoMux), Adjusted x (if b then x.setOd else x.clrOd).2 := by
    intro b x
    cases b
    · exact adjusted_clrOd x
    · exact adjusted_setOd x
  exact ((((hie _ m).trans (hoe _ _)).trans (hwpu _ _)).trans (hwpd _ _)).trans (hod _ _)

/-- The flags a request does not name are not the enables. -/
theorem funcEnable_congr {m m' : IoMux} (hf : m'.function = m.function) (hi : m'.fin = m.fin)
    (he : m'.fen = m.fen) (hfo : m'.forceoe = m.forceoe) (hoe : m'.oe = m.oe) :
    m'.funcEnable = m.funcEnable := by
  unfold funcEnable
  rw [hf, hi, he, hfo, hoe]

theorem funcLevel_congr {m m' : IoMux} (hf : m'.function = m.function) (hi : m'.fin = m.fin) :
    m'.funcLevel = m.funcLevel := by
  unfold funcLevel
  rw [hf, hi]

theorem padValue_congr {m m' : IoMux} (hf : m'.function = m.function) (hu : m'.wpu = m.wpu)
    (hd : m'.wpd = m.wpd) (ho : m'.od = m.od) (e l : Bool) : m'.padValue e l = m.padValue e l := by
  unfold padValue
  rw [hf, hu, hd, ho]

/-- A request that changes neither `oe` nor `forceoe`. -/
theorem enables_request {allowed cur want : Bool} {put m : IoMux}
    (h : put.oe = m.oe ∧ put.forceoe = m.forceoe) :
    (request allowed cur want put m).2.oe = m.oe ∧
      (request allowed cur want put m).2.forceoe = m.forceoe := by
  rcases request_cases allowed cur want put m with he | he
  · rw [he]
    exact ⟨rfl, rfl⟩
  · rw [he]
    exact h

/-! ## §3 — the invariant -/

/-- What is true of a pad whenever a thread of it might be looked at. -/
structure Copied (m : IoMux) : Prop where
  /-- a sleeping `drive_func` has copied the present enable and level of the present function -/
  copies : m.funcPending = false →
    m.watched = m.function ∧ m.driveok = m.funcEnable ∧ m.pindrive = m.funcLevel
  /-- with both threads asleep the pad shows the copies -/
  shows : m.drivePending = false → m.funcPending = false → m.pad = m.padValue m.driveok m.pindrive

/-- **A settled pad that kept the invariant shows its configuration.** -/
theorem Copied.configured {m : IoMux} (h : Copied m) (hs : m.Settled) : m.pad = m.configured := by
  obtain ⟨_, hok, hlev⟩ := h.copies hs.2
  rw [h.shows hs.1 hs.2, hok, hlev]
  rfl

/-- With `drive_func` about to run there is nothing to keep. -/
theorem copied_of_pending {m : IoMux} (h : m.funcPending = true) : Copied m where
  copies hf := by rw [h] at hf; cases hf
  shows _ hf := by rw [h] at hf; cases hf

theorem copied_new (optargs initial : BitVec 32) (hasana : Bool) (initialfunc : GpioFunction)
    (fin fen : List Bool) (fout : Nat) :
    Copied (new optargs initial hasana initialfunc fin fen fout) :=
  copied_of_pending rfl

/-- Requests keep the invariant when they leave the configured enable as it was, or when `drive_func`
is about to run anyway. -/
theorem Copied.adjusted {m m' : IoMux} (h : Copied m) (ha : Adjusted m m')
    (hen : m.funcPending = true ∨ m'.funcEnable = m.funcEnable) : Copied m' where
  copies hf := by
    rw [ha.funcPending] at hf
    obtain ⟨hw, hok, hlev⟩ := h.copies hf
    have hen' : m'.funcEnable = m.funcEnable := by
      rcases hen with hp | he
      · rw [hf] at hp
        cases hp
      · exact he
    refine ⟨?_, ?_, ?_⟩
    · rw [ha.watched, ha.function, hw]
    · rw [ha.driveok, hok, hen']
    · rw [ha.pindrive, hlev, funcLevel_congr ha.function ha.fin]
  shows hd hf := by
    rw [ha.funcPending] at hf
    rcases ha.notified with hn | ⟨hp, hu, hwd, ho⟩
    · rw [hn] at hd
      cases hd
    · rw [hp] at hd
      rw [ha.pad, ha.driveok, ha.pindrive, padValue_congr ha.function hu hwd ho]
      exact h.shows hd hf

/-- An accepted function request wakes `drive_func`; a refused one does nothing. -/
theorem Copied.setFunction {m : IoMux} (h : Copied m) (f : GpioFunction) :
    Copied (m.setFunction f) := by
  unfold IoMux.setFunction
  split
  · exact h
  · cases f with
    | gpio => exact h
    | analog =>
      dsimp only
      split
      · exact copied_of_pending rfl
      · exact h
    | func k =>
      dsimp only
      split
      · exact h
      · exact copied_of_pending rfl

/-- The level `drive_func` would copy, when another signal changes or this one does not. -/
theorem funcLevel_finChange {m : IoMux} {k : Nat} {v : Bool}
    (hsame : m.function = .func k → k < m.fin.length → m.fin.getD k false = v) :
    (m.finChange k v).funcLevel = m.funcLevel := by
  unfold funcLevel finChange
  cases hf : m.function with
  | analog => rfl
  | gpio => rfl
  | func j =>
    dsimp only
    rw [List.length_set]
    split
    next hj =>
      by_cases hjk : j = k
      · subst hjk
        have hval := hsame hf hj
        simp [List.getD_eq_getElem?_getD, hj] at hval ⊢
        exact hval.symm
      · simp only [List.getD_eq_getElem?_getD]
        rw [List.getElem?_set_ne (Ne.symm hjk)]
    next => rfl

theorem funcEnable_finChange (m : IoMux) (k : Nat) (v : Bool) :
    (m.finChange k v).funcEnable = m.funcEnable := by
  unfold funcEnable finChange
  cases m.function with
  | analog => rfl
  | gpio => rfl
  | func j =>
    dsimp only
    rw [List.length_set]

theorem funcEnable_fenChange {m : IoMux} {k : Nat} {v : Bool}
    (hsame : m.function = .func k → k < m.fin.length → k < m.fen.length → m.fen.getD k false = v) :
    (m.fenChange k v).funcEnable = m.funcEnable := by
  unfold funcEnable fenChange
  cases hf : m.function with
  | analog => rfl
  | gpio => rfl
  | func j =>
    dsimp only
    split
    next hj =>
      split
      · rfl
      · by_cases hjk : j = k
        · subst hjk
          by_cases hlen : j < m.fen.length
          · have hval := hsame hf hj hlen
            simp [List.getD_eq_getElem?_getD, hlen] at hval ⊢
            exact hval.symm
          · rw [List.set_eq_of_length_le (Nat.le_of_not_lt hlen)]
        · simp only [List.getD_eq_getElem?_getD]
          rw [List.getElem?_set_ne (Ne.symm hjk)]
    next => rfl

/-- A change on a function input either wakes `drive_func` or is not seen by the selected function. -/
theorem Copied.finChange {m : IoMux} (h : Copied m) (k : Nat) (v : Bool) :
    Copied (m.finChange k v) where
  copies hf := by
    have hfp : m.funcPending = false := by
      cases hp : m.funcPending with
      | false => rfl
      | true => simp [IoMux.finChange, hp] at hf
    obtain ⟨hw, hok, hlev⟩ := h.copies hfp
    refine ⟨hw, ?_, ?_⟩
    · show m.driveok = _
      rw [funcEnable_finChange]
      exact hok
    · show m.pindrive = _
      rw [funcLevel_finChange, hlev]
      intro hfun hk
      -- asleep on this very signal, `drive_func` would have been woken by a change of it
      rw [← hw] at hfun
      simp only [IoMux.finChange, hfp, hfun, hk, decide_true, Bool.true_and, Bool.false_or] at hf
      simpa using hf
  shows hd hf := by
    have hfp : m.funcPending = false := by
      cases hp : m.funcPending with
      | false => rfl
      | true => simp [IoMux.finChange, hp] at hf
    exact h.shows hd hfp

theorem Copied.fenChange {m : IoMux} (h : Copied m) (k : Nat) (v : Bool) :
    Copied (m.fenChange k v) where
  copies hf := by
    have hfp : m.funcPending = false := by
      cases hp : m.funcPending with
      | false => rfl
      | true => simp [IoMux.fenChange, hp] at hf
    obtain ⟨hw, hok, hlev⟩ := h.copies hfp
    refine ⟨hw, ?_, hlev⟩
    show m.driveok = _
    rw [funcEnable_fenChange, hok]
    intro hfun hk hk'
    rw [← hw] at hfun
    simp only [IoMux.fenChange, hfp, hfun, hk, hk', decide_true, Bool.true_and, Bool.false_or] at hf
    simpa using hf
  shows hd hf := by
    have hfp : m.funcPending = false := by
      cases hp : m.funcPending with
      | false => rfl
      | true => simp [IoMux.fenChange, hp] at hf
    exact h.shows hd hfp

theorem copied_driveFunc (m : IoMux) : Copied m.driveFunc where
  copies _ := ⟨rfl, rfl, rfl⟩
  shows hd _ := by cases hd

theorem Copied.drive {m : IoMux} (h : Copied m) : Copied m.drive :=
  ⟨fun hf => h.copies hf, fun _ _ => rfl⟩

/-- Settling touches what the threads own and nothing else. -/
theorem settle_eq (m : IoMux) : ∃ d l p dp fp w,
    m.settle = { m with
      driveok := d, pindrive := l, pad := p, drivePending := dp, funcPending := fp, watched := w } := by
  unfold settle
  cases hf : m.funcPending <;> cases hd : m.drivePending <;>
    simp only [hf, hd, IoMux.driveFunc, IoMux.drive, if_true, if_false, Bool.false_eq_true] <;>
    exact ⟨_, _, _, _, _, _, rfl⟩

theorem Copied.settle {m : IoMux} (h : Copied m) : Copied m.settle := by
  have hfunc : Copied (if m.funcPending then m.driveFunc else m) := by
    split
    · exact copied_driveFunc m
    · exact h
  show Copied (if (if m.funcPending then m.driveFunc else m).drivePending then
    (if m.funcPending then m.driveFunc else m).drive else if m.funcPending then m.driveFunc else m)
  generalize (if m.funcPending then m.driveFunc else m) = m₁ at hfunc ⊢
  split
  · exact hfunc.drive
  · exact hfunc

/-! ## §4 — runs -/

/-- The request leaves alone the enable configured for the selected function, or `drive_func` has been
woken already and will read the new one. -/
def Lands (m : IoMux) : PadEvent → Prop
  | .setOe => m.funcPending = true ∨ m.setOe.2.funcEnable = m.funcEnable
  | .clrOe => m.funcPending = true ∨ m.clrOe.2.funcEnable = m.funcEnable
  | .setForceoe => m.funcPending = true ∨ m.setForceoe.2.funcEnable = m.funcEnable
  | .clrForceoe => m.funcPending = true ∨ m.clrForceoe.2.funcEnable = m.funcEnable
  | _ => True

instance (m : IoMux) (e : PadEvent) : Decidable (Lands m e) := by
  unfold Lands
  split <;> infer_instance

/-- A setter of a flag other than the enables. -/
theorem Copied.flag {m m' : IoMux} (h : Copied m) (ha : Adjusted m m')
    (he : m'.oe = m.oe ∧ m'.forceoe = m.forceoe) : Copied m' :=
  h.adjusted ha (Or.inr (funcEnable_congr ha.function ha.fin ha.fen he.2 he.1))

/-- **Every event that lands keeps the invariant.** -/
theorem Copied.step {m : IoMux} (h : Copied m) {e : PadEvent} (hl : Lands m e) :
    Copied (m.step e) := by
  cases e with
  | setIe => exact h.flag (adjusted_setIe m) (enables_request ⟨rfl, rfl⟩)
  | clrIe => exact h.flag (adjusted_clrIe m) (enables_request ⟨rfl, rfl⟩)
  | setOe => exact h.adjusted (adjusted_setOe m) hl
  | clrOe => exact h.adjusted (adjusted_clrOe m) hl
  | setForceoe => exact h.adjusted (adjusted_setForceoe m) hl
  | clrForceoe => exact h.adjusted (adjusted_clrForceoe m) hl
  | setWpu => exact h.flag (adjusted_setWpu m) (enables_request ⟨rfl, rfl⟩)
  | clrWpu => exact h.flag (adjusted_clrWpu m) (enables_request ⟨rfl, rfl⟩)
  | setWpd => exact h.flag (adjusted_setWpd m) (enables_request ⟨rfl, rfl⟩)
  | clrWpd => exact h.flag (adjusted_clrWpd m) (enables_request ⟨rfl, rfl⟩)
  | setOd => exact h.flag (adjusted_setOd m) (enables_request ⟨rfl, rfl⟩)
  | clrOd => exact h.flag (adjusted_clrOd m) (enables_request ⟨rfl, rfl⟩)
  | setFunction f => exact h.setFunction f
  | fin k v => exact h.finChange k v
  | fen k v => exact h.fenChange k v
  | driveFunc =>
    show Copied (if m.funcPending then m.driveFunc else m)
    split
    · exact copied_driveFunc m
    · exact h
  | drive =>
    show Copied (if m.drivePending then m.drive else m)
    split
    · exact h.drive
    · exact h

/-- In a settled state the pad is what the configuration asks for. -/
def ShowsConfiguration (_ : List PadEvent) (m : IoMux) : Prop := m.Settled → m.pad = m.configured

/-- **Pad level.** From the construction of a block on, in every run whose requests all land, every
settled state shows on the pad the value its flags, function and inputs ask for. -/
theorem pad_follows_configuration (optargs initial : BitVec 32) (hasana : Bool)
    (initialfunc : GpioFunction) (fin fen : List Bool) (fout : Nat) (es : List PadEvent)
    (h : Throughout Lands step (new optargs initial hasana initialfunc fin fen fout) es) :
    Always ShowsConfiguration step [] (new optargs initial hasana initialfunc fin fen fout) es := by
  apply always_of_throughout (I := fun _ m => Copied m)
  · intro _ m hm hs
    exact hm.configured hs
  · intro _ m e hm hl
    exact hm.step hl
  · exact copied_new optargs initial hasana initialfunc fin fen fout
  · exact h

/-- A pad with an alternate function that is enabled by its `fen`, driven, and pulled up on the way. -/
theorem pad_follows_configuration_pulled :
    Throughout Lands step (new 0x3f 0x01 false (.func 0) [true] [true] 1)
        [.driveFunc, .drive, .setWpu, .drive, .fen 0 false, .driveFunc, .drive] ∧
      Always ShowsConfiguration step [] (new 0x3f 0x01 false (.func 0) [true] [true] 1)
        [.driveFunc, .drive, .setWpu, .drive, .fen 0 false, .driveFunc, .drive] :=
  ⟨by decide, pad_follows_configuration 0x3f 0x01 false (.func 0) [true] [true] 1 _ (by decide)⟩

/-- Forcing the output enable and then setting it: the pad stays released although the configuration
drives it high. -/
theorem pad_follows_configuration_forced :
    ¬ Always ShowsConfiguration step [] (new 0x3f 0x01 false (.func 0) [true] [false] 1)
        [.driveFunc, .drive, .setForceoe, .drive, .setOe, .drive] := by
  intro h
  have hlast := h.last
  revert hlast
  unfold ShowsConfiguration
  decide

end IoMux

end Espmod.Gpio
