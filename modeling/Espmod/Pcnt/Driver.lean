/-
# Espmod.Pcnt.Driver — the driver's calls and the module's signals

Every setting of the driver stores into the struct `PCNT`, and most call `update_pcnt` afterwards,
which notifies `updateth` and waits for a clock edge. By then `updateth` has run and the delta cycle is
over, so when such a call returns the module's signals carry what the struct does.

`pcnt_filter_enable` and `pcnt_filter_disable` store the enable bit of the filter and return. So the
two views stay the same exactly as long as these two find the bit as they would leave it.
-/
import Espmod.Gpio.Board
import Espmod.Lib.Run
import Espmod.Pcnt.Limits
import Espmod.Pcnt.Module

namespace Espmod.Pcnt

open Espmod.Lib

/-! ## §1 — stores -/

/-- A bit field of a register struct is assigned. -/
def wrfield (w : BitVec 32) (f : Field) (x : BitVec 32) : BitVec 32 :=
  (w &&& ~~~(f.v <<< f.s)) ||| ((x &&& f.v) <<< f.s)

namespace PcntDev

/-- `PCNT.conf_unit[unit].conf0` is changed. -/
def onConf0 (unit : Nat) (f : BitVec 32 → BitVec 32) (p : PcntDev) : PcntDev :=
  { p with conf0 := fun i => if i.val = unit then f (p.conf0 i) else p.conf0 i }

def onConf1 (unit : Nat) (f : BitVec 32 → BitVec 32) (p : PcntDev) : PcntDev :=
  { p with conf1 := fun i => if i.val = unit then f (p.conf1 i) else p.conf1 i }

def onConf2 (unit : Nat) (f : BitVec 32 → BitVec 32) (p : PcntDev) : PcntDev :=
  { p with conf2 := fun i => if i.val = unit then f (p.conf2 i) else p.conf2 i }

end PcntDev

/-- What a driver call does between two waits: it stores, and then it calls `update_pcnt` or not. -/
structure Stretch where
  store : PcntDev → PcntDev
  push : Bool

/-! ## §2 — the calls -/

def pcntUnitMax : Nat := 8
def pcntChannelMax : Nat := 2
def pcntCountMax : Nat := 3
def pcntModeMax : Nat := 3

/-- `BIT`. -/
def bit (nr : Nat) : BitVec 32 := (1 : BitVec 32) <<< nr

/-- `pcnt_evt_type_t`. -/
inductive PcntEvt where
  | lLim
  | hLim
  | thres0
  | thres1
  | zero
  | max
deriving Repr, DecidableEq

/-- `pcnt_config_t`. -/
structure PcntConfig where
  pulseGpioNum : Int
  ctrlGpioNum : Int
  lctrlMode : Nat
  hctrlMode : Nat
  posMode : Nat
  negMode : Nat
  counterHLim : BitVec 16
  counterLLim : BitVec 16
  unit : Nat
  channel : Nat

/-- `pcnt_set_mode`; `none` is a failed check. -/
def pcntSetMode (unit channel posMode negMode hctrlMode lctrlMode : Nat) : Option (List Stretch) :=
  if ¬ unit < pcntUnitMax then none
  else if ¬ channel < pcntChannelMax then none
  else if ¬ (posMode < pcntCountMax ∧ negMode < pcntCountMax) then none
  else if ¬ (hctrlMode < pcntModeMax ∧ lctrlMode < pcntModeMax) then none
  else if channel = 0 then
    some [⟨PcntDev.onConf0 unit fun w =>
      wrfield (wrfield (wrfield (wrfield w pcntCh0PosMode posMode) pcntCh0NegMode negMode)
        pcntCh0HctrlMode hctrlMode) pcntCh0LctrlMode lctrlMode, true⟩]
  else
    some [⟨PcntDev.onConf0 unit fun w =>
      wrfield (wrfield (wrfield (wrfield w pcntCh1PosMode posMode) pcntCh1NegMode negMode)
        pcntCh1HctrlMode hctrlMode) pcntCh1LctrlMode lctrlMode, true⟩]

/-- `pcnt_set_event_value`. -/
def pcntSetEventValue (unit : Nat) (evtType : PcntEvt) (value : BitVec 16) : Option (List Stretch) :=
  if ¬ unit < pcntUnitMax then none
  else
    match evtType with
    | .max => none
    | .lLim =>
      if 0 < value.toInt then none
      else some [⟨PcntDev.onConf2 unit fun w => wrfield w pcntCntLLim (value.setWidth 32), true⟩]
    | .hLim =>
      if value.toInt < 0 then none
      else some [⟨PcntDev.onConf2 unit fun w => wrfield w pcntCntHLim (value.setWidth 32), true⟩]
    | .thres0 =>
      some [⟨PcntDev.onConf1 unit fun w => wrfield w pcntCntThres0 (value.setWidth 32), true⟩]
    | .thres1 =>
      some [⟨PcntDev.onConf1 unit fun w => wrfield w pcntCntThres1 (value.setWidth 32), true⟩]
    | .zero => some [⟨id, true⟩]

/-- The enable bit of an event. -/
def PcntEvt.enable : PcntEvt → Option Field
  | .lLim => some pcntThrLLimEn
  | .hLim => some pcntThrHLimEn
  | .thres0 => some pcntThrThres0En
  | .thres1 => some pcntThrThres1En
  | .zero => some pcntThrZeroEn
  | .max => none

/-- `pcnt_event_enable` and `pcnt_event_disable`, which differ in the bit they store. -/
def pcntEventSet (b : BitVec 32) (unit : Nat) (evtType : PcntEvt) : Option (List Stretch) :=
  if ¬ unit < pcntUnitMax then none
  else evtType.enable.map fun f => [⟨PcntDev.onConf0 unit fun w => wrfield w f b, true⟩]

def pcntEventEnable (unit : Nat) (evtType : PcntEvt) : Option (List Stretch) :=
  pcntEventSet 1 unit evtType

def pcntEventDisable (unit : Nat) (evtType : PcntEvt) : Option (List Stretch) :=
  pcntEventSet 0 unit evtType

/-- `pcnt_set_filter_value`. -/
def pcntSetFilterValue (unit : Nat) (filterVal : BitVec 16) : Option (List Stretch) :=
  if ¬ unit < pcntUnitMax then none
  else if ¬ filterVal.toNat < 1024 then none
  else
    some [⟨PcntDev.onConf0 unit fun w => wrfield w pcntFilterThres (filterVal.setWidth 32), true⟩]

/-- `pcnt_filter_enable` and `pcnt_filter_disable`: the store is all they do. -/
def pcntFilterSet (b : Bool) (unit : Nat) : Option (List Stretch) :=
  if ¬ unit < pcntUnitMax then none
  else some [⟨PcntDev.onConf0 unit fun w => wrfield w pcntFilterEn (if b then 1 else 0), false⟩]

def pcntFilterEnable (unit : Nat) : Option (List Stretch) := pcntFilterSet true unit

def pcntFilterDisable (unit : Nat) : Option (List Stretch) := pcntFilterSet false unit

/-- `pcnt_counter_pause`. -/
def pcntCounterPause (unit : Nat) : Option (List Stretch) :=
  if ¬ unit < pcntUnitMax then none
  else some [⟨fun p => { p with ctrl := p.ctrl ||| bit (1 + unit * 2) }, true⟩]

/-- `pcnt_counter_resume`. -/
def pcntCounterResume (unit : Nat) : Option (List Stretch) :=
  if ¬ unit < pcntUnitMax then none
  else some [⟨fun p => { p with ctrl := p.ctrl &&& ~~~bit (1 + unit * 2) }, true⟩]

/-- `pcnt_counter_clear`: the reset bit is set and cleared again, and pushed each time. -/
def pcntCounterClear (unit : Nat) : Option (List Stretch) :=
  if ¬ unit < pcntUnitMax then none
  else
    some [⟨fun p => { p with ctrl := p.ctrl ||| bit (unit * 2) }, true⟩,
      ⟨fun p => { p with ctrl := p.ctrl &&& ~~~bit (unit * 2) }, true⟩]

/-- `pcnt_intr_enable`. -/
def pcntIntrEnable (unit : Nat) : Option (List Stretch) :=
  if ¬ unit < pcntUnitMax then none
  else some [⟨fun p => { p with intEna := p.intEna ||| bit unit }, true⟩]

/-- `pcnt_intr_disable`. -/
def pcntIntrDisable (unit : Nat) : Option (List Stretch) :=
  if ¬ unit < pcntUnitMax then none
  else some [⟨fun p => { p with intEna := p.intEna &&& ~~~bit unit }, true⟩]

/-- The checks of `pcnt_unit_config`. -/
def PcntConfig.Valid (c : PcntConfig) : Prop :=
  c.unit < pcntUnitMax ∧ c.channel < pcntChannelMax ∧
    (c.pulseGpioNum < 0 ∨
      Gpio.gpioIsValidGpio c.pulseGpioNum.toNat = true ∧ c.pulseGpioNum ≠ c.ctrlGpioNum) ∧
    (c.ctrlGpioNum < 0 ∨ Gpio.gpioIsValidGpio c.ctrlGpioNum.toNat = true) ∧
    (c.posMode < pcntCountMax ∧ c.negMode < pcntCountMax) ∧
    (c.hctrlMode < pcntModeMax ∧ c.lctrlMode < pcntModeMax)

instance (c : PcntConfig) : Decidable c.Valid := inferInstanceAs (Decidable (_ ∧ _))

/-- `pcnt_unit_config`. The results of the calls it makes are ignored; its last one, `pcnt_set_pin`,
does not touch `PCNT`. -/
def pcntUnitConfig (c : PcntConfig) : Option (List Stretch) :=
  if ¬ c.Valid then none
  else
    some ((pcntSetEventValue c.unit .hLim c.counterHLim).getD [] ++
      (pcntSetEventValue c.unit .lLim c.counterLLim).getD [] ++
      (pcntEventDisable c.unit .hLim).getD [] ++
      (pcntEventDisable c.unit .lLim).getD [] ++
      (pcntEventDisable c.unit .zero).getD [] ++
      (pcntFilterDisable c.unit).getD [] ++
      (pcntSetMode c.unit c.channel c.posMode c.negMode c.hctrlMode c.lctrlMode).getD [])

/-- A call of the driver. -/
inductive PcntCall where
  | unitConfig (c : PcntConfig)
  | setMode (unit channel posMode negMode hctrlMode lctrlMode : Nat)
  | setEventValue (unit : Nat) (evtType : PcntEvt) (value : BitVec 16)
  | eventEnable (unit : Nat) (evtType : PcntEvt)
  | eventDisable (unit : Nat) (evtType : PcntEvt)
  | setFilterValue (unit : Nat) (filterVal : BitVec 16)
  | filterEnable (unit : Nat)
  | filterDisable (unit : Nat)
  | counterPause (unit : Nat)
  | counterResume (unit : Nat)
  | counterClear (unit : Nat)
  | intrEnable (unit : Nat)
  | intrDisable (unit : Nat)

def PcntCall.stretches : PcntCall → Option (List Stretch)
  | .unitConfig c => pcntUnitConfig c
  | .setMode unit channel posMode negMode hctrlMode lctrlMode =>
    pcntSetMode unit channel posMode negMode hctrlMode lctrlMode
  | .setEventValue unit evtType value => pcntSetEventValue unit evtType value
  | .eventEnable unit evtType => pcntEventEnable unit evtType
  | .eventDisable unit evtType => pcntEventDisable unit evtType
  | .setFilterValue unit filterVal => pcntSetFilterValue unit filterVal
  | .filterEnable unit => pcntFilterEnable unit
  | .filterDisable unit => pcntFilterDisable unit
  | .counterPause unit => pcntCounterPause unit
  | .counterResume unit => pcntCounterResume unit
  | .counterClear unit => pcntCounterClear unit
  | .intrEnable unit => pcntIntrEnable unit
  | .intrDisable unit => pcntIntrDisable unit

/-! ## §3 — the driver beside the module -/

/-- The module and the thread that calls the driver. -/
structure Driven where
  m : PcntMod
  /-- what the call in progress has yet to do, none when it has returned -/
  todo : Option (List Stretch)
  /-- time has passed since the call began to wait -/
  elapsed : Bool

namespace Driven

open PcntMod (PcntModEvent)

def new (apbPeriod : Nat) : Driven := ⟨.new apbPeriod, none, false⟩

/-- A call runs up to its next wait, or returns. -/
def proceed : List Stretch → PcntMod → Driven
  | [], m => ⟨m, none, false⟩
  | st :: rest, m =>
    let m := { m with pcnt := st.store m.pcnt }
    if st.push then ⟨m.update, some rest, false⟩ else proceed rest m

/-- A driver call begins, the clock edge that it waits for comes, or the module does something. -/
inductive DrivenEvent where
  | call (c : PcntCall)
  | resume
  | mod (e : PcntModEvent)

/-- The edge comes after a time greater than zero. Only the driver stores into the configuration
registers. -/
def step (s : Driven) : DrivenEvent → Driven
  | .call c =>
    match s.todo, c.stretches with
    | none, some sts => proceed sts s.m
    | _, _ => s
  | .resume =>
    match s.todo with
    | some rest => if s.elapsed then proceed rest s.m else s
    | none => s
  | .mod (.store ..) => s
  | .mod (.advance d) =>
    { s with
      m := s.m.step (.advance d)
      elapsed := s.elapsed || (decide (0 < d) && decide (¬ s.m.Busy ∧ s.m.Quiet)) }
  | .mod e => { s with m := s.m.step e }

/-! ## §4 — the two views -/

/-- The configuration signals of the module, seen through `get`, are the registers of the struct. -/
structure Carries (get : Signal (BitVec 32) → BitVec 32) (m : PcntMod) : Prop where
  conf0 : ∀ i, get (m.unit i).conf0 = m.pcnt.conf0 i
  conf1 : ∀ i, get (m.unit i).conf1 = m.pcnt.conf1 i
  conf2 : ∀ i, get (m.unit i).conf2 = m.pcnt.conf2 i
  ctrl : ∀ i, get (m.unit i).ctrl = m.pcnt.ctrl
  intEna : get m.intEna = m.pcnt.intEna

/-- **In step**: what the module's signals carry is what the struct says. -/
def InStep (m : PcntMod) : Prop := Carries Signal.cur m

/-- A call of the filter finds the enable bit as it would leave it. -/
def FiltersAlike (s : Driven) : DrivenEvent → Prop
  | .call (.filterEnable unit) =>
    s.todo = none → ∀ i : Fin 8, i.val = unit → rdfield (s.m.pcnt.conf0 i) pcntFilterEn = 1
  | .call (.filterDisable unit) =>
    s.todo = none → ∀ i : Fin 8, i.val = unit → rdfield (s.m.pcnt.conf0 i) pcntFilterEn = 0
  | _ => True

/-! ## §5 — the enable bit of the filter -/

/-- The enable bit of the filter is bit 10. -/
theorem filterEn_mask (i : Nat) : ((0x1 : BitVec 32) <<< 10).getLsbD i = decide (i = 10) := by
  by_cases hi : i < 32
  · revert i
    decide
  · rw [BitVec.getLsbD_of_ge _ _ (Nat.le_of_not_lt hi)]
    symm
    apply decide_eq_false
    omega

theorem rdfield_filterEn (w : BitVec 32) : rdfield w pcntFilterEn = (w.getLsbD 10).toNat := by
  have h : (w &&& ((0x1 : BitVec 32) <<< 10)) >>> 10 =
      (BitVec.ofBool (w.getLsbD 10)).setWidth 32 := by
    apply BitVec.eq_of_getLsbD_eq
    intro i hi
    rw [BitVec.getLsbD_ushiftRight, BitVec.getLsbD_and, filterEn_mask]
    by_cases h0 : i = 0
    · subst h0
      simp
    · simp [h0]
  show ((w &&& ((0x1 : BitVec 32) <<< 10)) >>> 10).toNat = _
  rw [h]
  cases w.getLsbD 10 <;> rfl

theorem getLsbD_wrfield_filterEn (w : BitVec 32) (b : Bool) {i : Nat} (hi : i < 32) :
    (wrfield w pcntFilterEn (if b then 1 else 0)).getLsbD i = if i = 10 then b else w.getLsbD i := by
  have hmask := filterEn_mask i
  show ((w &&& ~~~((0x1 : BitVec 32) <<< 10)) |||
    (((if b then (1 : BitVec 32) else 0) &&& 0x1) <<< 10)).getLsbD i = _
  rw [BitVec.getLsbD_or, BitVec.getLsbD_and, BitVec.getLsbD_not, hmask]
  cases b with
  | true =>
    have hone : (((if true = true then (1 : BitVec 32) else 0) &&& 0x1) <<< 10).getLsbD i =
        decide (i = 10) := hmask
    rw [hone]
    by_cases h : i = 10 <;> simp [h, hi]
  | false =>
    have hzero : (((if false = true then (1 : BitVec 32) else 0) &&& 0x1) <<< 10) = 0 := by decide
    rw [hzero]
    by_cases h : i = 10 <;> simp [h, hi]

/-- **Storing the bit changes nothing** exactly when it is there already. -/
theorem wrfield_filterEn (w : BitVec 32) (b : Bool) :
    wrfield w pcntFilterEn (if b then 1 else 0) = w ↔ rdfield w pcntFilterEn = b.toNat := by
  rw [rdfield_filterEn]
  constructor
  · intro h
    have hbit := getLsbD_wrfield_filterEn w b (i := 10) (by decide)
    rw [h, if_pos rfl] at hbit
    rw [hbit]
  · intro h
    have hbit : w.getLsbD 10 = b := by
      revert h
      cases w.getLsbD 10 <;> cases b <;> decide
    apply BitVec.eq_of_getLsbD_eq
    intro i hi
    rw [getLsbD_wrfield_filterEn w b hi]
    split
    next h10 => rw [h10, hbit]
    · rfl

/-! ## §6 — the stretches of a call -/

/-- The last stretch ends with `update_pcnt`. -/
def EndsPushed (sts : List Stretch) : Prop := ∀ st ∈ sts.getLast?, st.push = true

/-- There is one, and it does. -/
def Pushes (sts : List Stretch) : Prop := sts ≠ [] ∧ EndsPushed sts

variable {sts : List Stretch} {st : Stretch}

theorem pushes_one (store : PcntDev → PcntDev) : Pushes [⟨store, true⟩] := by
  refine ⟨List.cons_ne_nil _ _, ?_⟩
  rintro st ⟨⟩
  rfl

theorem Pushes.append (h : Pushes sts) (before : List Stretch) : Pushes (before ++ sts) := by
  refine ⟨List.append_ne_nil_of_right_ne_nil _ h.1, ?_⟩
  intro st hst
  rw [List.getLast?_append_of_ne_nil _ h.1] at hst
  exact h.2 st hst

theorem EndsPushed.tail (h : EndsPushed (st :: sts)) : EndsPushed sts := by
  intro last hlast
  apply h
  rw [List.getLast?_cons, Option.mem_def.mp hlast]
  rfl

/-- A call that has passed its check. -/
theorem of_checked {p : Prop} [Decidable p] {l : List Stretch}
    (h : (if ¬ p then none else some l) = some sts) : l = sts := by
  split_ifs at h
  exact Option.some.inj h

theorem pushes_setMode {unit channel posMode negMode hctrlMode lctrlMode : Nat}
    (h : pcntSetMode unit channel posMode negMode hctrlMode lctrlMode = some sts) : Pushes sts := by
  unfold pcntSetMode at h
  split_ifs at h <;> cases h <;> exact pushes_one _

theorem pushes_setEventValue {unit : Nat} {evtType : PcntEvt} {value : BitVec 16}
    (h : pcntSetEventValue unit evtType value = some sts) : Pushes sts := by
  unfold pcntSetEventValue at h
  cases evtType <;> dsimp only at h <;> split_ifs at h <;> cases h <;> exact pushes_one _

theorem pushes_eventSet {b : BitVec 32} {unit : Nat} {evtType : PcntEvt}
    (h : pcntEventSet b unit evtType = some sts) : Pushes sts := by
  unfold pcntEventSet at h
  split_ifs at h
  obtain ⟨f, _, rfl⟩ := Option.map_eq_some_iff.mp h
  exact pushes_one _

/-- The mode is what `pcnt_unit_config` sets last, and its checks are those of the mode. -/
theorem pushes_unitConfig {c : PcntConfig} (h : pcntUnitConfig c = some sts) : Pushes sts := by
  unfold pcntUnitConfig at h
  split_ifs at h with hvalid
  obtain ⟨hunit, hchannel, _, _, hcount, hctrl⟩ := hvalid
  have hmode : ∃ sts', pcntSetMode c.unit c.channel c.posMode c.negMode c.hctrlMode c.lctrlMode =
      some sts' := by
    unfold pcntSetMode
    rw [if_neg (not_not.mpr hunit), if_neg (not_not.mpr hchannel), if_neg (not_not.mpr hcount),
      if_neg (not_not.mpr hctrl)]
    split
    · exact ⟨_, rfl⟩
    · exact ⟨_, rfl⟩
  obtain ⟨sts', hmode⟩ := hmode
  cases h
  rw [hmode]
  exact (pushes_setMode hmode).append _

/-- **Every call but the two of the filter** ends by pushing the struct. -/
theorem pushes_call {c : PcntCall} (hen : ∀ unit, c ≠ .filterEnable unit)
    (hdis : ∀ unit, c ≠ .filterDisable unit) (h : c.stretches = some sts) : Pushes sts := by
  cases c with
  | unitConfig c => exact pushes_unitConfig h
  | setMode unit channel posMode negMode hctrlMode lctrlMode => exact pushes_setMode h
  | setEventValue unit evtType value => exact pushes_setEventValue h
  | eventEnable unit evtType => exact pushes_eventSet h
  | eventDisable unit evtType => exact pushes_eventSet h
  | filterEnable unit => exact absurd rfl (hen unit)
  | filterDisable unit => exact absurd rfl (hdis unit)
  | setFilterValue unit filterVal =>
    have h : pcntSetFilterValue unit filterVal = some sts := h
    unfold pcntSetFilterValue at h
    split_ifs at h
    cases h
    exact pushes_one _
  | counterPause unit => exact of_checked h ▸ pushes_one _
  | counterResume unit => exact of_checked h ▸ pushes_one _
  | counterClear unit => exact of_checked h ▸ (pushes_one _).append [_]
  | intrEnable unit => exact of_checked h ▸ pushes_one _
  | intrDisable unit => exact of_checked h ▸ pushes_one _

/-- A call that pushes in the end is waiting when it stops running, and `updateth` is due. -/
theorem proceed_pushes (h : Pushes sts) (m : PcntMod) :
    (proceed sts m).m.updating = true ∧
      ∃ rest, (proceed sts m).todo = some rest ∧ (proceed sts m).elapsed = false ∧
        EndsPushed rest := by
  induction sts generalizing m with
  | nil => exact absurd rfl h.1
  | cons st rest ih =>
    unfold proceed
    dsimp only
    by_cases hpush : st.push = true
    · rw [if_pos hpush]
      exact ⟨rfl, rest, rfl, rfl, h.2.tail⟩
    · rw [if_neg hpush]
      apply ih
      refine ⟨?_, h.2.tail⟩
      rintro rfl
      exact hpush (h.2 st rfl)

/-! ## §7 — the invariant -/

/-- The configuration signals of a unit. -/
def confOf (u : PcntUnit) : List (Signal (BitVec 32)) := [u.conf0, u.conf1, u.conf2, u.ctrl]

variable {get : Signal (BitVec 32) → BitVec 32} {m m' : PcntMod}

/-- Other signals and other registers do not matter. -/
theorem Carries.frame (h : Carries get m) (hunit : ∀ i, confOf (m'.unit i) = confOf (m.unit i))
    (hena : m'.intEna = m.intEna) (hconf0 : m'.pcnt.conf0 = m.pcnt.conf0)
    (hconf1 : m'.pcnt.conf1 = m.pcnt.conf1) (hconf2 : m'.pcnt.conf2 = m.pcnt.conf2)
    (hctrl : m'.pcnt.ctrl = m.pcnt.ctrl) (hreg : m'.pcnt.intEna = m.pcnt.intEna) :
    Carries get m' := by
  have heach : ∀ i, (m'.unit i).conf0 = (m.unit i).conf0 ∧ (m'.unit i).conf1 = (m.unit i).conf1 ∧
      (m'.unit i).conf2 = (m.unit i).conf2 ∧ (m'.unit i).ctrl = (m.unit i).ctrl := by
    intro i
    simpa [confOf] using hunit i
  refine ⟨fun i => ?_, fun i => ?_, fun i => ?_, fun i => ?_, ?_⟩
  · rw [(heach i).1, hconf0]
    exact h.conf0 i
  · rw [(heach i).2.1, hconf1]
    exact h.conf1 i
  · rw [(heach i).2.2.1, hconf2]
    exact h.conf2 i
  · rw [(heach i).2.2.2, hctrl]
    exact h.ctrl i
  · rw [hena, hreg]
    exact h.intEna

theorem confOf_sample (un : Nat) (u : PcntUnit) : confOf (u.step un .sample) = confOf u := by
  show confOf (if u.armed then u.capture un else u) = confOf u
  split
  · obtain ⟨f₀, f₁, hcap⟩ := PcntUnit.capture_frame un u
    rw [hcap]
    rfl
  · rfl

theorem confOf_count (un : Nat) (u : PcntUnit) : confOf (u.step un .count) = confOf u := by
  by_cases hp : PcntUnit.Pulsed un u
  · rw [PcntUnit.step_pulsed hp]
    rfl
  · rw [PcntUnit.step_unpulsed hp]
    rfl

theorem confOf_advance (un : Nat) {u : PcntUnit} (hq : u.Quiet) (d : Nat) :
    confOf (u.step un (.advance d)) = confOf u := by
  show confOf (if u.counting then u else (u.commit u.bus).advance d) = confOf u
  split
  · rfl
  · show [u.conf0.update, u.conf1.update, u.conf2.update, u.ctrl.update] = confOf u
    rw [hq.1.update_eq, hq.2.1.update_eq, hq.2.2.1.update_eq, hq.2.2.2.1.update_eq]
    rfl

/-- The signals carry the struct, or are about to, or `updateth` is; and the call in progress, if it
has not waited for its clock edge yet, will. -/
structure Pushing (s : Driven) : Prop where
  next : s.m.updating = true ∨ Carries Signal.next s.m
  cur : (∃ rest, s.todo = some rest ∧ s.elapsed = false) ∨ InStep s.m
  ends : ∀ rest, s.todo = some rest → EndsPushed rest

variable {s : Driven}

/-- A step of the module that touches no configuration. -/
theorem Pushing.frame (h : Pushing s) {s' : Driven}
    (hget : ∀ get, Carries get s.m → Carries get s'.m) (hup : s'.m.updating = s.m.updating)
    (htodo : s'.todo = s.todo) (helapsed : s'.elapsed = s.elapsed) : Pushing s' where
  next := by
    rw [hup]
    exact h.next.imp_right (hget _)
  cur := by
    rw [htodo, helapsed]
    exact h.cur.imp_right (hget _)
  ends := by
    rw [htodo]
    exact h.ends

/-- `updateth` copies the struct into the signals. -/
theorem Pushing.stepUpdateth (h : Pushing s) : Pushing (s.step (.mod .updateth)) := by
  have hs : s.step (.mod .updateth) =
      { s with m := if s.m.updating then s.m.updateth else s.m } := rfl
  rw [hs]
  split
  · refine ⟨Or.inr ⟨fun _ => rfl, fun _ => rfl, fun _ => rfl, fun _ => rfl, rfl⟩, ?_, h.ends⟩
    apply h.cur.imp_right
    intro hcur
    exact ⟨hcur.conf0, hcur.conf1, hcur.conf2, hcur.ctrl, hcur.intEna⟩
  · exact h

/-- The end of a delta cycle, by which `updateth` has run. -/
theorem Pushing.stepDelta (h : Pushing s) (lvls : Fin 8 → PcntBus) :
    Pushing (s.step (.mod (.delta lvls))) := by
  have hs : s.step (.mod (.delta lvls)) =
      { s with m := if s.m.Busy then s.m else s.m.commit lvls } := rfl
  rw [hs]
  split
  · exact h
  next hbusy =>
    have hnext : Carries Signal.next s.m :=
      h.next.resolve_left fun hup => hbusy (Or.inl hup)
    -- after the update phase a signal has one value, the one `updateth` wrote
    have hall : ∀ get : Signal (BitVec 32) → BitVec 32, (∀ sig : Signal (BitVec 32), get sig.update = sig.next) →
        Carries get (s.m.commit lvls) := by
      intro get hget
      exact ⟨fun i => (hget _).trans (hnext.conf0 i), fun i => (hget _).trans (hnext.conf1 i),
        fun i => (hget _).trans (hnext.conf2 i), fun i => (hget _).trans (hnext.ctrl i),
        (hget _).trans hnext.intEna⟩
    exact ⟨Or.inr (hall _ fun _ => rfl), Or.inr (hall _ fun _ => rfl), h.ends⟩

/-- Time passes only when the signals carry the struct. -/
theorem Pushing.stepAdvance (h : Pushing s) (d : Nat) : Pushing (s.step (.mod (.advance d))) := by
  have hs : s.step (.mod (.advance d)) =
      { s with
        m := if s.m.Busy ∨ ¬ s.m.Quiet then s.m else s.m.advance d
        elapsed := s.elapsed || (decide (0 < d) && decide (¬ s.m.Busy ∧ s.m.Quiet)) } := rfl
  rw [hs]
  by_cases hgo : ¬ s.m.Busy ∧ s.m.Quiet
  · have hwait : ¬ (s.m.Busy ∨ ¬ s.m.Quiet) := not_or.mpr ⟨hgo.1, not_not.mpr hgo.2⟩
    rw [if_neg hwait]
    have hnext : Carries Signal.next s.m :=
      h.next.resolve_left fun hup => hgo.1 (Or.inl hup)
    have hquiet : ∀ i, (s.m.unit i).Quiet := fun i => hgo.2.2 i (List.mem_finRange i)
    -- nothing waits for an update phase, so what is written is what is seen
    have hcur : Carries Signal.cur s.m :=
      ⟨fun i => (hquiet i).1.symm.trans (hnext.conf0 i),
        fun i => (hquiet i).2.1.symm.trans (hnext.conf1 i),
        fun i => (hquiet i).2.2.1.symm.trans (hnext.conf2 i),
        fun i => (hquiet i).2.2.2.1.symm.trans (hnext.ctrl i), hgo.2.1.symm.trans hnext.intEna⟩
    have hadv : ∀ get, Carries get s.m → Carries get (s.m.advance d) := by
      intro get hget
      unfold PcntMod.advance
      split
      · apply hget.frame
        · exact fun i => confOf_advance i (hquiet i) _
        all_goals rfl
      · exact hget
    exact ⟨Or.inr (hadv _ hnext), Or.inr (hadv _ hcur), h.ends⟩
  · have hwait : s.m.Busy ∨ ¬ s.m.Quiet := by
      by_contra hno
      exact hgo ⟨(not_or.mp hno).1, not_not.mp (not_or.mp hno).2⟩
    rw [if_pos hwait, decide_eq_false hgo, Bool.and_false, Bool.or_false]
    exact h

/-- **One step of the module.** -/
theorem Pushing.stepMod (h : Pushing s) (e : PcntModEvent) : Pushing (s.step (.mod e)) := by
  cases e with
  | store conf0 conf1 conf2 intEna ctrl => exact h
  | update =>
    refine ⟨Or.inl rfl, h.cur.imp_right ?_, h.ends⟩
    intro hcur
    exact ⟨hcur.conf0, hcur.conf1, hcur.conf2, hcur.ctrl, hcur.intEna⟩
  | updateth => exact h.stepUpdateth
  | delta lvls => exact h.stepDelta lvls
  | advance d => exact h.stepAdvance d
  | clr v =>
    apply h.frame
    · intro get hget
      exact ⟨hget.conf0, hget.conf1, hget.conf2, hget.ctrl, hget.intEna⟩
    all_goals rfl
  | returnth =>
    have hs : s.step (.mod .returnth) =
        { s with m := if s.m.returning then s.m.returnth else s.m } := rfl
    rw [hs]
    split
    · apply h.frame
      · intro get hget
        exact ⟨hget.conf0, hget.conf1, hget.conf2, hget.ctrl, hget.intEna⟩
      all_goals rfl
    · exact h
  | sample j =>
    apply h.frame
    · intro get hget
      apply hget.frame
      · intro i
        show confOf (if i = j then (s.m.unit i).step i .sample else s.m.unit i) = _
        split
        · exact confOf_sample _ _
        · rfl
      all_goals rfl
    all_goals rfl
  | count j =>
    apply h.frame
    · intro get hget
      apply hget.frame
      · intro i
        show confOf (if i = j then (s.m.unit i).step i .count else s.m.unit i) = _
        split
        · exact confOf_count _ _
        · rfl
      all_goals rfl
    all_goals rfl

/-- A call that runs from where the views are in step keeps the invariant if it pushes in the end, or
has nothing left to do. -/
theorem pushing_proceed (h : EndsPushed sts) (hnext : m.updating = true ∨ Carries Signal.next m)
    (hcur : InStep m) : Pushing (proceed sts m) := by
  cases sts with
  | nil =>
    refine ⟨hnext, Or.inr hcur, ?_⟩
    rintro rest ⟨⟩
  | cons st rest =>
    obtain ⟨hup, rest', htodo, helapsed, hends⟩ := proceed_pushes ⟨List.cons_ne_nil _ _, h⟩ m
    refine ⟨Or.inl hup, Or.inl ⟨rest', htodo, helapsed⟩, ?_⟩
    intro r hr
    rw [htodo] at hr
    cases hr
    exact hends

theorem Pushing.stepResume (h : Pushing s) : Pushing (s.step .resume) := by
  have hs : s.step .resume =
      match s.todo with
      | some rest => if s.elapsed then proceed rest s.m else s
      | none => s := rfl
  rw [hs]
  split
  next rest htodo =>
    split
    next helapsed =>
      -- time has passed since the call waited, and with it the update it asked for
      refine pushing_proceed (h.ends rest htodo) h.next (h.cur.resolve_left ?_)
      rintro ⟨_, _, hno⟩
      rw [hno] at helapsed
      exact Bool.false_ne_true helapsed
    · exact h
  · exact h

/-- A call of the driver begins when none is in progress and its checks pass. -/
theorem step_call {c : PcntCall} (hidle : s.todo = none) (hc : c.stretches = some sts) :
    s.step (.call c) = proceed sts s.m := by
  show (match s.todo, c.stretches with
    | none, some sts => proceed sts s.m
    | _, _ => s) = _
  rw [hidle, hc]

theorem step_call_refused {c : PcntCall} (h : s.todo ≠ none ∨ c.stretches = none) :
    s.step (.call c) = s := by
  show (match s.todo, c.stretches with
    | none, some sts => proceed sts s.m
    | _, _ => s) = s
  split
  next sts hidle hc =>
    rcases h with hbusy | hno
    · exact absurd hidle hbusy
    · rw [hno] at hc
      cases hc
  · rfl

theorem Pushing.idle (h : Pushing s) (hidle : s.todo = none) : InStep s.m := by
  apply h.cur.resolve_left
  rintro ⟨rest, hrest, _⟩
  rw [hidle] at hrest
  cases hrest

/-- What a call of the filter leaves: the stored bit, and no update. -/
theorem step_filter {c : PcntCall} {b : Bool} {unit : Nat} (hc : c.stretches = pcntFilterSet b unit)
    (hidle : s.todo = none) (hunit : unit < pcntUnitMax) :
    s.step (.call c) =
      ⟨{ s.m with pcnt := s.m.pcnt.onConf0 unit fun w => wrfield w pcntFilterEn (if b then 1 else 0) },
        none, false⟩ := by
  have hsts := hc.trans (if_neg (not_not.mpr hunit))
  rw [step_call hidle hsts]
  rfl

/-- A call of the filter that finds the bit as it would leave it changes nothing. -/
theorem Pushing.stepFilter (h : Pushing s) {c : PcntCall} {b : Bool} {unit : Nat}
    (hc : c.stretches = pcntFilterSet b unit)
    (halike : s.todo = none →
      ∀ i : Fin 8, i.val = unit → rdfield (s.m.pcnt.conf0 i) pcntFilterEn = b.toNat) :
    Pushing (s.step (.call c)) := by
  by_cases hgo : s.todo = none ∧ unit < pcntUnitMax
  · have hsame : (s.m.pcnt.onConf0 unit fun w => wrfield w pcntFilterEn (if b then 1 else 0)) =
        s.m.pcnt := by
      have hconf0 : (fun i => if i.val = unit then
          wrfield (s.m.pcnt.conf0 i) pcntFilterEn (if b then 1 else 0) else s.m.pcnt.conf0 i) =
          s.m.pcnt.conf0 := by
        funext i
        split
        next hi => exact (wrfield_filterEn _ b).mpr (halike hgo.1 i hi)
        · rfl
      unfold PcntDev.onConf0
      rw [hconf0]
    rw [step_filter hc hgo.1 hgo.2, hsame]
    refine ⟨h.next, Or.inr (h.idle hgo.1), ?_⟩
    rintro rest ⟨⟩
  · have hrefused : s.todo ≠ none ∨ c.stretches = none := by
      rcases not_and_or.mp hgo with hbusy | hunit
      · exact Or.inl hbusy
      · exact Or.inr (hc.trans (if_pos hunit))
    rw [step_call_refused hrefused]
    exact h

/-- And one that does not leaves the signal behind. -/
theorem Pushing.filterForgets (h : Pushing s) {c : PcntCall} {b : Bool} {unit : Nat}
    (hc : c.stretches = pcntFilterSet b unit)
    (hbad : ¬ (s.todo = none →
      ∀ i : Fin 8, i.val = unit → rdfield (s.m.pcnt.conf0 i) pcntFilterEn = b.toNat)) :
    ¬ ((s.step (.call c)).todo = none → InStep (s.step (.call c)).m) := by
  intro hstep
  apply hbad
  intro hidle i hi
  have hunit : unit < pcntUnitMax := hi ▸ i.isLt
  rw [step_filter hc hidle hunit] at hstep
  -- in step before and after, the signal has two values of the struct, which are then one
  have hold := (h.idle hidle).conf0 i
  have hnew := (hstep rfl).conf0 i
  have hstored : (if i.val = unit then
      wrfield (s.m.pcnt.conf0 i) pcntFilterEn (if b then 1 else 0) else s.m.pcnt.conf0 i) =
      s.m.pcnt.conf0 i := hnew.symm.trans hold
  rw [if_pos hi] at hstored
  exact (wrfield_filterEn _ b).mp hstored

/-- **One step** keeps the invariant when the calls of the filter leave the bit alone. -/
theorem Pushing.step (h : Pushing s) {e : DrivenEvent} (hok : FiltersAlike s e) :
    Pushing (s.step e) := by
  cases e with
  | mod e => exact h.stepMod e
  | resume => exact h.stepResume
  | call c =>
    by_cases hen : ∃ unit, c = .filterEnable unit
    · obtain ⟨unit, rfl⟩ := hen
      exact h.stepFilter (b := true) rfl hok
    by_cases hdis : ∃ unit, c = .filterDisable unit
    · obtain ⟨unit, rfl⟩ := hdis
      exact h.stepFilter (b := false) rfl hok
    by_cases hgo : s.todo = none ∧ ∃ sts, c.stretches = some sts
    · obtain ⟨hidle, sts, hsts⟩ := hgo
      rw [step_call hidle hsts]
      have hpush : Pushes sts :=
        pushes_call (fun unit hc => hen ⟨unit, hc⟩) (fun unit hc => hdis ⟨unit, hc⟩) hsts
      exact pushing_proceed hpush.2 h.next (h.idle hidle)
    · have hrefused : s.todo ≠ none ∨ c.stretches = none := by
        rcases not_and_or.mp hgo with hbusy | hnone
        · exact Or.inl hbusy
        · exact Or.inr (Option.eq_none_iff_forall_ne_some.mpr fun sts hsts => hnone ⟨sts, hsts⟩)
      rw [step_call_refused hrefused]
      exact h

/-! ## §8 — runs -/

theorem pushing_new (apbPeriod : Nat) : Pushing (new apbPeriod) where
  next := Or.inr ⟨fun _ => rfl, fun _ => rfl, fun _ => rfl, fun _ => rfl, rfl⟩
  cur := Or.inr ⟨fun _ => rfl, fun _ => rfl, fun _ => rfl, fun _ => rfl, rfl⟩
  ends := by
    rintro rest ⟨⟩

/-- **Driver and module stay in step.** In every run from the start of simulation, with any calls of
the driver and anything the module does in between, the signals carry the struct whenever the driver
has returned, if and only if every call of `pcnt_filter_enable` finds the filter on and every call of
`pcnt_filter_disable` finds it off. -/
theorem views_in_step (apbPeriod : Nat) (es : List DrivenEvent) :
    Always (fun _ s => s.todo = none → InStep s.m) Driven.step [] (new apbPeriod) es ↔
      Throughout FiltersAlike Driven.step (new apbPeriod) es := by
  refine always_iff_of_invariant (I := fun _ s => Pushing s) ?_ ?_ ?_ es [] _ (pushing_new apbPeriod)
  · intro _ s h
    exact h.idle
  · intro _ s e h hok
    exact h.step hok
  · intro _ s e h hbad
    cases e with
    | mod e => exact absurd trivial hbad
    | resume => exact absurd trivial hbad
    | call c =>
      cases c with
      | filterEnable unit => exact h.filterForgets (b := true) rfl hbad
      | filterDisable unit => exact h.filterForgets (b := false) rfl hbad
      | _ => exact absurd trivial hbad

/-- The filter value is set and the filter is enabled: the module does not see the enable bit. -/
theorem views_apart :
    ¬ Always (fun _ s => s.todo = none → InStep s.m) Driven.step [] (new 12)
      [.call (.setFilterValue 0 100), .mod .updateth,
        .mod (.delta fun _ => ⟨false, false, false, false⟩), .mod (.advance 12), .resume,
        .call (.filterEnable 0)] := by
  intro h
  have hconf := (h.last (by decide)).conf0 0
  revert hconf
  decide

end Driven

end Espmod.Pcnt
