/-
# Espmod.Adc.Requests — whose conversion a call returns

Two layers use the converters: `adc1_get_raw` and `adc2_get_raw` of the driver, and `adcStart`,
`adcBusy`, `adcEnd` and `analogRead` above it. `adc1_get_raw` starts a conversion, waits for it and
reads it. `adc2_get_raw` only reads: it never starts a conversion and does not look at its channel and
its width, so that it stores whatever the converter holds, the -1 of a converter that was never started
among it. `adcBusy` tells the units apart, and then asks the second one for every pin.

One thread makes the calls. The WiFi is not initialised, the power is on, and times do not wrap.
-/
import Espmod.Adc.AnalogRead
import Espmod.Adc.Validity

namespace Espmod.Adc

open Espmod.Lib
open Espmod.Gpio (digitalPinToAnalogChannel)
open AnalogHal (endUnit unitOf channelOf channel_table)

/-! ## §1 — a converter and its last conversion -/

/-- A conversion is running at `now`. A conversion is a channel and the time it is over. -/
def running (now : Nat) (valid : Option (Nat × Nat)) : Bool := valid.any fun c => decide (now < c.2)

/-- What is left of a conversion if those on the channels of `p` are disturbed while they run. -/
def disturb (now : Nat) (p : Nat → Bool) (valid : Option (Nat × Nat)) : Option (Nat × Nat) :=
  valid.filter fun c => !(decide (now < c.2) && p c.1)

/-- A converter and the conversion that was started last, if nothing has disturbed it since. -/
def Tracked (a : Converter) : Option (Nat × Nat) → Prop
  | none => a.corrupted = true ∧ a.powerOn = true
  | some c => a.Running c.1 c.2 ∧ c.2 ≠ 0

section Tracked

variable {a : Converter} {valid : Option (Nat × Nat)} {now : Nat}

theorem Tracked.powerOn (h : Tracked a valid) : a.powerOn = true := by
  cases valid with
  | none => exact h.2
  | some c => exact h.1.powerOn

theorem Tracked.busy (h : Tracked a valid) : a.busy false now = running now valid := by
  cases valid with
  | none =>
    unfold Converter.busy
    rw [if_pos h.1]
    rfl
  | some c => exact h.1.busy h.2 now

/-- A conversion that is over can be read. -/
theorem Tracked.getraw {c : Nat × Nat} (h : Tracked a (some c)) {channels : Nat} (hover : c.2 ≤ now)
    (hch : c.1 < channels) :
    a.getraw channels false now = convert a.width (a.atten c.1) (a.level c.1) :=
  h.1.getraw h.2 hover hch

theorem Tracked.soc (h : Tracked a valid) (now channel : Nat) :
    Tracked (a.soc now channel) (some (channel, now + 500 * (a.width + 4))) := by
  refine ⟨Converter.running_soc h.powerOn now channel, ?_⟩
  show now + 500 * (a.width + 4) ≠ 0
  omega

/-- A change that corrupts a converter when it is busy and, if its channel matters, on that channel. -/
theorem Tracked.disturb (h : Tracked a valid) {p : Nat → Bool} {b : Converter}
    (hch : b.runningonchannel = a.runningonchannel) (hend : b.endtime = a.endtime)
    (hon : b.powerOn = a.powerOn) (hold : a.corrupted = true → b.corrupted = true)
    (hnew : ∀ c : Nat, a.corrupted = false → a.runningonchannel = c →
      b.corrupted = (a.busy false now && p c)) : Tracked b (disturb now p valid) := by
  cases valid with
  | none => exact ⟨hold h.1, hon.trans h.2⟩
  | some c =>
    have hcorrupted := hnew c.1 h.1.clean h.1.channel
    rw [h.busy] at hcorrupted
    cases hd : decide (now < c.2) && p c.1 with
    | true =>
      have hnone : Adc.disturb now p (some c) = none := by
        unfold Adc.disturb
        rw [Option.filter_some, hd]
        rfl
      rw [hnone]
      exact ⟨hcorrupted.trans hd, hon.trans h.powerOn⟩
    | false =>
      have hsome : Adc.disturb now p (some c) = some c := by
        unfold Adc.disturb
        rw [Option.filter_some, hd]
        rfl
      rw [hsome]
      exact ⟨⟨hch.trans h.1.channel, hend.trans h.1.endtime, hcorrupted.trans hd,
        hon.trans h.1.powerOn⟩, h.2⟩

theorem Tracked.setWidth (h : Tracked a valid) (now w : Nat) :
    Tracked (a.setWidth false now w) (Adc.disturb now (fun _ => true) valid) := by
  refine h.disturb rfl rfl rfl (fun hold => ?_) (fun c hclean _ => ?_)
  · show (a.corrupted || a.busy false now) = true
    rw [hold, Bool.true_or]
  · show (a.corrupted || a.busy false now) = _
    rw [hclean, Bool.false_or, Bool.and_true]

theorem Tracked.setAtten (h : Tracked a valid) (now channel : Nat) (atten : AdcAtten) :
    Tracked (a.setAtten false now channel atten)
      (Adc.disturb now (fun c => decide (c = channel)) valid) := by
  refine h.disturb rfl rfl rfl (fun hold => ?_) (fun c hclean hc => ?_)
  · show (a.corrupted || a.busy false now && _) = true
    rw [hold, Bool.true_or]
  · show (a.corrupted || a.busy false now && decide (a.runningonchannel = channel)) = _
    rw [hclean, Bool.false_or, hc]
    congr 1
    exact decide_eq_decide.mpr Int.ofNat_inj

theorem tracked_switchon (a : Converter) : Tracked (a.switchon true) none := ⟨rfl, rfl⟩

/-- The levels may change at any time. -/
theorem Tracked.level (h : Tracked a valid) (level : Nat → ℚ) : Tracked { a with level := level } valid := by
  cases valid with
  | none => exact h
  | some c => exact ⟨⟨h.1.channel, h.1.endtime, h.1.clean, h.1.powerOn⟩, h.2⟩

end Tracked

/-! ## §2 — the two layers -/

/-- `adc_unit_t`. -/
inductive AdcUnitSel where
  | unit1
  | unit2
  | both
  | alter
deriving Repr, DecidableEq

/-- What a call has returned, beside what there was to return: of `adc1_get_raw` and `adc2_get_raw`
(`none` is `ESP_ERR_TIMEOUT`) the conversion of the channel asked for, of `adcBusy` whether a conversion
is running on the unit of the pin. -/
inductive Answer where
  | raw1 (got own : Int)
  | raw2 (got : Option Int) (own : Int)
  | busy (pin : Nat) (got running : Bool)
  | value (pin got : Nat)
deriving Repr, DecidableEq

/-- The converters, the static variables of the upper layer, and what has been returned. `valid` is the
last conversion of each unit, unless it was disturbed. -/
structure AdcApi where
  adc : AdcUnit → Converter
  valid : AdcUnit → Option (Nat × Nat)
  now : Nat
  analogWidth : Nat
  initialized : Bool
  answers : List Answer

namespace AdcApi

/-- One unit changes. -/
def on (u : AdcUnit) (a : Converter) (valid : Option (Nat × Nat)) (s : AdcApi) : AdcApi :=
  { s with
    adc := fun v => if v = u then a else s.adc v
    valid := fun v => if v = u then valid else s.valid v }

def setWidth (u : AdcUnit) (w : Nat) (s : AdcApi) : AdcApi :=
  s.on u ((s.adc u).setWidth false s.now w) (disturb s.now (fun _ => true) (s.valid u))

def setAtten (u : AdcUnit) (atten : AdcAtten) (s : AdcApi) (channel : Nat) : AdcApi :=
  s.on u ((s.adc u).setAtten false s.now channel atten)
    (disturb s.now (fun c => decide (c = channel)) (s.valid u))

def soc (u : AdcUnit) (channel : Nat) (s : AdcApi) : AdcApi :=
  s.on u ((s.adc u).soc s.now channel) (some (channel, s.now + 500 * ((s.adc u).width + 4)))

def busy (u : AdcUnit) (s : AdcApi) : Bool := (s.adc u).busy false s.now

def getraw (u : AdcUnit) (s : AdcApi) : Int := (s.adc u).getraw u.channels false s.now

/-- Time passes by `d`, after which the channels are at `level`. -/
def pass (d : Nat) (level : AdcUnit → Nat → ℚ) (s : AdcApi) : AdcApi :=
  { s with now := s.now + d, adc := fun u => { s.adc u with level := level u } }

/-- `wait_eoc`. -/
def waitEoc (u : AdcUnit) (level : AdcUnit → Nat → ℚ) (s : AdcApi) : AdcApi :=
  if s.busy u then s.pass ((s.adc u).endtime - s.now) level else s

def answer (r : Answer) (s : AdcApi) : AdcApi := { s with answers := s.answers ++ [r] }

/-- The conversion of the level of a channel at a width. -/
def own (u : AdcUnit) (channel width : Nat) (s : AdcApi) : Int :=
  convert width ((s.adc u).atten channel) ((s.adc u).level channel)

/-- `adc_power_on`. -/
def adcPowerOn (s : AdcApi) : AdcApi :=
  let s := s.on .adc1 ((s.adc .adc1).switchon true) none
  s.on .adc2 ((s.adc .adc2).switchon true) none

/-- `adc_set_data_width`. -/
def adcSetDataWidth (unit : AdcUnitSel) (w : AdcBitsWidth) (s : AdcApi) : AdcApi :=
  let s := if unit = .unit1 ∨ unit = .both then s.setWidth .adc1 w.bits else s
  if unit = .unit2 ∨ unit = .both then s.setWidth .adc2 w.bits else s

/-- `adc1_get_raw`. -/
def adc1GetRaw (channel : Nat) (level : AdcUnit → Nat → ℚ) (s : AdcApi) : AdcApi :=
  if s.busy .adc1 then s.answer (.raw1 (-1) (s.own .adc1 channel (s.adc .adc1).width))
  else
    let s := (s.soc .adc1 channel).waitEoc .adc1 level
    s.answer (.raw1 (s.getraw .adc1) (s.own .adc1 channel (s.adc .adc1).width))

/-- `adc2_get_raw`. There is no `soc`, and no `set_width`. -/
def adc2GetRaw (channel : Nat) (w : AdcBitsWidth) (level : AdcUnit → Nat → ℚ) (s : AdcApi) : AdcApi :=
  if s.busy .adc2 then s.answer (.raw2 none (s.own .adc2 channel w.bits))
  else
    let s := s.waitEoc .adc2 level
    s.answer (.raw2 (some (s.getraw .adc2)) (s.own .adc2 channel w.bits))

/-- `analogSetWidth`. -/
def analogSetWidth (bits : Nat) (s : AdcApi) : AdcApi :=
  let bits := if bits < 9 then 9 else if 12 < bits then 12 else bits
  (({ s with analogWidth := bits - 9 }).setWidth .adc1 bits).setWidth .adc2 bits

/-- `analogSetAttenuation`. -/
def analogSetAttenuation (atten : AdcAtten) (s : AdcApi) : AdcApi :=
  (List.range 10).foldl (setAtten .adc2 atten) ((List.range 8).foldl (setAtten .adc1 atten) s)

/-- `analogInit`. `__analogAttenuation` is 3. -/
def analogInit (s : AdcApi) : AdcApi :=
  if s.initialized then s
  else
    let s := s.analogSetAttenuation .db11
    let s := s.analogSetWidth (s.analogWidth + 9)
    { s.adcPowerOn with initialized := true }

/-- `analogSetPinAttenuation`. -/
def analogSetPinAttenuation (pin : Nat) (atten : AdcAtten) (s : AdcApi) : AdcApi :=
  let channel := digitalPinToAnalogChannel pin
  if channel < 0 then s
  else if 7 < channel then s.analogInit.setAtten .adc2 atten (channel - 10).toNat
  else s.analogInit.setAtten .adc1 atten channel.toNat

/-- `analogReadResolution`. The width of the answer is not used. -/
def analogReadResolution (bits : Nat) (s : AdcApi) : AdcApi :=
  if bits = 0 ∨ 16 < bits then s else s.analogSetWidth bits

/-- `adcAttachPin`, on a pin that has a channel. `pinMode` takes the time `d`. -/
def adcAttachPin (d : Nat) (level : AdcUnit → Nat → ℚ) (s : AdcApi) : AdcApi := (s.pass d level).analogInit

/-- `adcStart`. -/
def adcStart (pin : Nat) (s : AdcApi) : AdcApi :=
  let channel := digitalPinToAnalogChannel pin
  if channel < 0 then s
  else if 9 < channel then s.soc .adc2 (channel - 10).toNat
  else s.soc .adc1 channel.toNat

/-- `adcBusy`. What `channel > 7` finds is not returned. -/
def adcBusy (pin : Nat) (s : AdcApi) : AdcApi :=
  let got := if digitalPinToAnalogChannel pin < 0 then false else s.busy .adc2
  s.answer (.busy pin got (running s.now (s.valid (unitOf pin))))

/-- `adcEnd`. -/
def adcEnd (pin : Nat) (level : AdcUnit → Nat → ℚ) (s : AdcApi) : AdcApi :=
  if digitalPinToAnalogChannel pin < 0 then s.answer (.value pin 0)
  else
    let s := s.waitEoc (endUnit pin) level
    let v := s.getraw (endUnit pin)
    s.answer (.value pin (if v < 0 then 0 else (v % 65536).toNat))

/-- `analogRead`. -/
def analogRead (pin d : Nat) (level level' : AdcUnit → Nat → ℚ) (s : AdcApi) : AdcApi :=
  if digitalPinToAnalogChannel pin < 0 then s.answer (.value pin 0)
  else ((s.adcAttachPin d level).adcStart pin).adcEnd pin level'

/-- A call, or time that passes between two calls. Calls that wait come with the time it takes if the
converters do not say, and with the levels afterwards. -/
inductive Event where
  | adcPowerOn
  | adc1ConfigWidth (w : AdcBitsWidth)
  | adcSetDataWidth (unit : AdcUnitSel) (w : AdcBitsWidth)
  | configChannelAtten (u : AdcUnit) (channel : Fin u.channels) (atten : AdcAtten)
  | adc1GetRaw (channel : Fin AdcUnit.adc1.channels) (level : AdcUnit → Nat → ℚ)
  | adc2GetRaw (channel : Fin AdcUnit.adc2.channels) (w : AdcBitsWidth) (level : AdcUnit → Nat → ℚ)
  | analogSetWidth (bits : Nat)
  | analogSetAttenuation (atten : AdcAtten)
  | analogSetPinAttenuation (pin : Nat) (atten : AdcAtten)
  | analogReadResolution (bits : Nat)
  | adcAttachPin (pin d : Nat) (level : AdcUnit → Nat → ℚ)
  | adcStart (pin : Nat)
  | adcBusy (pin : Nat)
  | adcEnd (pin : Nat) (level : AdcUnit → Nat → ℚ)
  | analogRead (pin d : Nat) (level level' : AdcUnit → Nat → ℚ)
  | pass (d : Nat) (level : AdcUnit → Nat → ℚ)

def step (s : AdcApi) : Event → AdcApi
  | .adcPowerOn => s.adcPowerOn
  | .adc1ConfigWidth w => s.setWidth .adc1 w.bits
  | .adcSetDataWidth unit w => s.adcSetDataWidth unit w
  | .configChannelAtten u channel atten => s.setAtten u atten channel.val
  | .adc1GetRaw channel level => s.adc1GetRaw channel.val level
  | .adc2GetRaw channel w level => s.adc2GetRaw channel.val w level
  | .analogSetWidth bits => s.analogSetWidth bits
  | .analogSetAttenuation atten => s.analogSetAttenuation atten
  | .analogSetPinAttenuation pin atten => s.analogSetPinAttenuation pin atten
  | .analogReadResolution bits => s.analogReadResolution bits
  | .adcAttachPin pin d level => if digitalPinToAnalogChannel pin < 0 then s else s.adcAttachPin d level
  | .adcStart pin => s.adcStart pin
  | .adcBusy pin => s.adcBusy pin
  | .adcEnd pin level => s.adcEnd pin level
  | .analogRead pin d level level' => s.analogRead pin d level level'
  | .pass d level => s.pass d level

/-- After construction. The widths are not initialised. -/
def init (width : AdcUnit → Nat) (level : AdcUnit → Nat → ℚ) : AdcApi where
  adc u := .new (level u) (width u)
  valid _ := none
  now := 0
  analogWidth := 3
  initialized := false
  answers := []

/-! ## §3 — the specification -/

/-- What a call should have returned. -/
def Rightly : Answer → Prop
  | .raw1 got own => 0 ≤ got → got = own
  | .raw2 got own => ∀ v, got = some v → v = own
  | .busy pin got running => 0 ≤ digitalPinToAnalogChannel pin → got = running
  | .value _ _ => True

instance (r : Answer) : Decidable (Rightly r) := by
  cases r <;> unfold Rightly <;> infer_instance

/-- **Readings belong to the request.** -/
def Right (s : AdcApi) : Prop := ∀ r ∈ s.answers, Rightly r

instance (s : AdcApi) : Decidable (Right s) := inferInstanceAs (Decidable (∀ r ∈ _, _))

/-- `adc2_get_raw` is called while the second converter is busy, or to read again the channel it has
converted last at the width it has; `adcBusy` is called for a pin of the second converter, or when both
are running or neither is. -/
def Lucky (s : AdcApi) : Event → Prop
  | .adc2GetRaw channel w _ => running s.now (s.valid .adc2) = false →
      (s.valid .adc2).map Prod.fst = some channel.val ∧ (s.adc .adc2).width = w.bits
  | .adcBusy pin => unitOf pin = .adc2 ∨
      running s.now (s.valid .adc1) = running s.now (s.valid .adc2)
  | _ => True

instance (s : AdcApi) (e : Event) : Decidable (Lucky s e) := by
  cases e <;> unfold Lucky <;> infer_instance

/-! ## §4 — the invariant -/

/-- Each converter is where its last conversion has left it, and every answer so far was right. -/
structure Kept (s : AdcApi) : Prop where
  tracked : ∀ u, Tracked (s.adc u) (s.valid u)
  right : s.Right

theorem kept_init (width : AdcUnit → Nat) (level : AdcUnit → Nat → ℚ) : Kept (init width level) where
  tracked _ := ⟨rfl, rfl⟩
  right _ h := nomatch h

variable {s : AdcApi}

theorem Kept.on (h : Kept s) {u : AdcUnit} {a : Converter} {valid : Option (Nat × Nat)}
    (ha : Tracked a valid) : Kept (s.on u a valid) where
  tracked v := by
    show Tracked (if v = u then a else s.adc v) (if v = u then valid else s.valid v)
    split
    · exact ha
    · exact h.tracked v
  right := h.right

theorem Kept.setWidth (h : Kept s) (u : AdcUnit) (w : Nat) : Kept (s.setWidth u w) :=
  h.on ((h.tracked u).setWidth s.now w)

theorem Kept.setAtten (h : Kept s) (u : AdcUnit) (atten : AdcAtten) (channel : Nat) :
    Kept (s.setAtten u atten channel) :=
  h.on ((h.tracked u).setAtten s.now channel atten)

theorem Kept.soc (h : Kept s) (u : AdcUnit) (channel : Nat) : Kept (s.soc u channel) :=
  h.on ((h.tracked u).soc s.now channel)

theorem Kept.pass (h : Kept s) (d : Nat) (level : AdcUnit → Nat → ℚ) : Kept (s.pass d level) where
  tracked u := (h.tracked u).level (level u)
  right := h.right

theorem Kept.waitEoc (h : Kept s) (u : AdcUnit) (level : AdcUnit → Nat → ℚ) : Kept (s.waitEoc u level) := by
  unfold AdcApi.waitEoc
  split
  · exact h.pass _ level
  · exact h

theorem Kept.answer (h : Kept s) {r : Answer} (hr : Rightly r) : Kept (s.answer r) where
  tracked := h.tracked
  right r' hr' := by
    rcases List.mem_append.mp hr' with hold | hnew
    · exact h.right r' hold
    · rw [List.mem_singleton.mp hnew]
      exact hr

theorem Kept.adcPowerOn (h : Kept s) : Kept s.adcPowerOn :=
  (h.on (tracked_switchon _)).on (tracked_switchon _)

theorem Kept.adcSetDataWidth (h : Kept s) (unit : AdcUnitSel) (w : AdcBitsWidth) :
    Kept (s.adcSetDataWidth unit w) := by
  have hfirst : Kept (if unit = .unit1 ∨ unit = .both then s.setWidth .adc1 w.bits else s) := by
    split
    · exact h.setWidth .adc1 w.bits
    · exact h
  unfold AdcApi.adcSetDataWidth
  dsimp only
  split
  · exact hfirst.setWidth .adc2 w.bits
  · exact hfirst

theorem Kept.analogSetWidth (h : Kept s) (bits : Nat) : Kept (s.analogSetWidth bits) := by
  have hstored : ∀ w, Kept { s with analogWidth := w } := fun _ => ⟨h.tracked, h.right⟩
  exact ((hstored _).setWidth .adc1 _).setWidth .adc2 _

/-- The attenuation of several channels. -/
theorem Kept.setAttens (h : Kept s) (u : AdcUnit) (atten : AdcAtten) (channels : List Nat) :
    Kept (channels.foldl (AdcApi.setAtten u atten) s) :=
  List.foldlRecOn channels (AdcApi.setAtten u atten) h fun _ h c _ => h.setAtten u atten c

theorem Kept.analogSetAttenuation (h : Kept s) (atten : AdcAtten) : Kept (s.analogSetAttenuation atten) :=
  (h.setAttens .adc1 atten _).setAttens .adc2 atten _

theorem Kept.analogInit (h : Kept s) : Kept s.analogInit := by
  unfold AdcApi.analogInit
  split
  · exact h
  · have hflag : ∀ t : AdcApi, Kept t → Kept { t with initialized := true } :=
      fun _ ht => ⟨ht.tracked, ht.right⟩
    exact hflag _ ((h.analogSetAttenuation .db11).analogSetWidth _).adcPowerOn

theorem Kept.analogSetPinAttenuation (h : Kept s) (pin : Nat) (atten : AdcAtten) :
    Kept (s.analogSetPinAttenuation pin atten) := by
  unfold AdcApi.analogSetPinAttenuation
  dsimp only
  split
  · exact h
  · split
    · exact h.analogInit.setAtten .adc2 atten _
    · exact h.analogInit.setAtten .adc1 atten _

theorem Kept.adcStart (h : Kept s) (pin : Nat) : Kept (s.adcStart pin) := by
  unfold AdcApi.adcStart
  dsimp only
  split
  · exact h
  · split
    · exact h.soc .adc2 _
    · exact h.soc .adc1 _

theorem Kept.adcEnd (h : Kept s) (pin : Nat) (level : AdcUnit → Nat → ℚ) : Kept (s.adcEnd pin level) := by
  unfold AdcApi.adcEnd
  split
  · exact h.answer trivial
  · exact (h.waitEoc (endUnit pin) level).answer trivial

theorem Kept.busy (h : Kept s) (u : AdcUnit) : s.busy u = running s.now (s.valid u) :=
  (h.tracked u).busy

/-- **A conversion that was started and waited for is read.** -/
theorem Kept.converts (h : Kept s) {u : AdcUnit} {channel : Nat} (hch : channel < u.channels)
    (level : AdcUnit → Nat → ℚ) :
    ((s.soc u channel).waitEoc u level).getraw u =
      ((s.soc u channel).waitEoc u level).own u channel
        (((s.soc u channel).waitEoc u level).adc u).width := by
  have hsoc := h.soc u channel
  have hvalid : (s.soc u channel).valid u = some (channel, s.now + 500 * ((s.adc u).width + 4)) :=
    if_pos rfl
  have hadc := hsoc.tracked u
  rw [hvalid] at hadc
  -- it is running, so that the wait goes to its end
  have hbusy : (s.soc u channel).busy u = true := by
    rw [hsoc.busy, hvalid]
    exact decide_eq_true (Nat.lt_add_of_pos_right (by omega))
  have hwait : (s.soc u channel).waitEoc u level =
      (s.soc u channel).pass (((s.soc u channel).adc u).endtime - s.now) level := by
    unfold AdcApi.waitEoc
    rw [if_pos hbusy]
    rfl
  rw [hwait, hadc.1.endtime]
  refine (hadc.level (level u)).getraw ?_ hch
  show s.now + 500 * ((s.adc u).width + 4) ≤ s.now + (s.now + 500 * ((s.adc u).width + 4) - s.now)
  omega

theorem Kept.adc1GetRaw (h : Kept s) {channel : Nat} (hch : channel < AdcUnit.adc1.channels)
    (level : AdcUnit → Nat → ℚ) : Kept (s.adc1GetRaw channel level) := by
  unfold AdcApi.adc1GetRaw
  split
  · exact h.answer fun hneg => absurd hneg (by decide)
  · exact ((h.soc .adc1 channel).waitEoc .adc1 level).answer fun _ => h.converts hch level

/-- **A second conversion that is asked for by its own channel and width is read.** -/
theorem Kept.adc2GetRaw (h : Kept s) {channel : Nat} (hch : channel < AdcUnit.adc2.channels)
    (w : AdcBitsWidth) (level : AdcUnit → Nat → ℚ)
    (hok : running s.now (s.valid .adc2) = false →
      (s.valid .adc2).map Prod.fst = some channel ∧ (s.adc .adc2).width = w.bits) :
    Kept (s.adc2GetRaw channel w level) := by
  unfold AdcApi.adc2GetRaw
  split
  next => exact h.answer fun v hv => nomatch hv
  next hidle =>
    have hbusy := Bool.eq_false_of_not_eq_true hidle
    have hwait : s.waitEoc .adc2 level = s := if_neg hidle
    have hrunning := (h.busy .adc2).symm.trans hbusy
    obtain ⟨hchannel, hwidth⟩ := hok hrunning
    obtain ⟨c, hvalid, rfl⟩ := Option.map_eq_some_iff.mp hchannel
    have hadc := h.tracked .adc2
    rw [hvalid] at hadc hrunning
    dsimp only
    rw [hwait]
    refine h.answer fun v hv => ?_
    obtain rfl := Option.some.inj hv
    unfold AdcApi.own
    rw [← hwidth]
    exact hadc.getraw (Nat.not_lt.mp (of_decide_eq_false hrunning)) hch

theorem Kept.adcBusy (h : Kept s) {pin : Nat}
    (hok : unitOf pin = .adc2 ∨ running s.now (s.valid .adc1) = running s.now (s.valid .adc2)) :
    Kept (s.adcBusy pin) := by
  refine h.answer fun hch => ?_
  rw [if_neg (Int.not_lt.mpr hch), h.busy]
  rcases hok with hunit | hsame
  · rw [hunit]
  · cases unitOf pin with
    | adc1 => exact hsame.symm
    | adc2 => rfl

/-- **One call.** -/
theorem Kept.step (h : Kept s) {e : Event} (hok : Lucky s e) : Kept (s.step e) := by
  cases e with
  | adcPowerOn => exact h.adcPowerOn
  | adc1ConfigWidth w => exact h.setWidth .adc1 w.bits
  | adcSetDataWidth unit w => exact h.adcSetDataWidth unit w
  | configChannelAtten u channel atten => exact h.setAtten u atten channel.val
  | adc1GetRaw channel level => exact h.adc1GetRaw channel.isLt level
  | adc2GetRaw channel w level => exact h.adc2GetRaw channel.isLt w level hok
  | analogSetWidth bits => exact h.analogSetWidth bits
  | analogSetAttenuation atten => exact h.analogSetAttenuation atten
  | analogSetPinAttenuation pin atten => exact h.analogSetPinAttenuation pin atten
  | analogReadResolution bits =>
    show Kept (s.analogReadResolution bits)
    unfold AdcApi.analogReadResolution
    split
    · exact h
    · exact h.analogSetWidth bits
  | adcAttachPin pin d level =>
    show Kept (if digitalPinToAnalogChannel pin < 0 then s else s.adcAttachPin d level)
    split
    · exact h
    · exact (h.pass d level).analogInit
  | adcStart pin => exact h.adcStart pin
  | adcBusy pin => exact h.adcBusy hok
  | adcEnd pin level => exact h.adcEnd pin level
  | analogRead pin d level level' =>
    show Kept (s.analogRead pin d level level')
    unfold AdcApi.analogRead
    split
    · exact h.answer trivial
    · exact ((h.pass d level).analogInit.adcStart pin).adcEnd pin level'
  | pass d level => exact h.pass d level

/-! ## §5 — runs -/

/-- **Readings belong to the request** in every run in which `adc2_get_raw` only repeats the conversion
before it, and `adcBusy` is only asked about the second converter, or when it does not matter. -/
theorem readings_belong (width : AdcUnit → Nat) (level : AdcUnit → Nat → ℚ) (es : List Event)
    (h : Throughout Lucky step (init width level) es) :
    Always (fun _ => Right) step [] (init width level) es :=
  always_of_throughout (I := fun _ => Kept) (fun _ _ h => h.right) (fun _ _ _ h hok => h.step hok)
    es [] _ (kept_init width level) h

/-- One volt on every channel of both converters. -/
def oneVolt : AdcUnit → Nat → ℚ := fun _ _ => 1

/-- A reading by the upper layer, on pin 4, which is channel 0 of the second converter, and one of the
same channel by the lower layer. -/
theorem readings_belong_repeated :
    Always (fun _ => Right) step [] (init (fun _ => 12) oneVolt)
      [.analogRead 4 1 oneVolt oneVolt, .adc2GetRaw ⟨0, channels_pos .adc2⟩ .bit12 oneVolt,
        .adc1GetRaw ⟨0, channels_pos .adc1⟩ oneVolt] :=
  readings_belong _ _ _ (by decide +kernel)

/-- The first call of `adc2_get_raw` stores -1. And when a conversion of the first converter has been
started, `adcBusy` says that it is not running. -/
theorem readings_strange :
    ¬ Always (fun _ => Right) step [] (init (fun _ => 12) oneVolt)
        [.adc2GetRaw ⟨0, channels_pos .adc2⟩ .bit12 oneVolt] ∧
      ¬ Always (fun _ => Right) step [] (init (fun _ => 12) oneVolt) [.adcStart 36, .adcBusy 36] := by
  constructor
  · intro h
    have hlast := h.last
    revert hlast
    decide +kernel
  · intro h
    have hlast := h.last
    revert hlast
    decide +kernel

end AdcApi

end Espmod.Adc
