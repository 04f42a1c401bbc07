/-
# Espmod.Adc.AnalogRead — threads that read analog pins

`analogRead` attaches the pin, starts the converter of its channel and waits for the conversion to be
over; it sleeps twice on the way, for a clock edge in `pinMode` and in `wait_eoc`. Several threads can
be asleep in it at once. The converter does not know who started it: a start replaces the channel and
the end time another thread is waiting for, and that thread then finds the converter busy, which
`adcEnd` turns into 0, or reads the other channel.

A caller is its place in the function. The property is about every value returned: it is the conversion
of the pin the call was given. It is kept by every start that finds the converter free, or being used
for the same channel by callers that started at the same time.

The attenuations, the widths and the levels do not change, and `analogInit` has run.
-/
import Espmod.Adc.Converter
import Espmod.Gpio.Board
import Espmod.Lib.Run

namespace Espmod.Adc

open Espmod.Lib
open Espmod.Gpio (digitalPinToAnalogChannel)

/-! ## §1 — callers -/

/-- Where a thread is in `analogRead`: not in it, asleep in `pinMode`, or asleep in `wait_eoc`. -/
inductive Caller where
  | idle
  | attaching (pin wake : Nat)
  | converting (pin wake : Nat)
deriving Repr, DecidableEq

/-- The time a sleeping thread is woken. -/
def Caller.wake : Caller → Option Nat
  | idle => none
  | attaching _ wake => some wake
  | converting _ wake => some wake

/-- The two converters and the threads that use them. `returned` lists the calls that have returned,
with pin and value. -/
structure AnalogHal where
  adc : AdcUnit → Converter
  wifi : Bool
  cpuPeriod : Nat
  now : Nat
  callers : List Caller
  returned : List (Nat × Nat)

namespace AnalogHal

/-- `wait_next_cpu_clk`: the time it waits for. -/
def nextCpuClk (s : AnalogHal) : Nat := s.now + (s.cpuPeriod - s.now % s.cpuPeriod)

def onAdc (u : AdcUnit) (f : Converter → Converter) (s : AnalogHal) : AnalogHal :=
  { s with adc := fun v => if v = u then f (s.adc v) else s.adc v }

/-- `adcStart`, on a pin that has a channel. -/
def adcStart (pin : Nat) (s : AnalogHal) : AnalogHal :=
  let channel := digitalPinToAnalogChannel pin
  if 9 < channel then s.onAdc .adc2 (Converter.soc s.now (channel - 10))
  else s.onAdc .adc1 (Converter.soc s.now channel)

/-- The converter `adcEnd` asks. -/
def endUnit (pin : Nat) : AdcUnit := if 7 < digitalPinToAnalogChannel pin then .adc2 else .adc1

/-- `wait_eoc`: the time to sleep to, if there is any. -/
def waitEoc (u : AdcUnit) (s : AnalogHal) : Option Nat :=
  if (s.adc u).busy (u.blocked s.wifi) s.now then some (s.adc u).endtime else none

/-- The end of `adcEnd`, after the wait. A failure returns 0, anything else is cut to 16 bits. -/
def adcResult (pin : Nat) (s : AnalogHal) : Nat :=
  let u := endUnit pin
  let v := (s.adc u).getraw u.channels (u.blocked s.wifi) s.now
  if v < 0 then 0 else (v % 65536).toNat

/-- Thread `t` returns from `analogRead(pin)`. -/
def finish (t pin : Nat) (s : AnalogHal) : AnalogHal :=
  { s with callers := s.callers.set t .idle, returned := s.returned ++ [(pin, s.adcResult pin)] }

/-- Thread `t` calls `analogRead(pin)` and comes to the wait of `pinMode`. -/
def analogRead (t pin : Nat) (s : AnalogHal) : AnalogHal :=
  if digitalPinToAnalogChannel pin < 0 then { s with returned := s.returned ++ [(pin, 0)] }
  else { s with callers := s.callers.set t (.attaching pin s.nextCpuClk) }

/-- Thread `t` goes on after the wait of `pinMode`. -/
def start (t pin : Nat) (s : AnalogHal) : AnalogHal :=
  let s := s.adcStart pin
  match s.waitEoc (endUnit pin) with
  | some wake => { s with callers := s.callers.set t (.converting pin wake) }
  | none => s.finish t pin

/-- A thread takes its turn, when it is awake. -/
def run (t : Nat) (s : AnalogHal) : AnalogHal :=
  match s.callers[t]? with
  | some (.attaching pin wake) => if wake ≤ s.now then s.start t pin else s
  | some (.converting pin wake) => if wake ≤ s.now then s.finish t pin else s
  | _ => s

/-- Time passes by `d`, but not beyond the time at which a thread is woken. -/
def tick (d : Nat) (s : AnalogHal) : AnalogHal :=
  { s with now := max s.now ((s.callers.filterMap Caller.wake).foldl min (s.now + d)) }

inductive AnalogEvent where
  | call (t pin : Nat)
  | run (t : Nat)
  | tick (d : Nat)
deriving Repr, DecidableEq

def step (s : AnalogHal) : AnalogEvent → AnalogHal
  | .call t pin => if s.callers[t]? = some .idle then s.analogRead t pin else s
  | .run t => s.run t
  | .tick d => s.tick d

/-! ## §2 — pins and channels -/

/-- The converter of a pin, and its channel there. -/
def unitOf (pin : Nat) : AdcUnit := if 9 < digitalPinToAnalogChannel pin then .adc2 else .adc1

def channelOf (pin : Nat) : Nat :=
  if 9 < digitalPinToAnalogChannel pin then (digitalPinToAnalogChannel pin - 10).toNat
  else (digitalPinToAnalogChannel pin).toNat

/-- **The table of channels** leaves no gap between the two ways in which the converter is told from
the channel, and names only channels that exist. -/
theorem channel_table {pin : Nat} (h : 0 ≤ digitalPinToAnalogChannel pin) :
    endUnit pin = unitOf pin ∧ channelOf pin < (unitOf pin).channels := by
  by_cases hpin : pin < 40
  · have hall : ∀ p < 40, 0 ≤ digitalPinToAnalogChannel p →
        endUnit p = unitOf p ∧ channelOf p < (unitOf p).channels := by decide
    exact hall pin hpin h
  · have hnone : digitalPinToAnalogChannel pin = -1 := by
      unfold digitalPinToAnalogChannel
      rw [if_neg hpin]
    rw [hnone] at h
    exact absurd h (by decide)

theorem adcStart_eq {pin : Nat} (h : 0 ≤ digitalPinToAnalogChannel pin) (s : AnalogHal) :
    s.adcStart pin = s.onAdc (unitOf pin) (Converter.soc s.now (channelOf pin)) := by
  unfold adcStart unitOf channelOf
  dsimp only
  split
  next hgt => rw [Int.toNat_of_nonneg (by omega)]
  next => rw [Int.toNat_of_nonneg h]

/-- What a call for the pin should return. -/
def expected (s : AnalogHal) (pin : Nat) : Nat :=
  if digitalPinToAnalogChannel pin < 0 then 0 else (s.adc (unitOf pin)).conversion (channelOf pin)

/-! ## §3 — the property and the condition -/

/-- Every value returned since `s₀` is the conversion of the pin of its call. -/
def ReturnsOwn (s₀ : AnalogHal) (_ : List AnalogEvent) (s : AnalogHal) : Prop :=
  ∀ r ∈ s.returned, r ∈ s₀.returned ∨ r.2 = s₀.expected r.1

instance (s₀ : AnalogHal) (es : List AnalogEvent) (s : AnalogHal) :
    Decidable (ReturnsOwn s₀ es s) := inferInstanceAs (Decidable (∀ r ∈ _, _))

/-- A start for `pin` leaves the caller alone: it is not waiting for the same converter, or it is
waiting for the same conversion. -/
def Undisturbed (s : AnalogHal) (pin : Nat) : Caller → Prop
  | .converting pin' wake => unitOf pin' = unitOf pin →
      channelOf pin' = channelOf pin ∧ wake = s.now + 500 * ((s.adc (unitOf pin)).width + 4)
  | _ => True

instance (s : AnalogHal) (pin : Nat) (c : Caller) : Decidable (Undisturbed s pin c) := by
  unfold Undisturbed
  split <;> infer_instance

/-- The callers a turn of thread `t` would disturb: none, unless it starts a conversion. -/
def Alone (s : AnalogHal) : AnalogEvent → Prop
  | .run t => ∀ pin wake, s.callers[t]? = some (.attaching pin wake) → wake ≤ s.now →
      ∀ c ∈ s.callers, Undisturbed s pin c
  | _ => True

instance (s : AnalogHal) (e : AnalogEvent) : Decidable (Alone s e) :=
  match e with
  | .call _ _ => isTrue trivial
  | .tick _ => isTrue trivial
  | .run t =>
    match h : s.callers[t]? with
    | some (.attaching pin wake) =>
      decidable_of_iff (wake ≤ s.now → ∀ c ∈ s.callers, Undisturbed s pin c) (by
        constructor
        · intro hall pin' wake' hc
          rw [h] at hc
          cases hc
          exact hall
        · intro hall
          exact hall pin wake h)
    | none => isTrue fun pin wake hc => by rw [h] at hc; cases hc
    | some .idle => isTrue fun pin wake hc => by rw [h] at hc; cases hc
    | some (.converting _ _) => isTrue fun pin wake hc => by rw [h] at hc; cases hc

/-- The start of a run: both converters are on, the WiFi is not, and no call is under way. -/
structure Fresh (s : AnalogHal) : Prop where
  powerOn : ∀ u, (s.adc u).powerOn = true
  wifi : s.wifi = false
  callers : ∀ c ∈ s.callers, c = .idle

/-! ## §4 — the invariant -/

/-- A caller that waits for a conversion waits for its own. -/
def Served (s : AnalogHal) : Caller → Prop
  | .idle => True
  | .attaching pin _ => 0 ≤ digitalPinToAnalogChannel pin
  | .converting pin wake => 0 ≤ digitalPinToAnalogChannel pin ∧ wake ≠ 0 ∧
      (s.adc (unitOf pin)).Running (channelOf pin) wake

structure Tracked (s₀ s : AnalogHal) : Prop where
  same : ∀ pin, s.expected pin = s₀.expected pin
  powerOn : ∀ u, (s.adc u).powerOn = true
  wifi : s.wifi = false
  served : ∀ c ∈ s.callers, Served s c
  returned : ∀ r ∈ s.returned, r ∈ s₀.returned ∨ r.2 = s₀.expected r.1

theorem tracked_fresh {s : AnalogHal} (h : Fresh s) : Tracked s s where
  same _ := rfl
  powerOn := h.powerOn
  wifi := h.wifi
  served c hc := by
    rw [h.callers c hc]
    trivial
  returned r hr := Or.inl hr

theorem blocked_false (u : AdcUnit) : u.blocked false = false := by
  cases u <;> rfl

/-- Another value for one caller. -/
theorem Tracked.set {s₀ s : AnalogHal} (h : Tracked s₀ s) (t : Nat) {c : Caller}
    (hc : Served s c) : Tracked s₀ { s with callers := s.callers.set t c } where
  same := h.same
  powerOn := h.powerOn
  wifi := h.wifi
  served c' hc' := by
    rcases List.mem_or_eq_of_mem_set hc' with hold | rfl
    · exact h.served c' hold
    · exact hc
  returned := h.returned

/-- One more returned call, with the right value. -/
theorem Tracked.return {s₀ s : AnalogHal} (h : Tracked s₀ s) {pin v : Nat}
    (hv : v = s₀.expected pin) : Tracked s₀ { s with returned := s.returned ++ [(pin, v)] } where
  same := h.same
  powerOn := h.powerOn
  wifi := h.wifi
  served := h.served
  returned r hr := by
    rcases List.mem_append.mp hr with hold | hnew
    · exact h.returned r hold
    · rw [List.mem_singleton.mp hnew]
      exact Or.inr hv

/-- **A caller that is woken finds its own conversion.** -/
theorem Tracked.result {s₀ s : AnalogHal} (h : Tracked s₀ s) {pin wake : Nat}
    (hc : Served s (.converting pin wake)) (hwake : wake ≤ s.now) :
    s.adcResult pin = s₀.expected pin := by
  obtain ⟨hch, hne, hrunning⟩ := hc
  obtain ⟨hunit, hlt⟩ := channel_table hch
  have hraw : (s.adc (unitOf pin)).getraw (unitOf pin).channels ((unitOf pin).blocked s.wifi) s.now =
      convert (s.adc (unitOf pin)).width ((s.adc (unitOf pin)).atten (channelOf pin))
        ((s.adc (unitOf pin)).level (channelOf pin)) := by
    rw [h.wifi, blocked_false]
    exact hrunning.getraw hne hwake hlt
  have hnonneg := convert_nonneg (s.adc (unitOf pin)).width ((s.adc (unitOf pin)).atten (channelOf pin))
    ((s.adc (unitOf pin)).level (channelOf pin))
  rw [← h.same pin]
  unfold adcResult expected Converter.conversion
  dsimp only
  rw [hunit, hraw, if_neg (Int.not_lt.mpr hnonneg), if_neg (Int.not_lt.mpr hch)]

/-- The state after a start, before the caller goes to sleep. -/
theorem Tracked.soc {s₀ s : AnalogHal} (h : Tracked s₀ s) {pin : Nat}
    (hch : 0 ≤ digitalPinToAnalogChannel pin) (halone : ∀ c ∈ s.callers, Undisturbed s pin c) :
    Tracked s₀ (s.adcStart pin) := by
  rw [adcStart_eq hch]
  have hadc : ∀ u, (s.onAdc (unitOf pin) (Converter.soc s.now (channelOf pin))).adc u =
      if u = unitOf pin then (s.adc u).soc s.now (channelOf pin) else s.adc u := fun _ => rfl
  refine ⟨?_, ?_, h.wifi, ?_, h.returned⟩
  · intro pin'
    rw [← h.same pin']
    unfold expected
    rw [hadc]
    split
    · rfl
    · split
      · rw [Converter.conversion_soc]
      · rfl
  · intro u
    rw [hadc]
    split
    · rw [Converter.powerOn_soc]
      exact h.powerOn u
    · exact h.powerOn u
  · intro c hc
    have hserved := h.served c hc
    cases c with
    | idle => trivial
    | attaching pin' wake => exact hserved
    | converting pin' wake =>
      obtain ⟨hch', hne, hrunning⟩ := hserved
      refine ⟨hch', hne, ?_⟩
      rw [hadc]
      split
      next hsame =>
        -- the start repeats the conversion this caller is waiting for
        obtain ⟨hchannel, hwake⟩ := halone _ hc hsame
        rw [hchannel, hwake, ← hsame]
        exact Converter.running_soc (h.powerOn (unitOf pin')) s.now (channelOf pin)
      next => exact hrunning

/-- **A start** puts the caller to sleep for its own conversion. -/
theorem Tracked.start {s₀ s : AnalogHal} (h : Tracked s₀ s) (t : Nat) {pin : Nat}
    (hch : 0 ≤ digitalPinToAnalogChannel pin) (halone : ∀ c ∈ s.callers, Undisturbed s pin c) :
    Tracked s₀ (s.start t pin) := by
  have hstarted := h.soc hch halone
  have hunit : (s.adcStart pin).adc (unitOf pin) =
      (s.adc (unitOf pin)).soc s.now (channelOf pin) := by
    rw [adcStart_eq hch]
    exact if_pos rfl
  have hnow : (s.adcStart pin).now = s.now := by
    rw [adcStart_eq hch]
    rfl
  have hrunning := Converter.running_soc (h.powerOn (unitOf pin)) s.now (channelOf pin)
  have hne : s.now + 500 * ((s.adc (unitOf pin)).width + 4) ≠ 0 := by omega
  have hwait : (s.adcStart pin).waitEoc (endUnit pin) =
      some (s.now + 500 * ((s.adc (unitOf pin)).width + 4)) := by
    have hbusy : ((s.adc (unitOf pin)).soc s.now (channelOf pin)).busy false s.now = true := by
      rw [hrunning.busy hne]
      exact decide_eq_true (by omega)
    unfold waitEoc
    rw [(channel_table hch).1, hstarted.wifi, blocked_false, hunit, hnow, hbusy, hrunning.endtime]
    rfl
  unfold AnalogHal.start
  dsimp only
  rw [hwait]
  apply hstarted.set
  refine ⟨hch, hne, ?_⟩
  rw [hunit]
  exact hrunning

/-- **One step** keeps the invariant when the thread that starts a conversion is alone. -/
theorem Tracked.step {s₀ s : AnalogHal} (h : Tracked s₀ s) {e : AnalogEvent} (halone : Alone s e) :
    Tracked s₀ (s.step e) := by
  cases e with
  | call t pin =>
    show Tracked s₀ (if s.callers[t]? = some .idle then s.analogRead t pin else s)
    split
    · unfold analogRead
      split
      next hnone =>
        apply h.return
        unfold expected
        rw [if_pos hnone]
      next hch => exact h.set t (Int.not_lt.mp hch)
    · exact h
  | run t =>
    show Tracked s₀ (s.run t)
    unfold run
    split
    next pin wake hcaller =>
      have hserved := h.served _ (List.mem_of_getElem? hcaller)
      split
      next hdue => exact h.start t hserved (halone pin wake hcaller hdue)
      next => exact h
    next pin wake hcaller =>
      have hserved := h.served _ (List.mem_of_getElem? hcaller)
      split
      next hdue => exact (h.set t (c := .idle) trivial).return (h.result hserved hdue)
      next => exact h
    next => exact h
  | tick d =>
    exact ⟨h.same, h.powerOn, h.wifi, h.served, h.returned⟩

/-! ## §5 — runs -/

/-- **Concurrent `analogRead`.** Any number of threads call `analogRead` on any pins, in any order of
their turns. As long as no conversion is started while another caller waits for a different one of the
same converter, every call returns the conversion of the pin it was given. -/
theorem conversions_own {s : AnalogHal} (hfresh : Fresh s) (es : List AnalogEvent)
    (h : Throughout Alone step s es) : Always (ReturnsOwn s) step [] s es := by
  refine always_of_throughout (I := fun _ => Tracked s) ?_ ?_ es [] s ?_ h
  · intro _ s' htracked
    exact htracked.returned
  · intro _ s' e htracked halone
    exact htracked.step halone
  · exact tracked_fresh hfresh

/-- Two threads at rest, with half a volt on each channel 0 and one volt on the others, both converters
12 bits wide at the smallest attenuation. -/
def twoThreads : AnalogHal where
  adc _ := .new (fun channel => if channel = 0 then 1 / 2 else 1) 12
  wifi := false
  cpuPeriod := 3
  now := 0
  callers := [.idle, .idle]
  returned := []

theorem fresh_twoThreads : Fresh twoThreads where
  powerOn _ := rfl
  wifi := rfl
  callers := by decide

/-- The second thread starts after the first has read. -/
theorem conversions_own_inTurn :
    Always (ReturnsOwn twoThreads) step [] twoThreads
      [.call 0 36, .tick 9000, .run 0, .tick 9000, .run 0, .call 1 39, .tick 9000, .run 1, .tick 9000,
        .run 1] :=
  conversions_own fresh_twoThreads _ (by decide +kernel)

/-- Both call in the same cycle: the second start wins, and the first thread returns its channel. And
when the second starts while the first sleeps, the first returns 0. -/
theorem conversions_own_overlap :
    ¬ Always (ReturnsOwn twoThreads) step [] twoThreads
        [.call 0 36, .call 1 39, .tick 9000, .run 0, .run 1, .tick 9000, .run 0] ∧
      ¬ Always (ReturnsOwn twoThreads) step [] twoThreads
        [.call 0 36, .tick 9000, .run 0, .tick 100, .call 1 39, .tick 100, .run 1, .tick 9000, .run 0] := by
  constructor
  · intro h
    have hlast := h.last
    revert hlast
    decide +kernel
  · intro h
    have hlast := h.last
    revert hlast
    decide +kernel

end AnalogHal

end Espmod.Adc
