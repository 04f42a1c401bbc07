/-
# Espmod.Gpio.DigitalWrite — threads that set and clear pins of their own

`digitalWrite` puts a one-bit request into a *write one to set* or *write one to clear* register and
notifies `updateth`, which folds the requests into the output register and clears them. The request
registers are plain variables: a request is an assignment of the whole word. A thread sleeps after
its call, so its own next request finds the word folded; a request of another thread in the same
delta cycle may be waiting in the word and is overwritten.

The claim about the output register therefore holds at every point of a run exactly when no call
overwrites a waiting request that would have changed its pin.
-/
import Espmod.Gpio.Updates

namespace Espmod.Gpio

open Espmod.Lib

/-! ## §1 — the request -/

namespace Bits

/-- An assignment to one word of a register over the pins: the word of `pin` gets its bit alone. -/
def assign (pin : Nat) (b : Bits) : Bits :=
  if pin < 32 then { b with low := 1#32 <<< pin } else { b with high := 1#8 <<< (pin - 32) }

/-- Two pins in the same word. -/
def SameWord (pin q : Nat) : Prop := pin < 32 ↔ q < 32

instance (pin q : Nat) : Decidable (SameWord pin q) := inferInstanceAs (Decidable (_ ↔ _))

/-- **The word of the pin is overwritten, the other one is not.** -/
theorem bit_assign {pin : Nat} (hpin : pin < 40) (b : Bits) (q : Nat) :
    (b.assign pin).bit q = if SameWord pin q then decide (q = pin) else b.bit q := by
  by_cases hp : pin < 32
  · by_cases hq : q < 32
    · have hw : SameWord pin q := ⟨fun _ => hq, fun _ => hp⟩
      rw [if_pos hw, ← bit_single hpin]
      simp [assign, bit, single, hp, hq]
    · have hw : ¬ SameWord pin q := fun h => hq (h.mp hp)
      rw [if_neg hw]
      simp [assign, bit, hp, hq]
  · by_cases hq : q < 32
    · have hw : ¬ SameWord pin q := fun h => hp (h.mpr hq)
      rw [if_neg hw]
      simp [assign, bit, hp, hq]
    · have hw : SameWord pin q := ⟨fun h => absurd h hp, fun h => absurd h hq⟩
      rw [if_pos hw, ← bit_single hpin]
      simp [assign, bit, single, hp, hq]

end Bits

/-- The register writes of `digitalWrite_nodel`; pins from 34 on are ignored. -/
def digitalWriteNodel (pin : Nat) (val : Bool) (d : GpioDev) : GpioDev :=
  if val then
    (if pin < 32 then { d with out := { d.out with w1ts := d.out.w1ts.assign pin } }
    else if pin < 34 then { d with out := { d.out with w1ts := d.out.w1ts.assign pin } }
    else d)
  else
    (if pin < 32 then { d with out := { d.out with w1tc := d.out.w1tc.assign pin } }
    else if pin < 34 then { d with out := { d.out with w1tc := d.out.w1tc.assign pin } }
    else d)

theorem digitalWriteNodel_high {pin : Nat} (hpin : pin < 34) (d : GpioDev) :
    digitalWriteNodel pin true d = { d with out := { d.out with w1ts := d.out.w1ts.assign pin } } := by
  simp [digitalWriteNodel, hpin]

theorem digitalWriteNodel_low {pin : Nat} (hpin : pin < 34) (d : GpioDev) :
    digitalWriteNodel pin false d = { d with out := { d.out with w1tc := d.out.w1tc.assign pin } } := by
  simp [digitalWriteNodel, hpin]

/-! ## §2 — runs of writers -/

/-- A run of threads that only write pins. -/
inductive WriteEvent where
  | write (t pin : Nat) (val : Bool)
  | serve
  | delta
  | clock
deriving Repr, DecidableEq

namespace Sched

/-- `digitalWrite` as a call on the matrix. -/
def WriteEvent.event : WriteEvent → Event
  | .write t pin val => .call t (digitalWriteNodel pin val) .updategpioreg
  | .serve => .serve
  | .delta => .delta
  | .clock => .clock

def writeStep (s : Sched) (e : WriteEvent) : Sched := s.step (WriteEvent.event e)

/-- The level last written to a pin, if it has been written. -/
def lastWritten (pin : Nat) : List WriteEvent → Option Bool
  | [] => none
  | .write _ p val :: es => (lastWritten pin es).or (if p = pin then some val else none)
  | _ :: es => lastWritten pin es

/-- What the output register should hold for a pin. -/
def demanded (m : Matrix) (es : List WriteEvent) (pin : Nat) : Bool :=
  (lastWritten pin es).getD (m.gpio.out.data.bit pin)

/-- Once `updateth` has processed the notification, if there is one, the output register holds for
every pin the level last written, or the one it had at the start. -/
def HoldsWritten (m : Matrix) (es : List WriteEvent) (s : Sched) : Prop :=
  ∀ pin, (s.step .serve).m.gpio.out.data.bit pin = demanded m es pin

/-- A call the writers can make: by a thread that is awake, on an output pin of its own. -/
def Admissible (owner : Nat → Nat) (s : Sched) : WriteEvent → Prop
  | .write t pin _ => s.asleep.contains t = false ∧ pin < 34 ∧ owner pin = t
  | _ => True

instance (owner : Nat → Nat) (s : Sched) (e : WriteEvent) : Decidable (Admissible owner s e) := by
  unfold Admissible
  split <;> infer_instance

/-- The requests waiting in the register a write of `val` assigns. -/
def requests (s : Sched) (val : Bool) : Bits :=
  if val then s.m.gpio.out.w1ts else s.m.gpio.out.w1tc

/-- The word assigned holds no request of another pin, or only such as ask for the level the output
register has already. -/
def Unclobbered (s : Sched) : WriteEvent → Prop
  | .write _ pin val => ∀ q < 40, Bits.SameWord pin q → q ≠ pin →
      (requests s val).bit q = true → s.m.gpio.out.data.bit q = val
  | _ => True

instance (s : Sched) (e : WriteEvent) : Decidable (Unclobbered s e) := by
  unfold Unclobbered
  split <;> infer_instance

/-! ## §3 — the invariant -/

/-- What holds along the run: folding the waiting requests gives the levels demanded; a notification
that is waiting will be served by folding them; a request waits only while it is, on a pin whose
thread sleeps, and no pin has one of each kind. -/
structure Pending (m : Matrix) (owner : Nat → Nat) (es : List WriteEvent) (s : Sched) : Prop where
  folded : ∀ pin, s.m.gpio.out.applycs.data.bit pin = demanded m es pin
  branch : s.runnable = true → s.branch = .updategpioreg
  waits : ∀ pin val, (requests s val).bit pin = true →
    s.runnable = true ∧ s.asleep.contains (owner pin) = true
  one : ∀ pin, s.m.gpio.out.w1ts.bit pin = true → s.m.gpio.out.w1tc.bit pin = false

/-- **What `updateth` would leave** in the output register now. -/
theorem Pending.served {m : Matrix} {owner : Nat → Nat} {es : List WriteEvent} {s : Sched}
    (h : Pending m owner es s) (pin : Nat) :
    (s.step .serve).m.gpio.out.data.bit pin = s.m.gpio.out.applycs.data.bit pin := by
  show (if s.runnable then s.serve else s).m.gpio.out.data.bit pin = _
  split
  next hr =>
    rw [serve, h.branch hr]
    rfl
  next hr =>
    -- nothing is waiting, so there is nothing to fold
    have hnone : ∀ val, (requests s val).bit pin = false := by
      intro val
      cases hb : (requests s val).bit pin with
      | false => rfl
      | true => exact absurd (h.waits pin val hb).1 hr
    have hts : s.m.gpio.out.w1ts.bit pin = false := hnone true
    have htc : s.m.gpio.out.w1tc.bit pin = false := hnone false
    rw [Port.bit_applycs, hts, htc]
    simp

theorem Pending.holds {m : Matrix} {owner : Nat → Nat} {es : List WriteEvent} {s : Sched}
    (h : Pending m owner es s) : HoldsWritten m es s := by
  intro pin
  rw [h.served, h.folded]

theorem lastWritten_append (pin : Nat) (es : List WriteEvent) (e : WriteEvent) :
    lastWritten pin (es ++ [e]) = (lastWritten pin [e]).or (lastWritten pin es) := by
  induction es with
  | nil =>
    show lastWritten pin [e] = (lastWritten pin [e]).or none
    rw [Option.or_none]
  | cons a es ih =>
    cases a with
    | write t p val =>
      show (lastWritten pin (es ++ [e])).or _ = (lastWritten pin [e]).or ((lastWritten pin es).or _)
      rw [ih, Option.or_assoc]
    | serve => exact ih
    | delta => exact ih
    | clock => exact ih

theorem demanded_write (m : Matrix) (es : List WriteEvent) (t p : Nat) (val : Bool) (pin : Nat) :
    demanded m (es ++ [WriteEvent.write t p val]) pin = if pin = p then val else demanded m es pin := by
  unfold demanded
  rw [lastWritten_append]
  show ((none.or (if p = pin then some val else none)).or _).getD _ = _
  by_cases hp : pin = p
  · subst hp
    simp
  · simp [hp, Ne.symm hp]

theorem demanded_other (m : Matrix) (es : List WriteEvent) {e : WriteEvent} (pin : Nat)
    (he : ∀ t p val, e ≠ .write t p val) : demanded m (es ++ [e]) pin = demanded m es pin := by
  unfold demanded
  rw [lastWritten_append]
  cases e with
  | write t p val => exact absurd rfl (he t p val)
  | serve => rfl
  | delta => rfl
  | clock => rfl

/-- Nobody else's call disturbs what a thread that is awake finds: its pin has no request waiting. -/
theorem Pending.awake {m : Matrix} {owner : Nat → Nat} {es : List WriteEvent} {s : Sched}
    (h : Pending m owner es s) {pin : Nat} (hawake : s.asleep.contains (owner pin) = false)
    (val : Bool) : (requests s val).bit pin = false := by
  cases hb : (requests s val).bit pin with
  | false => rfl
  | true =>
    rw [(h.waits pin val hb).2] at hawake
    cases hawake

/-- A pin that is to be cleared is not to be set as well. -/
theorem Pending.clearOnly {m : Matrix} {owner : Nat → Nat} {es : List WriteEvent} {s : Sched}
    (h : Pending m owner es s) {pin : Nat} (hb : s.m.gpio.out.w1tc.bit pin = true) :
    s.m.gpio.out.w1ts.bit pin = false := by
  cases hts : s.m.gpio.out.w1ts.bit pin with
  | false => rfl
  | true =>
    rw [h.one pin hts] at hb
    cases hb

/-- A request that waits is what folding will give its pin. -/
theorem Pending.requested {m : Matrix} {owner : Nat → Nat} {es : List WriteEvent} {s : Sched}
    (h : Pending m owner es s) {pin : Nat} {val : Bool} (hb : (requests s val).bit pin = true) :
    s.m.gpio.out.applycs.data.bit pin = val := by
  rw [Port.bit_applycs]
  cases val with
  | true =>
    have hts : s.m.gpio.out.w1ts.bit pin = true := hb
    rw [hts]
    simp
  | false =>
    have htc : s.m.gpio.out.w1tc.bit pin = true := hb
    rw [htc, h.clearOnly htc]
    simp

/-- The state after a write: only the request register of the level has changed. -/
theorem writeStep_write {s : Sched} {t pin : Nat} {val : Bool}
    (hawake : s.asleep.contains t = false) :
    writeStep s (.write t pin val) = s.call t (digitalWriteNodel pin val) .updategpioreg := by
  show (if s.asleep.contains t then s else s.call t _ _) = _
  rw [hawake]
  rfl

theorem out_call {s : Sched} {t pin : Nat} (val : Bool) (hpin : pin < 34) :
    (s.call t (digitalWriteNodel pin val) .updategpioreg).m.gpio.out =
      if val then { s.m.gpio.out with w1ts := s.m.gpio.out.w1ts.assign pin }
      else { s.m.gpio.out with w1tc := s.m.gpio.out.w1tc.assign pin } := by
  cases val with
  | true => exact congrArg GpioDev.out (digitalWriteNodel_high hpin s.m.gpio)
  | false => exact congrArg GpioDev.out (digitalWriteNodel_low hpin s.m.gpio)

/-- The level patch is what `updateth` asks for first. -/
theorem branch_call_reg (s : Sched) (t : Nat) (w : GpioDev → GpioDev) :
    (s.call t w .updategpioreg).branch = .updategpioreg := by
  simp [branch, call]

/-- The requests after a write: in the word assigned, the writer's alone. -/
theorem requests_call {s : Sched} {t pin : Nat} (val : Bool) (hpin : pin < 34) (v : Bool) (q : Nat) :
    (requests (s.call t (digitalWriteNodel pin val) .updategpioreg) v).bit q =
      if v = val ∧ Bits.SameWord pin q then decide (q = pin) else (requests s v).bit q := by
  unfold requests
  rw [out_call val hpin]
  cases val <;> cases v <;> simp [Bits.bit_assign (Nat.lt_trans hpin (by omega : 34 < 40))]

/-- **What a write does to the folded register**: the pin gets its level, and a pin whose request is
overwritten goes back to the level the register has. -/
theorem folded_call {m : Matrix} {owner : Nat → Nat} {es : List WriteEvent} {s : Sched}
    (h : Pending m owner es s) {t pin : Nat} {val : Bool} (hpin : pin < 34) (howner : owner pin = t)
    (hawake : s.asleep.contains t = false) (q : Nat) :
    (s.call t (digitalWriteNodel pin val) .updategpioreg).m.gpio.out.applycs.data.bit q =
      if q = pin then val
      else if Bits.SameWord pin q ∧ (requests s val).bit q = true then s.m.gpio.out.data.bit q
      else s.m.gpio.out.applycs.data.bit q := by
  have hidle : ∀ v, (requests s v).bit pin = false := by
    intro v
    apply h.awake
    rw [howner]
    exact hawake
  have hts : s.m.gpio.out.w1ts.bit pin = false := hidle true
  have htc : s.m.gpio.out.w1tc.bit pin = false := hidle false
  have hp40 : pin < 40 := Nat.lt_trans hpin (by omega)
  rw [out_call val hpin, Port.bit_applycs, Port.bit_applycs]
  unfold requests
  by_cases hq : q = pin
  · subst hq
    have hw : Bits.SameWord q q := Iff.rfl
    cases val with
    | true => simp [Bits.bit_assign hp40, hw]
    | false => simp [Bits.bit_assign hp40, hw, hts]
  · by_cases hw : Bits.SameWord pin q
    · cases val with
      | true =>
        cases hb : s.m.gpio.out.w1ts.bit q with
        | true => simp [Bits.bit_assign hp40, hw, hq, hb, h.one q hb]
        | false => simp [Bits.bit_assign hp40, hw, hq, hb]
      | false =>
        cases hb : s.m.gpio.out.w1tc.bit q with
        | true =>
          have hts' := h.clearOnly hb
          simp [Bits.bit_assign hp40, hw, hq, hb, hts']
        | false => simp [Bits.bit_assign hp40, hw, hq, hb]
    · cases val <;> simp [Bits.bit_assign hp40, hw, hq]

/-- A write leaves everything but the folded levels as the invariant has it. -/
theorem Pending.write {m : Matrix} {owner : Nat → Nat} {es : List WriteEvent} {s : Sched}
    (h : Pending m owner es s) {t pin : Nat} {val : Bool} (hpin : pin < 34) (howner : owner pin = t)
    (hawake : s.asleep.contains t = false)
    (hfolded : ∀ q, (s.call t (digitalWriteNodel pin val) .updategpioreg).m.gpio.out.applycs.data.bit q
      = demanded m (es ++ [WriteEvent.write t pin val]) q) :
    Pending m owner (es ++ [WriteEvent.write t pin val])
      (s.call t (digitalWriteNodel pin val) .updategpioreg) where
  folded := hfolded
  branch _ := branch_call_reg s t _
  waits q v hb := by
    rw [requests_call val hpin] at hb
    refine ⟨rfl, ?_⟩
    show (t :: s.asleep).contains (owner q) = true
    split at hb
    · have hq : q = pin := by simpa using hb
      rw [hq, howner]
      simp
    · have hq := (h.waits q v hb).2
      rw [List.contains_iff_mem] at hq ⊢
      exact List.mem_cons_of_mem t hq
  one q hb := by
    have hts := requests_call (s := s) (t := t) val hpin true q
    have htc := requests_call (s := s) (t := t) val hpin false q
    show (requests (s.call t (digitalWriteNodel pin val) .updategpioreg) false).bit q = false
    have hb' : (requests (s.call t (digitalWriteNodel pin val) .updategpioreg) true).bit q = true := hb
    rw [hts] at hb'
    rw [htc]
    have hidle : ∀ v, (requests s v).bit pin = false := fun v => h.awake (by rw [howner]; exact hawake) v
    cases val with
    | true =>
      rw [if_neg (by simp)]
      split at hb'
      · have hq : q = pin := by simpa using hb'
        rw [hq]
        exact hidle false
      · exact h.one q hb'
    | false =>
      rw [if_neg (by simp)] at hb'
      split
      · have hne : q ≠ pin := by
          intro hq
          rw [hq, hidle true] at hb'
          cases hb'
        simp [hne]
      · exact h.one q hb'

/-- The events other than writes. -/
theorem Pending.other {m : Matrix} {owner : Nat → Nat} {es : List WriteEvent} {s : Sched}
    (h : Pending m owner es s) {e : WriteEvent} (he : ∀ t p val, e ≠ .write t p val) :
    Pending m owner (es ++ [e]) (writeStep s e) := by
  have hdem : ∀ pin, demanded m (es ++ [e]) pin = demanded m es pin :=
    fun pin => demanded_other m es pin he
  cases e with
  | write t p val => exact absurd rfl (he t p val)
  | serve =>
    show Pending m owner _ (if s.runnable then s.serve else s)
    split
    next hr =>
      have hout : s.serve.m.gpio.out = s.m.gpio.out.applycs := by
        rw [serve, h.branch hr]
        rfl
      have hreq : ∀ v, requests s.serve v = .zero := by
        intro v
        unfold requests
        rw [hout]
        cases v <;> rfl
      constructor
      · intro pin
        rw [hout, Port.applycs_applycs, h.folded, hdem]
      · intro hrun
        cases hrun
      · intro pin v hb
        rw [hreq, Bits.bit_zero] at hb
        cases hb
      · intro pin _
        rw [hout]
        simp
    · exact ⟨fun pin => by rw [h.folded, hdem], h.branch, h.waits, h.one⟩
  | delta =>
    show Pending m owner _ (if s.runnable then s else s.endDelta)
    split
    · exact ⟨fun pin => by rw [h.folded, hdem], h.branch, h.waits, h.one⟩
    next hr =>
      exact ⟨fun pin => by rw [hdem]; exact h.folded pin, fun hrun => absurd hrun hr,
        fun pin v hb => h.waits pin v hb, h.one⟩
  | clock =>
    show Pending m owner _ (if s.runnable then s else { s.endDelta with asleep := [] })
    split
    · exact ⟨fun pin => by rw [h.folded, hdem], h.branch, h.waits, h.one⟩
    next hr =>
      -- a request would be waiting for a turn of `updateth`, and none is due
      exact ⟨fun pin => by rw [hdem]; exact h.folded pin, fun hrun => absurd hrun hr,
        fun pin v hb => absurd (h.waits pin v hb).1 hr, h.one⟩

theorem pending_start {m : Matrix} (hm : m.gpio.out.applycs = m.gpio.out) (owner : Nat → Nat) :
    Pending m owner [] (start m) := by
  have hts : m.gpio.out.w1ts = .zero := by
    rw [← hm]
    rfl
  have htc : m.gpio.out.w1tc = .zero := by
    rw [← hm]
    rfl
  constructor
  · intro pin
    show m.gpio.out.applycs.data.bit pin = m.gpio.out.data.bit pin
    rw [hm]
  · intro hr
    cases hr
  · intro pin v hb
    have hz : requests (start m) v = .zero := by
      cases v
      · exact htc
      · exact hts
    rw [hz, Bits.bit_zero] at hb
    cases hb
  · intro pin _
    show m.gpio.out.w1tc.bit pin = false
    rw [htc, Bits.bit_zero]

/-- A write that clobbers nothing keeps the levels demanded. -/
theorem Pending.keep {m : Matrix} {owner : Nat → Nat} {es : List WriteEvent} {s : Sched}
    (h : Pending m owner es s) {e : WriteEvent} (hadm : Admissible owner s e)
    (hok : Unclobbered s e) : Pending m owner (es ++ [e]) (writeStep s e) := by
  cases e with
  | write t pin val =>
    obtain ⟨hawake, hpin, howner⟩ := hadm
    rw [writeStep_write hawake]
    apply h.write hpin howner hawake
    intro q
    rw [folded_call h hpin howner hawake, demanded_write]
    by_cases hq : q = pin
    · rw [if_pos hq, if_pos hq]
    · rw [if_neg hq, if_neg hq]
      split
      next hover =>
        have hq40 : q < 40 := by
          by_contra hge
          rw [Bits.bit_of_ge _ (Nat.le_of_not_lt hge)] at hover
          exact absurd hover.2 (by simp)
        -- the overwritten request asked for the level the register has
        rw [← h.folded q, h.requested hover.2]
        exact hok q hq40 hover.1 hq hover.2
      · exact h.folded q
  | serve => exact h.other (by simp)
  | delta => exact h.other (by simp)
  | clock => exact h.other (by simp)

/-- A write that clobbers a request loses the level of its pin. -/
theorem Pending.lose {m : Matrix} {owner : Nat → Nat} {es : List WriteEvent} {s : Sched}
    (h : Pending m owner es s) {e : WriteEvent} (hadm : Admissible owner s e)
    (hbad : ¬ Unclobbered s e) : ¬ HoldsWritten m (es ++ [e]) (writeStep s e) := by
  cases e with
  | write t pin val =>
    obtain ⟨hawake, hpin, howner⟩ := hadm
    rw [writeStep_write hawake]
    intro hholds
    apply hbad
    intro q _ hw hq hreq
    have hserved : ((s.call t (digitalWriteNodel pin val) .updategpioreg).step
        .serve).m.gpio.out.data.bit q =
        (s.call t (digitalWriteNodel pin val) .updategpioreg).m.gpio.out.applycs.data.bit q := by
      show (serve _).m.gpio.out.data.bit q = _
      rw [serve, branch_call_reg]
      rfl
    have hlost := hholds q
    rw [hserved, folded_call h hpin howner hawake, if_neg hq, if_pos ⟨hw, hreq⟩, demanded_write,
      if_neg hq, ← h.folded q] at hlost
    exact hlost.trans (h.requested hreq)
  | serve => exact absurd trivial hbad
  | delta => exact absurd trivial hbad
  | clock => exact absurd trivial hbad

/-! ## §4 — the result -/

/-- **Concurrent `digitalWrite`.** Any number of threads write output pins of their own, in any order
and any number of them in one delta cycle. At every point of the run the output register holds, once
`updateth` has processed the notification, the level last written to each pin written and the old
level of every other pin, exactly when no call overwrites a waiting request that would have changed
its pin. -/
theorem digitalWrite_concurrent {m : Matrix} (hm : m.gpio.out.applycs = m.gpio.out)
    (owner : Nat → Nat) (es : List WriteEvent)
    (hadm : Throughout (Admissible owner) writeStep (start m) es) :
    Always (HoldsWritten m) writeStep [] (start m) es ↔
      Throughout Unclobbered writeStep (start m) es := by
  refine always_iff_throughout (I := Pending m owner) ?_ ?_ ?_ es [] (start m) ?_ hadm
  · intro _ s h
    exact h.holds
  · intro _ s e h ha hok
    exact h.keep ha hok
  · intro _ s e h ha hbad
    exact h.lose ha hbad
  · exact pending_start hm owner

/-- One thread sets pin 2 and another clears pin 4 in the same delta cycle. -/
theorem digitalWrite_concurrent_setAndClear :
    Always (HoldsWritten powerUp) writeStep [] (start powerUp)
      [.write 0 2 true, .write 1 4 false, .serve, .delta] :=
  (digitalWrite_concurrent (m := powerUp) (by decide) (fun pin => if pin = 2 then 0 else 1) _
    (by decide)).mpr (by decide)

/-- Two threads set pins 2 and 4 in the same delta cycle: pin 2 is never set. -/
theorem digitalWrite_concurrent_bothSet :
    ¬ Always (HoldsWritten powerUp) writeStep [] (start powerUp)
      [.write 0 2 true, .write 1 4 true, .serve, .delta] := by
  intro h
  have hpin := h.last 2
  revert hpin
  decide

end Sched

end Espmod.Gpio
