/-
# Espmod.Gpio.Routing — from a selected pin to a peripheral input

`gpio_matrix_in` stores a selection for a signal and asks for a full update, which copies the stored
selections into the multiplexers; a multiplexer thread then shows the selected input and goes on
showing it while the input changes. Two slips break the chain. The loops that copy the pulse-counter
selections stop before the last index of each range, so the signals 58 and 82 keep the low tie they
start with. And the high tie signal `logic_1` starts low and nothing ever drives it.

The multiplexers are followers, so what they show is what they select; what remains is which
selection each of them has after any sequence of calls.
-/
import Espmod.Gpio.Matrix
import Espmod.Lib.Run
import Mathlib.Tactic.SplitIfs

namespace Espmod.Gpio

open Espmod.Lib

/-! ## §1 — selections -/

/-- A value `updateth` may hand to a multiplexer of the pulse counters: a pin that exists, or one of
the inputs that are no pins. -/
def LegalInput (i : Nat) : Prop := i < gpiomatrixAll ∧ (i < gpiomatrixCnt → getgpio i = true)

namespace MuxPcnt

/-- **What a selection changes**: the entry of the signal, when the value is legal. -/
theorem sel_mux {p : MuxPcnt} {bit i : Nat} (hi : LegalInput i) (u : Nat) (k : Fin 4) :
    ((p.mux bit i) u).sel k = if (u, k) = pcntSlot bit then i else (p u).sel k := by
  have hlegal : ¬ (gpiomatrixAll ≤ i ∨ i < gpiomatrixCnt ∧ getgpio i = false) := by
    rintro (hge | ⟨hlt, hno⟩)
    · exact absurd hi.1 (Nat.not_lt.mpr hge)
    · rw [hi.2 hlt] at hno
      cases hno
  unfold mux
  rw [if_neg hlegal]
  split
  next hsame =>
    split
    next hslot =>
      rw [← hslot] at hsame
      exact hsame
    · rfl
  · show (if u = (pcntSlot bit).1 then Follower.select (pcntSlot bit).2 i (p u) else (p u).wake).sel k
      = _
    by_cases hu : u = (pcntSlot bit).1
    · rw [if_pos hu]
      by_cases hk : k = (pcntSlot bit).2
      · rw [if_pos (Prod.ext hu hk)]
        simp [Follower.select, hk]
      · rw [if_neg (fun h => hk (congrArg Prod.snd h))]
        simp [Follower.select, hk]
    · rw [if_neg hu, if_neg (fun h => hu (congrArg Prod.fst h))]
      rfl

/-- A selection is announced to every thread it could matter to. -/
theorem follows_mux {p : MuxPcnt} {level : Nat → Bool} (h : ∀ u, Follower.Follows level (p u))
    (bit i : Nat) (u : Nat) : Follower.Follows level ((p.mux bit i) u) := by
  unfold mux
  split
  · exact h u
  · split
    · exact h u
    · show Follower.Follows level (if u = (pcntSlot bit).1 then _ else _)
      split
      · exact Follower.follows_of_pending rfl
      · exact Follower.follows_of_pending rfl

/-- The loops of `updateth`: the signals they visit get their values, the others keep theirs. -/
theorem sel_foldl {value : Nat → Nat} {l : List Nat} (hpcnt : ∀ b ∈ l, isPcnt b = true)
    (hlegal : ∀ b ∈ l, LegalInput (value b)) (p : MuxPcnt) {sig : Nat} (hsig : isPcnt sig = true) :
    ((l.foldl (fun p bit => p.mux bit (value bit)) p) (pcntSlot sig).1).sel (pcntSlot sig).2 =
      if sig ∈ l then value sig else (p (pcntSlot sig).1).sel (pcntSlot sig).2 := by
  induction l generalizing p with
  | nil => simp
  | cons b l ih =>
    have hb := hpcnt b (List.mem_cons_self ..)
    rw [List.foldl_cons, ih (fun c hc => hpcnt c (List.mem_cons_of_mem b hc))
      (fun c hc => hlegal c (List.mem_cons_of_mem b hc))]
    by_cases hmem : sig ∈ l
    · rw [if_pos hmem, if_pos (List.mem_cons_of_mem b hmem)]
    · rw [if_neg hmem, sel_mux (hlegal b (List.mem_cons_self ..))]
      by_cases heq : sig = b
      · subst heq
        simp
      · have hslot : ((pcntSlot sig).1, (pcntSlot sig).2) ≠ pcntSlot b :=
          fun h => heq (pcntSlot_inj hsig hb h)
        rw [if_neg hslot, if_neg (by simp [heq, hmem])]

theorem follows_foldl {level : Nat → Bool} (value : Nat → Nat) (l : List Nat) {p : MuxPcnt}
    (h : ∀ u, Follower.Follows level (p u)) (u : Nat) :
    Follower.Follows level ((l.foldl (fun p bit => p.mux bit (value bit)) p) u) := by
  induction l generalizing p with
  | nil => exact h u
  | cons b l ih => exact ih (fun v => follows_mux h b (value b) v)

end MuxPcnt

/-- The pulse-counter signals the loops visit: all but the last of each range. -/
theorem mem_pcntLoop (sig : Nat) :
    sig ∈ Routes.pcntLoop ↔ isPcnt sig = true ∧ sig ≠ pcntCtrlCh1In4Idx ∧ sig ≠ pcntCtrlCh1In7Idx := by
  unfold Routes.pcntLoop isPcnt
  rw [List.mem_append, List.mem_range'_1, List.mem_range'_1, decide_eq_true_iff]
  simp only [pcntSigCh0In0Idx, pcntCtrlCh1In4Idx, pcntSigCh0In5Idx, pcntCtrlCh1In7Idx]
  omega

/-! ## §2 — the calls and the inputs -/

/-- The selection `gpio_matrix_in` stores for a `gpio` argument. -/
def gpiofunc (gpio : Nat) (inv : Bool) : Nat :=
  if gpio < gpiomatrixCnt then gpio
  else if gpio = 0x30 ∧ inv = false ∨ gpio = 0x38 ∧ inv = true then gpiomatrixLogic0
  else if gpio = 0x38 ∧ inv = false ∨ gpio = 0x30 ∧ inv = true then gpiomatrixLogic1
  else if inv then gpiomatrixLogic1 else gpiomatrixLogic0

/-- `gpio_matrix_in`, without the update it asks for. -/
def gpioMatrixIn (gpio signal : Nat) (inv : Bool) (d : GpioDev) : GpioDev :=
  if 256 ≤ signal then d
  else
    { d with
      funcInSel := fun sig =>
        if sig = signal then BitVec.ofNat 6 (gpiofunc gpio inv) else d.funcInSel sig }

/-- The levels of the tie signals: both are constructed low and driven by nobody. -/
def logic0 : Bool := false
def logic1 : Bool := false

/-- The matrix with the levels of the pins and of the direct signals. -/
structure Router where
  m : Matrix
  pin : Nat → Bool
  direct : Nat → Bool

namespace Router

/-- The 43 inputs of the multiplexer of a signal. -/
def minI (pin : Nat → Bool) (direct : Bool) (i : Nat) : Bool :=
  if i < gpiomatrixCnt then pin i
  else if i = gpiomatrixDirect then direct
  else if i = gpiomatrixLogic0 then logic0
  else logic1

/-- The inputs of a `mux_in`, and of the pulse counters, whose direct signal is a tie too. -/
def inLevel (s : Router) (sig : Nat) : Nat → Bool := minI s.pin (s.direct sig)
def pcntLevel (s : Router) : Nat → Bool := minI s.pin false

/-- What can happen: a call (with the full update it asks for, in a delta cycle of its own), a level
that changes, and a turn of a multiplexer thread. -/
inductive RouteEvent where
  | matrixIn (gpio signal : Nat)
  | pinLevel (p : Nat) (v : Bool)
  | directLevel (sig : Nat) (v : Bool)
  | runIn (sig : Nat)
  | runUnit (u : Nat)
deriving Repr, DecidableEq

def matrixIn (gpio signal : Nat) (s : Router) : Router :=
  { s with m := ({ s.m with gpio := gpioMatrixIn gpio signal false s.m.gpio }.updateth .update).commit }

/-- Only a change wakes the threads that sleep on the signal. -/
def pinLevel (p : Nat) (v : Bool) (s : Router) : Router :=
  if s.pin p = v then s
  else
    { s with
      pin := fun q => if q = p then v else s.pin q
      m := { s.m with
        routes := {
          muxIn := fun sig => (s.m.routes.muxIn sig).inputChanged p
          muxPcnt := fun u => (s.m.routes.muxPcnt u).inputChanged p } } }

def directLevel (sig : Nat) (v : Bool) (s : Router) : Router :=
  if s.direct sig = v then s
  else
    { s with
      direct := fun q => if q = sig then v else s.direct q
      m := { s.m with
        routes := { s.m.routes with
          muxIn := fun q => if q = sig then (s.m.routes.muxIn q).inputChanged gpiomatrixDirect
            else s.m.routes.muxIn q } } }

def runIn (sig : Nat) (s : Router) : Router :=
  { s with
    m := { s.m with
      routes := { s.m.routes with
        muxIn := fun q => if q = sig then (s.m.routes.muxIn q).run (s.inLevel q)
          else s.m.routes.muxIn q } } }

def runUnit (u : Nat) (s : Router) : Router :=
  { s with
    m := { s.m with
      routes := { s.m.routes with
        muxPcnt := fun v => if v = u then (s.m.routes.muxPcnt v).run s.pcntLevel
          else s.m.routes.muxPcnt v } } }

def step (s : Router) : RouteEvent → Router
  | .matrixIn gpio signal => s.matrixIn gpio signal
  | .pinLevel p v => s.pinLevel p v
  | .directLevel sig v => s.directLevel sig v
  | .runIn sig => s.runIn sig
  | .runUnit u => s.runUnit u

/-- The block after construction, with some levels on the pins and the direct signals. -/
def new (pads : Nat → IoMux) (pin direct : Nat → Bool) : Router := ⟨Matrix.new pads, pin, direct⟩

/-! ## §3 — the property -/

/-- The peripheral inputs of the model. -/
def modelled (sig : Nat) : Bool := muxInSignals.contains sig || isPcnt sig

/-- What the peripheral sees on a signal. -/
def outOf (s : Router) (sig : Nat) : Bool :=
  if isPcnt sig then (s.m.routes.muxPcnt (pcntSlot sig).1).out (pcntSlot sig).2
  else (s.m.routes.muxIn sig).out ⟨0, Nat.one_pos⟩

/-- No multiplexer thread of a modelled signal has anything left to do. -/
def Settled (s : Router) : Prop :=
  (∀ sig ∈ muxInSignals, (s.m.routes.muxIn sig).pending = false) ∧
    ∀ u < 8, (s.m.routes.muxPcnt u).pending = false

instance (s : Router) : Decidable s.Settled := inferInstanceAs (Decidable (_ ∧ _))

/-- The `gpio` of the last call for a signal. -/
def lastSelected (sig : Nat) : List RouteEvent → Option Nat
  | [] => none
  | .matrixIn gpio signal :: es =>
    (lastSelected sig es).or (if signal = sig then some gpio else none)
  | _ :: es => lastSelected sig es

/-- The level a selection stands for: the pin's, or a constant. -/
def wanted (s : Router) (gpio : Nat) : Bool :=
  if gpio < gpiomatrixCnt then s.pin gpio else decide (gpio = 0x38)

/-- In a settled state every modelled input that has been selected shows the level of the pin, or the
constant, most recently selected for it. -/
def Routed (es : List RouteEvent) (s : Router) : Prop :=
  s.Settled → ∀ sig gpio, modelled sig = true → lastSelected sig es = some gpio →
    s.outOf sig = s.wanted gpio

/-- Legal arguments: a pin that exists or one of the two constants, and a signal of the matrix. -/
def LegalCall : RouteEvent → Prop
  | .matrixIn gpio signal =>
    (gpio < gpiomatrixCnt ∧ getgpio gpio = true ∨ gpio = 0x30 ∨ gpio = 0x38) ∧ signal < 256
  | _ => True

instance (e : RouteEvent) : Decidable (LegalCall e) := by
  unfold LegalCall
  split <;> infer_instance

/-- The selections that are forwarded: no constant 1 for a modelled signal, and nothing but constant 0
for the last signal of each range of the pulse counters. -/
def Forwarded : RouteEvent → Prop
  | .matrixIn gpio signal =>
    (modelled signal = true → gpio ≠ 0x38) ∧
      (signal = pcntCtrlCh1In4Idx ∨ signal = pcntCtrlCh1In7Idx → gpio = 0x30)
  | _ => True

instance (e : RouteEvent) : Decidable (Forwarded e) := by
  unfold Forwarded
  split <;> infer_instance

/-! ## §4 — the selections along a run -/

/-- The selection of the multiplexer that serves a signal. -/
def selOf (r : Routes) (sig : Nat) : Nat :=
  if isPcnt sig then (r.muxPcnt (pcntSlot sig).1).sel (pcntSlot sig).2
  else (r.muxIn sig).sel ⟨0, Nat.one_pos⟩

theorem pcntSlot_lt (sig : Nat) : (pcntSlot sig).1 < 8 := by
  unfold pcntSlot
  split <;> omega

theorem lt_of_modelled {sig : Nat} (h : modelled sig = true) : sig < 255 := by
  rcases Bool.or_eq_true _ _ ▸ h with hin | hp
  · have hall : ∀ q ∈ muxInSignals, q < 255 := by decide
    exact hall sig (by simpa using hin)
  · have hp' : pcntSigCh0In0Idx ≤ sig ∧ sig ≤ pcntCtrlCh1In4Idx
        ∨ pcntSigCh0In5Idx ≤ sig ∧ sig ≤ pcntCtrlCh1In7Idx := by simpa [isPcnt] using hp
    simp only [pcntCtrlCh1In4Idx, pcntCtrlCh1In7Idx] at hp'
    omega

theorem gpiofunc_lt (gpio : Nat) (inv : Bool) : gpiofunc gpio inv < 43 := by
  unfold gpiofunc gpiomatrixCnt gpiomatrixLogic0 gpiomatrixLogic1
  split_ifs <;> omega

/-- A legal `gpio` argument is stored as a value the multiplexers take. -/
theorem legalInput_gpiofunc {gpio : Nat}
    (h : gpio < gpiomatrixCnt ∧ getgpio gpio = true ∨ gpio = 0x30 ∨ gpio = 0x38) :
    LegalInput (gpiofunc gpio false) := by
  refine ⟨gpiofunc_lt gpio false, ?_⟩
  rcases h with ⟨hlt, hex⟩ | rfl | rfl
  · intro _
    rw [gpiofunc, if_pos hlt]
    exact hex
  · intro hlt
    exact absurd hlt (by decide)
  · intro hlt
    exact absurd hlt (by decide)

theorem funcInSel_gpioMatrixIn {gpio signal : Nat} (hsig : signal < 256) (d : GpioDev) (sig : Nat) :
    ((gpioMatrixIn gpio signal false d).funcInSel sig).toNat =
      if sig = signal then gpiofunc gpio false else (d.funcInSel sig).toNat := by
  unfold gpioMatrixIn
  rw [if_neg (Nat.not_le.mpr hsig)]
  show (if sig = signal then BitVec.ofNat 6 (gpiofunc gpio false) else d.funcInSel sig).toNat = _
  split
  · rw [BitVec.toNat_ofNat]
    exact Nat.mod_eq_of_lt (Nat.lt_trans (gpiofunc_lt gpio false) (by omega))
  · rfl

/-- **What a full update leaves selected**: the stored value, for every signal the update forwards,
and what stood there before for the two it forgets. -/
theorem selOf_copy {r : Routes} {value : Nat → BitVec 6} {sig : Nat} (hmod : modelled sig = true)
    (hlegal : ∀ q, modelled q = true → LegalInput (value q).toNat) :
    selOf (r.copy value) sig =
      if sig = pcntCtrlCh1In4Idx ∨ sig = pcntCtrlCh1In7Idx then selOf r sig
      else (value sig).toNat := by
  unfold selOf Routes.copy
  cases hp : isPcnt sig with
  | true =>
    have hpcnt : ∀ b ∈ Routes.pcntLoop, isPcnt b = true := fun b hb => ((mem_pcntLoop b).mp hb).1
    have hvalue : ∀ b ∈ Routes.pcntLoop, LegalInput (value b).toNat := by
      intro b hb
      apply hlegal
      rw [modelled, hpcnt b hb, Bool.or_true]
    show (List.foldl (fun p bit => MuxPcnt.mux bit (value bit).toNat p) r.muxPcnt Routes.pcntLoop
      (pcntSlot sig).1).sel (pcntSlot sig).2 = _
    have hloop := MuxPcnt.sel_foldl hpcnt hvalue r.muxPcnt hp
    rw [hloop]
    by_cases hmem : sig ∈ Routes.pcntLoop
    · have hne := (mem_pcntLoop sig).mp hmem
      rw [if_pos hmem, if_neg (by tauto)]
    · have hlast : sig = pcntCtrlCh1In4Idx ∨ sig = pcntCtrlCh1In7Idx := by
        by_contra hno
        exact hmem ((mem_pcntLoop sig).mpr ⟨hp, by tauto⟩)
      rw [if_neg hmem, if_pos hlast]
      rfl
  | false =>
    have hin : muxInSignals.contains sig = true := by
      rw [modelled, hp, Bool.or_false] at hmod
      exact hmod
    have hne : ¬ (sig = pcntCtrlCh1In4Idx ∨ sig = pcntCtrlCh1In7Idx) := by
      rintro (rfl | rfl) <;> exact absurd hp (by decide)
    rw [if_neg hne]
    show (if muxInSignals.contains sig = true then (r.muxIn sig).mux (value sig).toNat
      else r.muxIn sig).sel 0 = _
    rw [if_pos hin, MuxIn.mux, if_neg (Nat.not_le.mpr (hlegal sig hmod).1)]
    rfl

/-- Copying selections leaves every thread following: a changed one is announced. -/
theorem follows_copy {r : Routes} (value : Nat → BitVec 6) {inLevel : Nat → Nat → Bool}
    {pcntLevel : Nat → Bool} (hin : ∀ sig, Follower.Follows (inLevel sig) (r.muxIn sig))
    (hpcnt : ∀ u, Follower.Follows pcntLevel (r.muxPcnt u)) :
    (∀ sig, Follower.Follows (inLevel sig) ((r.copy value).muxIn sig)) ∧
      ∀ u, Follower.Follows pcntLevel ((r.copy value).muxPcnt u) := by
  constructor
  · intro sig
    show Follower.Follows _ (if muxInSignals.contains sig = true then
      (r.muxIn sig).mux (value sig).toNat else r.muxIn sig)
    split
    · unfold MuxIn.mux
      split
      · exact hin sig
      · exact Follower.follows_of_pending rfl
    · exact hin sig
  · intro u
    exact MuxPcnt.follows_foldl (fun b => (value b).toNat) Routes.pcntLoop hpcnt u

/-! ## §5 — the invariant -/

/-- Every multiplexer follows its selection; every stored value is legal and, for a signal that has
been selected, the one last asked for; and the multiplexer of such a signal selects it. -/
structure Tracked (es : List RouteEvent) (s : Router) : Prop where
  followsIn : ∀ sig, Follower.Follows (s.inLevel sig) (s.m.routes.muxIn sig)
  followsPcnt : ∀ u, Follower.Follows s.pcntLevel (s.m.routes.muxPcnt u)
  legal : ∀ sig, modelled sig = true → LegalInput (s.m.gpio.funcInSel sig).toNat
  stored : ∀ sig gpio, modelled sig = true → lastSelected sig es = some gpio →
    (s.m.gpio.funcInSel sig).toNat = gpiofunc gpio false
  selected : ∀ sig gpio, modelled sig = true → lastSelected sig es = some gpio →
    selOf s.m.routes sig = gpiofunc gpio false
  forgotten : ∀ sig, sig = pcntCtrlCh1In4Idx ∨ sig = pcntCtrlCh1In7Idx →
    selOf s.m.routes sig = gpiomatrixLogic0
  asked : ∀ sig gpio, modelled sig = true → lastSelected sig es = some gpio →
    gpio < gpiomatrixCnt ∨ gpio = 0x30

theorem lastSelected_append (sig : Nat) (es : List RouteEvent) (e : RouteEvent) :
    lastSelected sig (es ++ [e]) = (lastSelected sig [e]).or (lastSelected sig es) := by
  induction es with
  | nil =>
    show lastSelected sig [e] = (lastSelected sig [e]).or none
    rw [Option.or_none]
  | cons a es ih =>
    cases a with
    | matrixIn gpio signal =>
      show (lastSelected sig (es ++ [e])).or _
        = (lastSelected sig [e]).or ((lastSelected sig es).or _)
      rw [ih, Option.or_assoc]
    | pinLevel p v => exact ih
    | directLevel q v => exact ih
    | runIn q => exact ih
    | runUnit u => exact ih

theorem lastSelected_matrixIn (sig : Nat) (es : List RouteEvent) (gpio signal : Nat) :
    lastSelected sig (es ++ [RouteEvent.matrixIn gpio signal]) =
      if sig = signal then some gpio else lastSelected sig es := by
  rw [lastSelected_append]
  show (none.or (if signal = sig then some gpio else none)).or _ = _
  by_cases h : sig = signal
  · subst h
    simp
  · simp [h, Ne.symm h]

/-- An event that selects nothing. -/
theorem lastSelected_other {sig : Nat} {e : RouteEvent} (h : lastSelected sig [e] = none)
    (es : List RouteEvent) : lastSelected sig (es ++ [e]) = lastSelected sig es := by
  rw [lastSelected_append, h, Option.none_or]

/-- Events that only move levels and threads keep all the selections. -/
theorem Tracked.moved {es : List RouteEvent} {s s' : Router} {e : RouteEvent}
    (h : Tracked es s) (hgpio : s'.m.gpio = s.m.gpio)
    (hsel : ∀ sig, selOf s'.m.routes sig = selOf s.m.routes sig)
    (hnone : ∀ sig, lastSelected sig [e] = none)
    (hin : ∀ sig, Follower.Follows (s'.inLevel sig) (s'.m.routes.muxIn sig))
    (hpcnt : ∀ u, Follower.Follows s'.pcntLevel (s'.m.routes.muxPcnt u)) :
    Tracked (es ++ [e]) s' where
  followsIn := hin
  followsPcnt := hpcnt
  legal sig hmod := by
    rw [hgpio]
    exact h.legal sig hmod
  stored sig gpio hmod hl := by
    rw [lastSelected_other (hnone sig)] at hl
    rw [hgpio]
    exact h.stored sig gpio hmod hl
  selected sig gpio hmod hl := by
    rw [lastSelected_other (hnone sig)] at hl
    rw [hsel]
    exact h.selected sig gpio hmod hl
  forgotten sig hs := by
    rw [hsel]
    exact h.forgotten sig hs
  asked sig gpio hmod hl := by
    rw [lastSelected_other (hnone sig)] at hl
    exact h.asked sig gpio hmod hl

/-- A call with legal arguments that is forwarded. -/
theorem Tracked.matrixIn {es : List RouteEvent} {s : Router} (h : Tracked es s) {gpio signal : Nat}
    (hcall : LegalCall (.matrixIn gpio signal)) (hfwd : Forwarded (.matrixIn gpio signal)) :
    Tracked (es ++ [RouteEvent.matrixIn gpio signal]) (s.matrixIn gpio signal) := by
  obtain ⟨hgpio, hsig⟩ := hcall
  have hstored : ∀ q, ((s.matrixIn gpio signal).m.gpio.funcInSel q).toNat =
      if q = signal then gpiofunc gpio false else (s.m.gpio.funcInSel q).toNat :=
    fun q => funcInSel_gpioMatrixIn hsig s.m.gpio q
  have hroutes : (s.matrixIn gpio signal).m.routes =
      s.m.routes.copy (s.matrixIn gpio signal).m.gpio.funcInSel := rfl
  have hlegal : ∀ q, modelled q = true →
      LegalInput ((s.matrixIn gpio signal).m.gpio.funcInSel q).toNat := by
    intro q hmod
    rw [hstored]
    split
    · exact legalInput_gpiofunc hgpio
    · exact h.legal q hmod
  have hstored' : ∀ q g, modelled q = true →
      lastSelected q (es ++ [RouteEvent.matrixIn gpio signal]) = some g →
      ((s.matrixIn gpio signal).m.gpio.funcInSel q).toNat = gpiofunc g false := by
    intro q g hmod hl
    rw [lastSelected_matrixIn] at hl
    rw [hstored]
    split at hl
    next hq =>
      rw [if_pos hq, Option.some.inj hl]
    next hq =>
      rw [if_neg hq]
      exact h.stored q g hmod hl
  obtain ⟨hin, hpcnt⟩ := follows_copy (s.matrixIn gpio signal).m.gpio.funcInSel h.followsIn
    h.followsPcnt
  refine ⟨hin, hpcnt, hlegal, hstored', ?_, ?_, ?_⟩
  · intro q g hmod hl
    rw [hroutes, selOf_copy hmod hlegal]
    split
    next hlast =>
      -- forgotten by the loops: the low tie is what was asked for
      rw [h.forgotten q hlast]
      rw [lastSelected_matrixIn] at hl
      split at hl
      next hq =>
        rw [← Option.some.inj hl, hfwd.2 (hq ▸ hlast)]
        rfl
      next hq =>
        rw [← h.selected q g hmod hl, h.forgotten q hlast]
    · exact hstored' q g hmod hl
  · intro q hlast
    have hmod : modelled q = true := by rcases hlast with rfl | rfl <;> rfl
    rw [hroutes, selOf_copy hmod hlegal, if_pos hlast]
    exact h.forgotten q hlast
  · intro q g hmod hl
    rw [lastSelected_matrixIn] at hl
    split at hl
    next hq =>
      rw [← Option.some.inj hl]
      rcases hgpio with ⟨hlt, _⟩ | h30 | h38
      · exact Or.inl hlt
      · exact Or.inr h30
      · exact absurd h38 (hfwd.1 (hq ▸ hmod))
    · exact h.asked q g hmod hl

theorem minI_pin_ne {pin : Nat → Bool} {direct v : Bool} {p j : Nat} (h : j ≠ p) :
    minI (fun q => if q = p then v else pin q) direct j = minI pin direct j := by
  show (if j < gpiomatrixCnt then (if j = p then v else pin j) else _) = _
  rw [if_neg h]
  rfl

theorem minI_direct_ne {pin : Nat → Bool} {direct v : Bool} {j : Nat} (h : j ≠ gpiomatrixDirect) :
    minI pin v j = minI pin direct j := by
  unfold minI
  rw [if_neg h, if_neg h]

/-- The level of a pin changes. -/
theorem Tracked.pinLevel {es : List RouteEvent} {s : Router} (h : Tracked es s) (p : Nat) (v : Bool) :
    Tracked (es ++ [RouteEvent.pinLevel p v]) (s.pinLevel p v) := by
  unfold Router.pinLevel
  split
  · exact h.moved rfl (fun _ => rfl) (fun _ => rfl) h.followsIn h.followsPcnt
  · exact h.moved rfl (fun _ => rfl) (fun _ => rfl)
      (fun sig => (h.followsIn sig).inputChanged fun j hj => minI_pin_ne hj)
      (fun u => (h.followsPcnt u).inputChanged fun j hj => minI_pin_ne hj)

/-- The level on the direct input of a mux changes. -/
theorem Tracked.directLevel {es : List RouteEvent} {s : Router} (h : Tracked es s) (q : Nat)
    (v : Bool) : Tracked (es ++ [RouteEvent.directLevel q v]) (s.directLevel q v) := by
  unfold Router.directLevel
  split
  · exact h.moved rfl (fun _ => rfl) (fun _ => rfl) h.followsIn h.followsPcnt
  · refine h.moved rfl ?_ (fun _ => rfl) ?_ h.followsPcnt
    · intro sig
      unfold selOf
      dsimp only
      split
      · rfl
      · split <;> rfl
    · intro sig
      by_cases hsig : sig = q
      · have hother : ∀ j, j ≠ gpiomatrixDirect → minI s.pin v j = minI s.pin (s.direct sig) j :=
          fun j hj => minI_direct_ne hj
        have hf := (h.followsIn sig).inputChanged hother
        simpa [inLevel, hsig] using hf
      · simpa [inLevel, hsig] using h.followsIn sig

/-- The thread of a mux runs. -/
theorem Tracked.runIn {es : List RouteEvent} {s : Router} (h : Tracked es s) (q : Nat) :
    Tracked (es ++ [RouteEvent.runIn q]) (s.step (.runIn q)) := by
  refine h.moved rfl ?_ (fun _ => rfl) ?_ h.followsPcnt
  · intro sig
    unfold selOf
    show (if isPcnt sig then _ else
      (if sig = q then (s.m.routes.muxIn sig).run (s.inLevel sig) else s.m.routes.muxIn sig).sel 0)
      = _
    split
    · rfl
    · split
      · rw [Follower.sel_run]
        rfl
      · rfl
  · intro sig
    show Follower.Follows (s.inLevel sig)
      (if sig = q then (s.m.routes.muxIn sig).run (s.inLevel sig) else s.m.routes.muxIn sig)
    split
    · exact (h.followsIn sig).run
    · exact h.followsIn sig

/-- The thread of a counter's mux runs. -/
theorem Tracked.runUnit {es : List RouteEvent} {s : Router} (h : Tracked es s) (u : Nat) :
    Tracked (es ++ [RouteEvent.runUnit u]) (s.step (.runUnit u)) := by
  refine h.moved rfl ?_ (fun _ => rfl) h.followsIn ?_
  · intro sig
    unfold selOf
    show (if isPcnt sig then
      (if (pcntSlot sig).1 = u then (s.m.routes.muxPcnt (pcntSlot sig).1).run s.pcntLevel
        else s.m.routes.muxPcnt (pcntSlot sig).1).sel (pcntSlot sig).2 else _) = _
    split
    · split
      · rw [Follower.sel_run]
      · rfl
    · rfl
  · intro w
    show Follower.Follows s.pcntLevel
      (if w = u then (s.m.routes.muxPcnt w).run s.pcntLevel else s.m.routes.muxPcnt w)
    split
    · exact (h.followsPcnt w).run
    · exact h.followsPcnt w

/-- **One step.** -/
theorem Tracked.step {es : List RouteEvent} {s : Router} (h : Tracked es s) {e : RouteEvent}
    (hcall : LegalCall e) (hfwd : Forwarded e) : Tracked (es ++ [e]) (s.step e) := by
  cases e with
  | matrixIn gpio signal => exact h.matrixIn hcall hfwd
  | pinLevel p v => exact h.pinLevel p v
  | directLevel q v => exact h.directLevel q v
  | runIn q => exact h.runIn q
  | runUnit u => exact h.runUnit u

theorem tracked_new (pads : Nat → IoMux) (pin direct : Nat → Bool) :
    Tracked [] (new pads pin direct) where
  followsIn _ := Follower.follows_of_pending rfl
  followsPcnt _ := Follower.follows_of_pending rfl
  legal sig hmod := by
    show LegalInput (if sig < 255 then BitVec.ofNat 6 gpiomatrixLogic0 else 0).toNat
    rw [if_pos (lt_of_modelled hmod)]
    exact ⟨by decide, fun h => absurd h (by decide)⟩
  stored _ _ _ hl := by cases hl
  selected _ _ _ hl := by cases hl
  forgotten sig hs := by rcases hs with rfl | rfl <;> rfl
  asked _ _ _ hl := by cases hl

/-- The level of a multiplexer input that stands for a pin or the constant 0. -/
theorem minI_gpiofunc {pin : Nat → Bool} {direct : Bool} {gpio : Nat}
    (h : gpio < gpiomatrixCnt ∨ gpio = 0x30) :
    minI pin direct (gpiofunc gpio false) =
      if gpio < gpiomatrixCnt then pin gpio else decide (gpio = 0x38) := by
  rcases h with hlt | rfl
  · rw [gpiofunc, if_pos hlt, minI, if_pos hlt, if_pos hlt]
  · rfl

theorem Tracked.routed {es : List RouteEvent} {s : Router} (h : Tracked es s) : Routed es s := by
  intro hs sig gpio hmod hl
  have hsel := h.selected sig gpio hmod hl
  have hasked := h.asked sig gpio hmod hl
  unfold outOf wanted
  unfold selOf at hsel
  cases hp : isPcnt sig with
  | true =>
    rw [if_pos hp] at hsel
    have hout := (h.followsPcnt (pcntSlot sig).1 (hs.2 _ (pcntSlot_lt sig))).2 (pcntSlot sig).2
    rw [hsel] at hout
    exact hout.trans (minI_gpiofunc hasked)
  | false =>
    rw [if_neg (by simp [hp])] at hsel
    have hin : muxInSignals.contains sig = true := by
      rw [modelled, hp, Bool.or_false] at hmod
      exact hmod
    have hout := (h.followsIn sig (hs.1 sig (by simpa using hin))).2 ⟨0, Nat.one_pos⟩
    rw [hsel] at hout
    exact hout.trans (minI_gpiofunc hasked)

/-! ## §6 — runs -/

/-- **Input routing.** From construction on, in every run of calls with legal arguments that are all
forwarded, of level changes and of turns of the multiplexer threads, in every settled state each
modelled input that has been selected shows the level of the pin most recently selected for it, or
the constant 0. -/
theorem inputs_routed (pads : Nat → IoMux) (pin direct : Nat → Bool) (es : List RouteEvent)
    (hlegal : ∀ e ∈ es, LegalCall e) (hfwd : ∀ e ∈ es, Forwarded e) :
    Always Routed step [] (new pads pin direct) es := by
  have hok : Throughout (fun _ e => LegalCall e ∧ Forwarded e) step (new pads pin direct) es := by
    rw [throughout_forall]
    intro e he
    exact ⟨hlegal e he, hfwd e he⟩
  refine always_of_throughout (I := Tracked) ?_ ?_ es [] (new pads pin direct) ?_ hok
  · intro _ s h
    exact h.routed
  · intro _ s e h hok
    exact h.step hok.1 hok.2
  · exact tracked_new pads pin direct

/-- The first UART listens to pin 4 and a pulse counter to constant 0 while the pin rises. -/
theorem inputs_routed_uart :
    Always Routed step [] (new (fun _ => IoMux.new 0 0 false .gpio [] [] 0) (fun _ => false)
        fun _ => false)
      [.matrixIn 4 14, .matrixIn 0x30 58, .runIn 14, .pinLevel 4 true, .runIn 14] :=
  inputs_routed _ _ _ _ (by decide) (by decide)

/-- Every multiplexer thread takes a turn. -/
def allRun : List RouteEvent := muxInSignals.map .runIn ++ (List.range 8).map .runUnit

/-- Pin 4 is high and selected for the last pulse-counter signal, which stays low. -/
theorem inputs_routed_lastCounter :
    ¬ Always Routed step [] (new (fun _ => IoMux.new 0 0 false .gpio [] [] 0) (fun _ => true)
        fun _ => false) (.matrixIn 4 82 :: allRun) := by
  intro h
  have hlow := h.last (by decide +kernel) 82 4 (by decide) (by decide)
  revert hlow
  decide +kernel

end Router

end Espmod.Gpio
