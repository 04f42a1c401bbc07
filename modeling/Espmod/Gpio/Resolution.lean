/-
# Espmod.Gpio.Resolution — whether the drivers of a net may come in any order

`gn_mixed_resolve` takes the drivers of a net in the order in which they wrote first, the first one and
then from the last one down, so a net has a value of its own only if that order does not matter. The loop
stops at a result without a logic level. This is meant for a conflict, which nothing undoes; but two weak
levels conflict too, although a strong one would beat both, and an analog level has no logic level either,
so an analog driver that comes first stops the loop before it has met any other.

An analog level is a `float`, and two of them are compared within a tolerance. The comparison is a
parameter here: nothing is assumed of it.
-/
import Mathlib.Data.List.Perm.Basic
import Mathlib.Data.List.Induction
import Espmod.Gpio.Mixed

namespace Espmod.Gpio

open GnLogic (ScLogic)

/-! ## §1 — driver values -/

/-- `gn_mixed::gn_param_t`. -/
inductive GnParam where
  | strong
  | weak
  | z
  | analog
deriving Repr, DecidableEq

/-- `gn_mixed`, as its constructors leave it, with levels in `L`. -/
structure GnMixed (L : Type) where
  logic : ScLogic
  param : GnParam
  lvl : L
  isZ : logic = .z ↔ param = .z
  analogX : param = .analog → logic = .x
  weakLevel : param = .weak → logic = .zero ∨ logic = .one

/-- `vdd_lvl`, `vss_lvl` and `undef_lvl`. -/
structure GnLevels (L : Type) where
  vdd : L
  vss : L
  undef : L

variable {L : Type}

namespace GnMixed

/-- `guess_lvl`. -/
def guessLvl (lv : GnLevels L) : ScLogic → L
  | .zero => lv.vss
  | .one => lv.vdd
  | .z => lv.undef
  | .x => lv.undef

/-- `guess_param`. -/
def guessParam : GnLogic → GnParam
  | .logicW0 | .logicW1 => .weak
  | .logicA => .analog
  | .logicZ => .z
  | .logic0 | .logic1 | .logicX => .strong

/-- The constructor from a `gn_logic_t`. -/
def ofLogic (lv : GnLevels L) (g : GnLogic) : GnMixed L where
  logic := g.scLogic
  param := guessParam g
  lvl := guessLvl lv g.scLogic
  isZ := by cases g <;> decide
  analogX := by cases g <;> decide
  weakLevel := by cases g <;> decide

/-- The constructor from a level. -/
def ofLvl (l : L) : GnMixed L where
  logic := .x
  param := .analog
  lvl := l
  isZ := by decide
  analogX _ := rfl
  weakLevel h := nomatch h

/-- `value`. -/
def value (a : GnMixed L) : GnLogic :=
  if a.param = .analog then .logicA
  else match a.logic with
    | .x => .logicX
    | .z => .logicZ
    | .zero => if a.param = .weak then .logicW0 else .logic0
    | .one => if a.param = .weak then .logicW1 else .logic1

/-- `operator ==`, with the comparison of two analog levels. -/
def Same (near : L → L → Prop) (a b : GnMixed L) : Prop :=
  a.logic = b.logic ∧ a.param = b.param ∧ (a.param = .analog → near a.lvl b.lvl)

/-! ## §2 — resolution -/

/-- A turn of the loop; a result without a logic level ends it. -/
def resolveStep (lv : GnLevels L) (res current : GnMixed L) : GnMixed L :=
  if res.logic = .x then res
  else if res.value = .logicZ then current
  else if current.value = .logicZ then res
  else ofLogic lv (GnLogic.resolutionTbl res.value current.value)

/-- `gn_mixed_resolve`. It asserts that there is a driver. -/
def resolve (lv : GnLevels L) : List (GnMixed L) → GnMixed L
  | [] => ofLogic lv .logicX
  | v :: rest => rest.reverse.foldl (resolveStep lv) v

/-! ## §3 — the specification -/

/-- **A net has a value of its own**: the drivers give the same in any order, and with more or fewer that
are in high impedance; and a strong 0 wins where no strong 1, analog or conflicting driver is. -/
structure OrderFree (near : L → L → Prop) (lv : GnLevels L) (vs : List (GnMixed L)) : Prop where
  order : ∀ us ws : List (GnMixed L), us.Perm vs → ws.Perm vs →
    Same near (resolve lv us) (resolve lv ws)
  highZ : (∃ v ∈ vs, v.value ≠ .logicZ) → ∀ ws : List (GnMixed L),
    ws.filter (fun v => decide (v.value ≠ .logicZ)) = vs.filter (fun v => decide (v.value ≠ .logicZ)) →
      Same near (resolve lv ws) (resolve lv vs)
  strong : (∃ v ∈ vs, v.value = .logic0) →
    (∀ v ∈ vs, v.value ≠ .logic1 ∧ v.value ≠ .logicA ∧ v.value ≠ .logicX) →
      Same near (resolve lv vs) (ofLogic lv .logic0)

/-- An analog driver is beside none but analog drivers of a level near its own; and where no driver is
analog or conflicting, both weak levels are there only with both strong levels or with none. -/
structure Compatible (near : L → L → Prop) (vs : List (GnMixed L)) : Prop where
  analog : ∀ x ∈ vs, x.value = .logicA → ∀ y ∈ vs, y.value ≠ .logicZ → y.value = .logicA ∧ near x.lvl y.lvl
  weak : (∀ v ∈ vs, v.value ≠ .logicA ∧ v.value ≠ .logicX) →
    (∃ v ∈ vs, v.value = .logicW0) → (∃ v ∈ vs, v.value = .logicW1) →
      ((∃ v ∈ vs, v.value = .logic0) ↔ ∃ v ∈ vs, v.value = .logic1)

/-! ## §4 — values -/

/-- A driver is its value, but for the level; the other combinations cannot be built. -/
theorem logic_param_value (a : GnMixed L) : a.value.scLogic = a.logic ∧ guessParam a.value = a.param := by
  obtain ⟨logic, param, lvl, hz, ha, hw⟩ := a
  cases logic <;> cases param <;>
    first
    | exact ⟨rfl, rfl⟩
    | exact absurd (hz.mp rfl) (by decide)
    | exact absurd (hz.mpr rfl) (by decide)
    | exact absurd (ha rfl) (by decide)
    | exact absurd (hw rfl) (by decide)

theorem logic_value (a : GnMixed L) : a.value.scLogic = a.logic := (logic_param_value a).1

theorem param_value (a : GnMixed L) : guessParam a.value = a.param := (logic_param_value a).2

@[simp] theorem value_ofLogic (lv : GnLevels L) (g : GnLogic) : (ofLogic lv g).value = g := by
  cases g <;> rfl

variable {near : L → L → Prop} {lv : GnLevels L} {a b : GnMixed L}

theorem analog_iff : a.param = .analog ↔ a.value = .logicA := by
  rw [← param_value]
  cases a.value <;> simp [guessParam]

/-- Two drivers of one value are the same unless it is analog. -/
theorem same_of_value (h : a.value = b.value) (ha : a.value ≠ .logicA) : Same near a b := by
  refine ⟨?_, ?_, fun hanalog => absurd (analog_iff.mp hanalog) ha⟩
  · rw [← logic_value, ← logic_value, h]
  · rw [← param_value, ← param_value, h]

theorem Same.value (h : Same near a b) : a.value = b.value := by
  unfold GnMixed.value
  rw [h.1, h.2.1]

/-- The loop on drivers is the loop on their values. -/
theorem value_resolveStep : (resolveStep lv a b).value = GnLogic.resolveStep a.value b.value := by
  unfold resolveStep GnLogic.resolveStep
  rw [logic_value]
  split
  · rfl
  · split
    · rfl
    · split
      · rfl
      · exact value_ofLogic lv _

theorem value_foldl (l : List (GnMixed L)) (a : GnMixed L) :
    (l.foldl (resolveStep lv) a).value = (l.map value).foldl GnLogic.resolveStep a.value := by
  induction l generalizing a with
  | nil => rfl
  | cons b l ih => rw [List.foldl_cons, ih, value_resolveStep, List.map_cons, List.foldl_cons]

/-- **The resolution of a net, up to analog levels**, is that of the values. -/
theorem value_resolve (vs : List (GnMixed L)) :
    (resolve lv vs).value = GnLogic.resolve (vs.map value) := by
  cases vs with
  | nil => exact value_ofLogic lv _
  | cons v rest =>
    show (rest.reverse.foldl (resolveStep lv) v).value = (rest.map value).reverse.foldl _ v.value
    rw [value_foldl, List.map_reverse]

/-! ## §5 — values without an analog level -/

/-- The levels that a loop has met. -/
structure Met where
  s0 : Bool
  s1 : Bool
  w0 : Bool
  w1 : Bool
  x : Bool

namespace Met

def ofList (gs : List GnLogic) : Met where
  s0 := decide (.logic0 ∈ gs)
  s1 := decide (.logic1 ∈ gs)
  w0 := decide (.logicW0 ∈ gs)
  w1 := decide (.logicW1 ∈ gs)
  x := decide (.logicX ∈ gs)

/-- What they should come to: a strong level beats the weak ones, and two of a kind conflict. -/
def outcome (m : Met) : GnLogic :=
  if m.x then .logicX
  else if m.s0 then (if m.s1 then .logicX else .logic0)
  else if m.s1 then .logic1
  else if m.w0 then (if m.w1 then .logicX else .logicW0)
  else if m.w1 then .logicW1
  else .logicZ

/-- What the loop has come to: that, or the conflict of two weak levels. -/
def Reaches (m : Met) (res : GnLogic) : Prop :=
  res = m.outcome ∨ res = .logicX ∧ m.w0 = true ∧ m.w1 = true

def add (m : Met) : GnLogic → Met
  | .logic0 => { m with s0 := true }
  | .logic1 => { m with s1 := true }
  | .logicW0 => { m with w0 := true }
  | .logicW1 => { m with w1 := true }
  | .logicX => { m with x := true }
  | .logicZ => m
  | .logicA => m

theorem ofList_append (gs : List GnLogic) (g : GnLogic) : ofList (gs ++ [g]) = (ofList gs).add g := by
  cases g <;> simp [ofList, add]

instance (m : Met) (res : GnLogic) : Decidable (m.Reaches res) := inferInstanceAs (Decidable (_ ∨ _))

/-- A turn of the loop at what they should come to. -/
theorem outcome_add {g : GnLogic} (hg : g ≠ .logicA) :
    ∀ s0 s1 w0 w1 x : Bool, (add ⟨s0, s1, w0, w1, x⟩ g).Reaches
      (GnLogic.resolveStep (outcome ⟨s0, s1, w0, w1, x⟩) g) := by
  cases g with
  | logicA => exact absurd rfl hg
  | logic0 => decide
  | logic1 => decide
  | logicW0 => decide
  | logicW1 => decide
  | logicZ => decide
  | logicX => decide

theorem Reaches.add {m : Met} {res g : GnLogic} (h : m.Reaches res) (hg : g ≠ .logicA) :
    (m.add g).Reaches (GnLogic.resolveStep res g) := by
  rcases h with rfl | ⟨rfl, h0, h1⟩
  · exact outcome_add hg m.s0 m.s1 m.w0 m.w1 m.x
  · refine Or.inr ⟨rfl, ?_⟩
    cases g <;> exact ⟨by first | rfl | exact h0, by first | rfl | exact h1⟩

/-- **The loop over values without an analog level.** -/
theorem reaches_foldl (gs : List GnLogic) (hA : .logicA ∉ gs) :
    (ofList gs).Reaches (gs.foldl GnLogic.resolveStep .logicZ) := by
  induction gs using List.reverseRecOn with
  | nil => exact Or.inl rfl
  | append_singleton gs g ih =>
    rw [List.foldl_append, ofList_append]
    exact (ih fun h => hA (List.mem_append_left _ h)).add
      fun h => hA (List.mem_append_right _ (h ▸ List.mem_singleton_self g))

/-- High impedance is not met, nor does it matter in which order the others are. -/
theorem ofList_congr {gs hs : List GnLogic} (h : ∀ g, g ≠ .logicZ → (g ∈ gs ↔ g ∈ hs)) :
    ofList gs = ofList hs := by
  unfold ofList
  rw [decide_eq_decide.mpr (h .logic0 (by decide)), decide_eq_decide.mpr (h .logic1 (by decide)),
    decide_eq_decide.mpr (h .logicW0 (by decide)), decide_eq_decide.mpr (h .logicW1 (by decide)),
    decide_eq_decide.mpr (h .logicX (by decide))]

/-- The whole resolution: the first value stands for the one that any other replaces. -/
theorem reaches_resolve {gs : List GnLogic} (hne : gs ≠ []) (hA : .logicA ∉ gs) :
    (ofList gs).Reaches (GnLogic.resolve gs) := by
  cases gs with
  | nil => exact absurd rfl hne
  | cons g gs =>
    have hloop : GnLogic.resolve (g :: gs) = (g :: gs.reverse).foldl GnLogic.resolveStep .logicZ := by
      cases g <;> rfl
    have hmem : ∀ k, k ∈ g :: gs.reverse ↔ k ∈ g :: gs := by
      intro k
      rw [List.mem_cons, List.mem_cons, List.mem_reverse]
    rw [hloop, ofList_congr fun k _ => (hmem k).symm]
    exact reaches_foldl _ fun h => hA ((hmem _).mp h)

end Met

/-! ## §6 — nets that are compatible -/

theorem mem_value {vs : List (GnMixed L)} {g : GnLogic} : g ∈ vs.map value ↔ ∃ v ∈ vs, v.value = g :=
  List.mem_map

/-- What a net without analog drivers comes to depends on which levels are there. -/
theorem Compatible.digital {vs ws : List (GnMixed L)} (hc : Compatible near vs)
    (hA : ∀ v ∈ vs, v.value ≠ .logicA) (hne : ws ≠ [])
    (hsame : ∀ g, g ≠ .logicZ → (g ∈ ws.map value ↔ g ∈ vs.map value)) :
    (resolve lv ws).value = (Met.ofList (vs.map value)).outcome := by
  have hAws : .logicA ∉ ws.map value := by
    intro h
    obtain ⟨v, hv, hval⟩ := mem_value.mp ((hsame .logicA (by decide)).mp h)
    exact hA v hv hval
  have hreach := Met.reaches_resolve (by simpa using hne) hAws
  rw [Met.ofList_congr hsame, ← @value_resolve L lv] at hreach
  rcases hreach with h | ⟨h, h0, h1⟩
  · exact h
  · -- the weak levels conflict: so do the strong ones, or there are none
    rw [h]
    have hw0 := mem_value.mp (of_decide_eq_true h0)
    have hw1 := mem_value.mp (of_decide_eq_true h1)
    unfold Met.outcome
    by_cases hx : .logicX ∈ vs.map value
    · have hconflict : (Met.ofList (vs.map value)).x = true := decide_eq_true hx
      rw [if_pos hconflict]
    · have hX : ∀ v ∈ vs, v.value ≠ .logicA ∧ v.value ≠ .logicX :=
        fun v hv => ⟨hA v hv, fun hval => hx (mem_value.mpr ⟨v, hv, hval⟩)⟩
      have hboth := hc.weak hX hw0 hw1
      rw [← mem_value, ← mem_value] at hboth
      have heq : (Met.ofList (vs.map value)).s0 = (Met.ofList (vs.map value)).s1 :=
        decide_eq_decide.mpr hboth
      rw [heq, h0, h1]
      cases (Met.ofList (vs.map value)).s1 <;> simp

/-- The loop from an analog driver. -/
theorem foldl_analog (l : List (GnMixed L)) (ha : a.value = .logicA) : l.foldl (resolveStep lv) a = a := by
  have hx : a.logic = .x := a.analogX (analog_iff.mpr ha)
  induction l with
  | nil => rfl
  | cons b l ih =>
    rw [List.foldl_cons, show resolveStep lv a b = a from if_pos hx]
    exact ih

/-- What a net of analog drivers comes to is one of them. -/
theorem resolve_analog {ws : List (GnMixed L)} (hA : ∀ w ∈ ws, w.value ≠ .logicZ → w.value = .logicA)
    (hne : ∃ w ∈ ws, w.value ≠ .logicZ) : resolve lv ws ∈ ws ∧ (resolve lv ws).value = .logicA := by
  have hloop : ∀ (l : List (GnMixed L)) (a : GnMixed L),
      (∀ w ∈ a :: l, w.value ≠ .logicZ → w.value = .logicA) → (∃ w ∈ a :: l, w.value ≠ .logicZ) →
        l.foldl (resolveStep lv) a ∈ a :: l ∧ (l.foldl (resolveStep lv) a).value = .logicA := by
    intro l
    induction l with
    | nil =>
      intro a hall hex
      obtain ⟨w, hw, hz⟩ := hex
      obtain rfl := List.mem_singleton.mp hw
      exact ⟨List.mem_singleton_self _, hall _ (List.mem_singleton_self _) hz⟩
    | cons b l ih =>
      intro a hall hex
      by_cases hz : a.value = .logicZ
      · -- the next driver replaces it
        have hlogic : a.logic ≠ .x := by
          rw [← logic_value, hz]
          decide
        have hnext : resolveStep lv a b = b := by
          unfold resolveStep
          rw [if_neg hlogic, if_pos hz]
        obtain ⟨w, hw, hwz⟩ := hex
        have hw' : w ∈ b :: l := (List.mem_cons.mp hw).resolve_left fun heq => hwz (heq ▸ hz)
        obtain ⟨hmem, hval⟩ := ih b (fun w hw => hall w (List.mem_cons_of_mem _ hw)) ⟨w, hw', hwz⟩
        rw [List.foldl_cons, hnext]
        exact ⟨List.mem_cons_of_mem _ hmem, hval⟩
      · have ha := hall a List.mem_cons_self hz
        rw [foldl_analog _ ha]
        exact ⟨List.mem_cons_self, ha⟩
  cases ws with
  | nil =>
    obtain ⟨w, hw, _⟩ := hne
    cases hw
  | cons a rest =>
    have hmem : ∀ w, w ∈ a :: rest.reverse ↔ w ∈ a :: rest := by
      intro w
      rw [List.mem_cons, List.mem_cons, List.mem_reverse]
    obtain ⟨w, hw, hz⟩ := hne
    obtain ⟨hin, hval⟩ := hloop rest.reverse a (fun w hw => hA w ((hmem w).mp hw))
      ⟨w, (hmem w).mpr hw, hz⟩
    exact ⟨(hmem _).mp hin, hval⟩

/-- **Compatible drivers** come to the same, however they are ordered and however many are in high
impedance. -/
theorem Compatible.same {vs us ws : List (GnMixed L)} (hc : Compatible near vs)
    (hus : us ≠ [] ∧ ∀ v, v.value ≠ .logicZ → (v ∈ us ↔ v ∈ vs))
    (hws : ws ≠ [] ∧ ∀ v, v.value ≠ .logicZ → (v ∈ ws ↔ v ∈ vs)) :
    Same near (resolve lv us) (resolve lv ws) := by
  by_cases hA : ∃ x ∈ vs, x.value = .logicA
  · obtain ⟨x, hx, hxA⟩ := hA
    -- either net comes to one of the analog drivers, and these are near each other
    have hone : ∀ {l : List (GnMixed L)}, (∀ v, v.value ≠ .logicZ → (v ∈ l ↔ v ∈ vs)) →
        resolve lv l ∈ vs ∧ (resolve lv l).value = .logicA := by
      intro l hl
      have hxZ : x.value ≠ .logicZ := by
        rw [hxA]
        decide
      obtain ⟨hmem, hval⟩ := @resolve_analog L lv l
        (fun w hw hz => (hc.analog x hx hxA w ((hl w hz).mp hw) hz).1) ⟨x, (hl x hxZ).mpr hx, hxZ⟩
      have hz : (resolve lv l).value ≠ .logicZ := by
        rw [hval]
        decide
      exact ⟨(hl _ hz).mp hmem, hval⟩
    obtain ⟨hu, hua⟩ := hone hus.2
    obtain ⟨hw, hwa⟩ := hone hws.2
    have hwz : (resolve lv ws).value ≠ .logicZ := by
      rw [hwa]
      decide
    refine ⟨?_, ?_, fun _ => (hc.analog _ hu hua _ hw hwz).2⟩
    · rw [← logic_value, ← logic_value, hua, hwa]
    · rw [← param_value, ← param_value, hua, hwa]
  · have hnoA : ∀ v ∈ vs, v.value ≠ .logicA := fun v hv hval => hA ⟨v, hv, hval⟩
    have hvalues : ∀ {l : List (GnMixed L)}, (∀ v, v.value ≠ .logicZ → (v ∈ l ↔ v ∈ vs)) →
        ∀ g, g ≠ .logicZ → (g ∈ l.map value ↔ g ∈ vs.map value) := by
      intro l hl g hg
      rw [mem_value, mem_value]
      constructor
      · rintro ⟨v, hv, rfl⟩
        exact ⟨v, (hl v hg).mp hv, rfl⟩
      · rintro ⟨v, hv, rfl⟩
        exact ⟨v, (hl v hg).mpr hv, rfl⟩
    have hu := @Compatible.digital L near lv vs us hc hnoA hus.1 (hvalues hus.2)
    have hw := @Compatible.digital L near lv vs ws hc hnoA hws.1 (hvalues hws.2)
    refine same_of_value (hu.trans hw.symm) ?_
    rw [hu]
    unfold Met.outcome
    repeat' split
    all_goals decide

theorem Compatible.orderFree {vs : List (GnMixed L)} (hc : Compatible near vs) : OrderFree near lv vs where
  order us ws hus hws := by
    by_cases hne : vs = []
    · subst hne
      obtain rfl := hus.eq_nil
      obtain rfl := hws.eq_nil
      exact same_of_value rfl (show GnLogic.logicX ≠ .logicA by decide)
    · refine hc.same ⟨fun h => hne ?_, fun v _ => hus.mem_iff⟩ ⟨fun h => hne ?_, fun v _ => hws.mem_iff⟩
      · exact (h ▸ hus).symm.eq_nil
      · exact (h ▸ hws).symm.eq_nil
  highZ hex ws hfilter := by
    obtain ⟨v, hv, hz⟩ := hex
    have hmem : ∀ w, w.value ≠ .logicZ → (w ∈ ws ↔ w ∈ vs) := by
      intro w hw
      have hin : ∀ l : List (GnMixed L),
          w ∈ l.filter (fun v => decide (v.value ≠ .logicZ)) ↔ w ∈ l := by
        intro l
        rw [List.mem_filter]
        exact and_iff_left (decide_eq_true hw)
      rw [← hin ws, hfilter, hin vs]
    refine hc.same ⟨?_, hmem⟩ ⟨List.ne_nil_of_mem hv, fun _ _ => Iff.rfl⟩
    exact List.ne_nil_of_mem ((hmem v hz).mpr hv)
  strong hex hno := by
    obtain ⟨v, hv, hval⟩ := hex
    have hx : (Met.ofList (vs.map value)).x = false := by
      refine decide_eq_false fun h => ?_
      obtain ⟨w, hw, hwx⟩ := mem_value.mp h
      exact (hno w hw).2.2 hwx
    have h0 : (Met.ofList (vs.map value)).s0 = true := decide_eq_true (mem_value.mpr ⟨v, hv, hval⟩)
    have h1 : (Met.ofList (vs.map value)).s1 = false := by
      refine decide_eq_false fun h => ?_
      obtain ⟨w, hw, hw1⟩ := mem_value.mp h
      exact (hno w hw).1 hw1
    have hzero : (resolve lv vs).value = .logic0 := by
      rw [hc.digital (fun w hw => (hno w hw).2.1) (List.ne_nil_of_mem hv) fun _ _ => Iff.rfl]
      unfold Met.outcome
      rw [hx, h0, h1]
      rfl
    refine same_of_value (hzero.trans (value_ofLogic lv _).symm) ?_
    rw [hzero]
    decide

/-! ## §7 — nets that are not -/

/-- A driver may come first. -/
theorem perm_first {vs : List (GnMixed L)} (ha : a ∈ vs) : ∃ rest, (a :: rest).Perm vs := by
  obtain ⟨l, r, rfl⟩ := List.append_of_mem ha
  exact ⟨l ++ r, List.perm_middle.symm⟩

/-- And another one last. -/
theorem perm_ends {vs : List (GnMixed L)} (ha : a ∈ vs) (hb : b ∈ vs) (hne : a.value ≠ b.value) :
    ∃ rest, (a :: (rest ++ [b])).Perm vs := by
  obtain ⟨rest, hrest⟩ := perm_first ha
  have hb' : b ∈ rest := by
    have hmem := hrest.mem_iff.mpr hb
    exact (List.mem_cons.mp hmem).resolve_left fun heq => hne (congrArg value heq).symm
  obtain ⟨rest', hrest'⟩ := perm_first hb'
  have hlast : (rest' ++ [b]).Perm (b :: rest') := List.perm_append_singleton b rest'
  exact ⟨rest', ((hlast.trans hrest').cons a).trans hrest⟩

/-- A loop from a level that is not analog does not come to an analog one. -/
theorem foldl_not_analog (gs : List GnLogic) : ∀ g : GnLogic, g ≠ .logicZ → g ≠ .logicA →
    gs.foldl GnLogic.resolveStep g ≠ .logicA := by
  induction gs with
  | nil => exact fun _ _ hA => hA
  | cons k gs ih =>
    intro g hz hA
    have hstep : GnLogic.resolveStep g k ≠ .logicZ ∧ GnLogic.resolveStep g k ≠ .logicA := by
      cases g <;> cases k <;> first | decide | exact absurd rfl hz | exact absurd rfl hA
    rw [List.foldl_cons]
    exact ih _ hstep.1 hstep.2

/-- A strong level stays if the other one, analog levels and conflicts are not met. -/
theorem foldl_strong (lvl : Bool) (gs : List GnLogic)
    (hgs : ∀ g ∈ gs, g ≠ .strong (!lvl) ∧ g ≠ .logicA ∧ g ≠ .logicX) :
    gs.foldl GnLogic.resolveStep (.strong lvl) = .strong lvl := by
  induction gs with
  | nil => rfl
  | cons g gs ih =>
    obtain ⟨hother, hA, hX⟩ := hgs g List.mem_cons_self
    have hstep : GnLogic.resolveStep (.strong lvl) g = .strong lvl := by
      cases lvl <;> cases g <;>
        first | rfl | exact absurd rfl hother | exact absurd rfl hA | exact absurd rfl hX
    rw [List.foldl_cons, hstep]
    exact ih fun k hk => hgs k (List.mem_cons_of_mem _ hk)

/-- A conflict stays. -/
theorem foldl_conflict (gs : List GnLogic) : gs.foldl GnLogic.resolveStep .logicX = .logicX := by
  induction gs with
  | nil => rfl
  | cons g gs ih => exact ih

/-- The weak levels first, or a strong one first. -/
theorem OrderFree.strong_both {vs : List (GnMixed L)} (h : OrderFree near lv vs)
    (hX : ∀ v ∈ vs, v.value ≠ .logicA ∧ v.value ≠ .logicX) (hw0 : ∃ v ∈ vs, v.value = .logicW0)
    (hw1 : ∃ v ∈ vs, v.value = .logicW1) (lvl : Bool) (hs : ∃ v ∈ vs, v.value = .strong lvl) :
    ∃ v ∈ vs, v.value = .strong (!lvl) := by
  by_contra hno
  obtain ⟨s, hsm, hsv⟩ := hs
  obtain ⟨w0, hw0m, hw0v⟩ := hw0
  obtain ⟨w1, hw1m, hw1v⟩ := hw1
  obtain ⟨us, hus⟩ := perm_first hsm
  obtain ⟨ws, hws⟩ := perm_ends hw0m hw1m (by rw [hw0v, hw1v]; decide)
  -- from the strong level the loop goes over both weak ones
  have hu : (resolve lv (s :: us)).value = .strong lvl := by
    rw [value_resolve]
    show ((us.map value).reverse).foldl GnLogic.resolveStep s.value = _
    rw [hsv]
    refine foldl_strong lvl _ fun g hg => ?_
    obtain ⟨v, hv, rfl⟩ := List.mem_map.mp (List.mem_reverse.mp hg)
    have hv' := hus.mem_iff.mp (List.mem_cons_of_mem _ hv)
    exact ⟨fun hother => hno ⟨v, hv', hother⟩, hX v hv'⟩
  -- it starts with the first driver and goes on with the last: the weak levels meet
  have hw : (resolve lv (w0 :: (ws ++ [w1]))).value = .logicX := by
    rw [value_resolve]
    show (((ws ++ [w1]).map value).reverse).foldl GnLogic.resolveStep w0.value = _
    rw [List.map_append, List.map_singleton, List.reverse_append, List.reverse_singleton, hw0v, hw1v]
    exact foldl_conflict _
  have hsame := (h.order _ _ hus hws).value
  rw [hu, hw] at hsame
  cases lvl <;> cases hsame

theorem OrderFree.compatible {vs : List (GnMixed L)} (h : OrderFree near lv vs) : Compatible near vs where
  analog x hx hxA y hy hyZ := by
    obtain ⟨us, hus⟩ := perm_first hx
    obtain ⟨ws, hws⟩ := perm_first hy
    -- an analog driver that comes first ends the loop
    have hu : resolve lv (x :: us) = x := foldl_analog us.reverse hxA
    have hsame := h.order _ _ hus hws
    by_cases hyA : y.value = .logicA
    · have hw : resolve lv (y :: ws) = y := foldl_analog ws.reverse hyA
      rw [hu, hw] at hsame
      exact ⟨hyA, hsame.2.2 (analog_iff.mpr hxA)⟩
    · have hw : (resolve lv (y :: ws)).value ≠ .logicA := by
        rw [value_resolve]
        exact foldl_not_analog _ _ hyZ hyA
      rw [hu] at hsame
      exact absurd (hsame.value.symm.trans hxA) hw
  weak hX hw0 hw1 :=
    ⟨h.strong_both hX hw0 hw1 false, h.strong_both hX hw0 hw1 true⟩

/-- **The order of the drivers does not matter exactly for compatible ones**: for every list of drivers,
any levels, and any comparison of analog levels. -/
theorem orderFree_iff (near : L → L → Prop) (lv : GnLevels L) (vs : List (GnMixed L)) :
    OrderFree near lv vs ↔ Compatible near vs :=
  ⟨fun h => h.compatible, fun h => h.orderFree⟩

/-- Levels as rational numbers, compared within a hundredth. -/
def within (a b : Rat) : Prop := b - 1 / 100 < a ∧ a < b + 1 / 100

def volts : GnLevels Rat := ⟨33 / 10, 0, 3 / 2⟩

/-- A strong 0 among both weak levels wins if it comes first, and not if it comes last; and an analog level
before a strong 0 hides it. -/
theorem order_matters :
    ¬ OrderFree within volts [ofLogic volts .logic0, ofLogic volts .logicW0, ofLogic volts .logicW1] ∧
      ¬ OrderFree within volts [ofLvl 2, ofLogic volts .logic0] := by
  constructor
  · intro h
    have hsame := h.order [ofLogic volts .logic0, ofLogic volts .logicW0, ofLogic volts .logicW1]
      [ofLogic volts .logicW0, ofLogic volts .logic0, ofLogic volts .logicW1] (List.Perm.refl _)
      (List.Perm.swap _ _ _)
    exact absurd hsame.value (by decide)
  · intro h
    have hsame := h.order [ofLvl 2, ofLogic volts .logic0] [ofLogic volts .logic0, ofLvl 2]
      (List.Perm.refl _) (List.Perm.swap _ _ _)
    exact absurd hsame.value (by decide)

end GnMixed

end Espmod.Gpio
