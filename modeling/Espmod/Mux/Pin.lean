/-
# Espmod.Mux.Pin — pins that carry analog levels

A `gn_mixed` value with its level, its comparison, which takes levels for the same that are less than
0.01 V apart, and the resolution of the drivers of a pin. `Pin` is a `gn_signal_mix` as one of its
writers sees it: the value it drives, the value everyone reads, and whether that changed in the last
delta cycle.
-/
import Espmod.Gpio.Mixed
import Mathlib.Algebra.Order.Ring.Rat

namespace Espmod.Mux

open Espmod.Gpio

/-! ## §1 — values -/

/-- The values of `gn_mixed`: the pairs of `logic` and `param` its constructors make, with `lvl` where it
is compared. -/
inductive GnMixed where
  | zero
  | one
  | weak0
  | weak1
  | z
  | x
  | analog (lvl : ℚ)
  deriving DecidableEq

namespace GnMixed

/-- `gn_mixed::value`. -/
def value : GnMixed → GnLogic
  | zero => .logic0
  | one => .logic1
  | weak0 => .logicW0
  | weak1 => .logicW1
  | z => .logicZ
  | x => .logicX
  | analog _ => .logicA

/-- `undef_lvl`. -/
def undefLvl : ℚ := 3 / 2

/-- `gn_mixed(const gn_logic_t)`. -/
def ofLogic : GnLogic → GnMixed
  | .logic0 => zero
  | .logic1 => one
  | .logicW0 => weak0
  | .logicW1 => weak1
  | .logicZ => z
  | .logicA => analog undefLvl
  | .logicX => x

/-- `operator==`. -/
def same : GnMixed → GnMixed → Bool
  | analog a, analog b => decide (a > b - 1 / 100 ∧ a < b + 1 / 100)
  | a, b => a.value == b.value

/-- One turn of the loop of `gn_mixed_resolve`. -/
def resolveStep (res current : GnMixed) : GnMixed :=
  if res.value.scLogic = .x then res
  else if res.value = .logicZ then current
  else if current.value = .logicZ then res
  else ofLogic (GnLogic.resolutionTbl res.value current.value)

/-- `gn_mixed_resolve`. -/
def resolve : List GnMixed → GnMixed
  | [] => x
  | v :: rest => rest.reverse.foldl resolveStep v

variable {u v : GnMixed}

theorem same_z : v.same z = true ↔ v = z := by cases v <;> simp [same, value]

theorem x_same : x.same v = true ↔ v = x := by cases v <;> simp [same, value]

theorem ofLogic_value_ne {g : GnLogic} (h : g ≠ .logicZ) : ofLogic g ≠ z := by
  cases g <;> simp_all [ofLogic]

/-- Two values that are not released do not resolve to high impedance. -/
theorem resolutionTbl_ne : ∀ g h : GnLogic, g ≠ .logicZ → h ≠ .logicZ →
    GnLogic.resolutionTbl g h ≠ .logicZ := by
  intro g h
  cases g <;> cases h <;> decide

theorem value_eq_z : v.value = .logicZ ↔ v = z := by cases v <;> simp [value]

/-- A turn gives high impedance only from two released values. -/
theorem resolveStep_eq_z (h : resolveStep u v = z) : u = z ∧ v = z := by
  unfold resolveStep at h
  split at h
  · next hx =>
    subst h
    exact absurd hx (by decide)
  · split at h
    · next hz => exact ⟨value_eq_z.mp hz, h⟩
    · next hu =>
      split at h
      · exact absurd (value_eq_z.mpr h) hu
      · next hv => exact absurd h (ofLogic_value_ne (resolutionTbl_ne _ _ hu hv))

/-- **A pin is released when all its drivers are.** -/
theorem resolve_eq_z {vs : List GnMixed} (h : resolve vs = z) (hv : v ∈ vs) : v = z := by
  have hfold : ∀ (rest : List GnMixed) (u : GnMixed), rest.foldl resolveStep u = z →
      u = z ∧ ∀ w ∈ rest, w = z := by
    intro rest
    induction rest with
    | nil => exact fun u hu => ⟨hu, fun w hw => nomatch hw⟩
    | cons w rest ih =>
      intro u hu
      obtain ⟨hstep, hrest⟩ := ih _ hu
      obtain ⟨hu, hw⟩ := resolveStep_eq_z hstep
      exact ⟨hu, List.forall_mem_cons.mpr ⟨hw, hrest⟩⟩
  cases vs with
  | nil => exact nomatch hv
  | cons u rest =>
    obtain ⟨hu, hrest⟩ := hfold _ u h
    rcases List.mem_cons.mp hv with rfl | hv
    · exact hu
    · exact hrest v (List.mem_reverse.mpr hv)

end GnMixed

/-! ## §2 — pins -/

/-- What the other writers of a pin drive, in the order of their first writes: those before the writer
that is looked at, and those behind it. -/
structure Drivers where
  ahead : List GnMixed
  behind : List GnMixed

/-- A `gn_signal_mix` and one of its writers. -/
structure Pin where
  /-- the entry of the writer in `m_val_vec` -/
  driven : GnMixed
  cur : GnMixed
  /-- `value_changed_event` has been triggered -/
  changed : Bool
  deriving DecidableEq

namespace Pin

/-- `gn_signal_mix::write`. -/
def write (v : GnMixed) (p : Pin) : Pin := if v.same p.driven then p else { p with driven := v }

/-- What the drivers resolve to. -/
def resolved (o : Drivers) (p : Pin) : GnMixed := GnMixed.resolve (o.ahead ++ p.driven :: o.behind)

/-- `gn_signal_mix::update`. -/
def update (o : Drivers) (p : Pin) : Pin :=
  if (p.resolved o).same p.cur then { p with changed := false }
  else { p with cur := p.resolved o, changed := true }

variable {p : Pin} {o : Drivers} {v : GnMixed}

@[simp] theorem write_cur (v : GnMixed) (p : Pin) : (p.write v).cur = p.cur := by
  unfold write
  split <;> rfl

@[simp] theorem write_changed (v : GnMixed) (p : Pin) : (p.write v).changed = p.changed := by
  unfold write
  split <;> rfl

@[simp] theorem write_z (p : Pin) : (p.write .z).driven = .z := by
  unfold write
  split
  · next h =>
    cases hp : p.driven <;> simp_all [GnMixed.same, GnMixed.value]
  · rfl

/-- A write to a pin that was released. -/
theorem write_released (hp : p.driven = .z) (v : GnMixed) : (p.write v).driven = v := by
  unfold write
  rw [hp]
  split
  · next h => rw [hp, GnMixed.same_z.mp h]
  · rfl

@[simp] theorem update_driven (o : Drivers) (p : Pin) : (p.update o).driven = p.driven := by
  unfold update
  split <;> rfl

/-- A pin that has not changed resolves to what it was. -/
theorem unchanged (h : (p.update o).changed = false) :
    (p.update o).cur = p.cur ∧ (p.resolved o).same p.cur = true := by
  unfold update at h ⊢
  split
  · next hsame => exact ⟨rfl, hsame⟩
  · next hsame =>
    rw [if_neg hsame] at h
    exact nomatch h

/-- A pin that is not driven otherwise, and stays high impedance, was given nothing else. -/
theorem written_z (hp : p.driven = .z) (h : ((p.write v).resolved o).same .z = true) : v = .z := by
  have hz := GnMixed.resolve_eq_z (GnMixed.same_z.mp h)
    (List.mem_append_right _ (List.mem_cons_self ..) : (p.write v).driven ∈ _)
  rw [write_released hp] at hz
  exact hz

end Pin

end Espmod.Mux
