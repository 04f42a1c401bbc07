/-
# Espmod.Gpio.Mixed — pad values and how several drivers of one pad resolve

`gn_mixed` is the value on a pad: a strong or weak level, high impedance, an analog level, or a
conflict. Each process that writes a pad has a value of its own; the update of the pad folds them with
`gn_mixed_resolve`, last driver first, over the resolution table of the source.
-/
import Mathlib.Tactic.Common

namespace Espmod.Gpio

/-- `gn_mixed::gn_logic_t`. -/
inductive GnLogic where
  | logic0
  | logic1
  | logicW0
  | logicW1
  | logicZ
  | logicA
  | logicX
deriving Repr, DecidableEq

namespace GnLogic

/-- `sc_logic` behind a pad value: weak and strong agree, an analog level has none. -/
inductive ScLogic where
  | zero
  | one
  | z
  | x
deriving Repr, DecidableEq

/-- `gn_to_sc_logic`. -/
def scLogic : GnLogic → ScLogic
  | logic0 | logicW0 => .zero
  | logic1 | logicW1 => .one
  | logicZ => .z
  | _ => .x

/-- The strong value of a level. -/
def strong : Bool → GnLogic
  | false => logic0
  | true => logic1

/-- `gn_logic_resolution_tbl`. -/
def resolutionTbl : GnLogic → GnLogic → GnLogic
  | logic0, logic0 | logic0, logicW0 | logic0, logicW1 | logic0, logicZ => logic0
  | logic1, logic1 | logic1, logicW0 | logic1, logicW1 | logic1, logicZ => logic1
  | logicW0, logic0 | logicW1, logic0 | logicZ, logic0 => logic0
  | logicW0, logic1 | logicW1, logic1 | logicZ, logic1 => logic1
  | logicW0, logicW0 | logicW0, logicZ | logicZ, logicW0 => logicW0
  | logicW1, logicW1 | logicW1, logicZ | logicZ, logicW1 => logicW1
  | logicZ, logicZ => logicZ
  | logicZ, logicA | logicA, logicZ => logicA
  | _, _ => logicX

/-- One turn of the loop of `gn_mixed_resolve`; a result with no logic level ends the loop. -/
def resolveStep (res current : GnLogic) : GnLogic :=
  if res.scLogic = .x then res
  else if res = logicZ then current
  else if current = logicZ then res
  else resolutionTbl res current

/-- `gn_mixed_resolve`: the first driver's value, then the others from the last one down. -/
def resolve : List GnLogic → GnLogic
  | [] => logicX
  | v :: rest => rest.reverse.foldl resolveStep v

/-- **A released pad follows its outside driver**, in whichever order the two first drove it. -/
theorem resolve_released (v : Bool) :
    resolve [logicZ, strong v] = strong v ∧ resolve [strong v, logicZ] = strong v := by
  cases v <;> exact ⟨rfl, rfl⟩

end GnLogic

end Espmod.Gpio
