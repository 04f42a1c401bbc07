/-
# Espmod.Web.FieldList — the form fields of the web client

`hfieldlist` keeps the fields a test bench registers with a web client and lets it set them by name.
Names may repeat: every call looks at the first field of the name, and the later ones stay as they
were registered. `Answers` says what the list owes its callers after a given history of calls,
against `registered` and `latest`, which are functions of that history alone.

`setArg` of a number prints it into ten bytes, so `snprintf` leaves nine characters of it and
`argN` reads back what they say. `answers_iff` is exact: the list keeps its promise over a whole
run precisely when every number that was set on a registered name has at most nine characters.

A `const char *` is the bytes before its NUL. The loops count in 32 bits, and a list is taken to
have fewer fields than that.
-/
import Espmod.Lib.FirstMatch
import Espmod.Lib.Run
import Espmod.Lib.Text

namespace Espmod.Web

open Espmod.Lib Espmod.Lib.Text Espmod.Lib.FirstMatch

/-- A field. -/
structure Hfield where
  name : Bytes
  value : Bytes
  deriving DecidableEq, Repr

/-- The list, `_arg` being its only member. -/
abbrev Hfieldlist := List Hfield

namespace Hfieldlist

/-! ## §1 — the code -/

def deleteArgs (s : Hfieldlist) : Hfieldlist := if s.length ≠ 0 then [] else s

def regArg (s : Hfieldlist) (name value : Bytes) : Hfieldlist := s ++ [⟨name, value⟩]

/-- Whether a field of the name was there, and the list with its value changed. -/
def setArg (name value : Bytes) : Hfieldlist → Bool × Hfieldlist
  | [] => (false, [])
  | a :: s =>
    if a.name = name then (true, { a with value := value } :: s)
    else ((setArg name value s).1, a :: (setArg name value s).2)

/-- The overload for a number, through `char v[10]`. -/
def setArgInt (name : Bytes) (value : BitVec 32) (s : Hfieldlist) : Bool × Hfieldlist :=
  s.setArg name (snprintfD 10 value.toInt)

def hasArg (name : Bytes) : Hfieldlist → Bool
  | [] => false
  | a :: s => if a.name = name then true else hasArg name s

def arg (name : Bytes) : Hfieldlist → Bytes
  | [] => []
  | a :: s => if a.name = name then a.value else arg name s

def argN (name : Bytes) (s : Hfieldlist) : Int := atoi (s.arg name)

/-- A call that changes the list. -/
inductive Call where
  | regArg (name value : Bytes)
  | setArg (name value : Bytes)
  | setArgInt (name : Bytes) (value : BitVec 32)
  | deleteArgs
  deriving DecidableEq, Repr

def step (s : Hfieldlist) : Call → Hfieldlist
  | .regArg name value => s.regArg name value
  | .setArg name value => (s.setArg name value).2
  | .setArgInt name value => (s.setArgInt name value).2
  | .deleteArgs => s.deleteArgs

/-! ## §2 — what the callers were told -/

/-- What a field was given. -/
inductive Given where
  | text (value : Bytes)
  | int (value : BitVec 32)
  deriving DecidableEq, Repr

/-- How a field shows it. -/
def Given.shown : Given → Bytes
  | .text value => value
  | .int value => showInt value.toInt

def register (fields : List Hfield) : Call → List Hfield
  | .regArg name value => fields ++ [⟨name, value⟩]
  | .deleteArgs => []
  | _ => fields

/-- The fields registered since the last `deleteArgs`, as they were registered. -/
def registered (h : List Call) : List Hfield := h.foldl register []

/-- A value for a name that has one. -/
def give (m : Bytes → Option Given) (name : Bytes) (g : Given) : Bytes → Option Given :=
  if (m name).isSome then Function.update m name (some g) else m

def remember (m : Bytes → Option Given) : Call → Bytes → Option Given
  | .regArg name value => if (m name).isSome then m else Function.update m name (some (.text value))
  | .setArg name value => give m name (.text value)
  | .setArgInt name value => give m name (.int value)
  | .deleteArgs => fun _ => none

/-- What the first field of each name was given last, its registration included. -/
def latest (h : List Call) : Bytes → Option Given := h.foldl remember fun _ => none

/-- **The list answers as a first-match map** of what its callers told it. -/
structure Answers (h : List Call) (s : Hfieldlist) : Prop where
  hasArg : ∀ name, s.hasArg name = true ↔ name ∈ (registered h).map Hfield.name
  setArg : ∀ name value, (s.setArg name value).1 = true ↔ name ∈ (registered h).map Hfield.name
  setArgInt : ∀ name value,
    (s.setArgInt name value).1 = true ↔ name ∈ (registered h).map Hfield.name
  arg : ∀ name, s.arg name = ((latest h name).map Given.shown).getD []
  argN : ∀ name value, latest h name = some (.int value) → s.argN name = value.toInt
  names : s.map Hfield.name = (registered h).map Hfield.name
  others : ∀ i, Shadowed Hfield.name (registered h) i → s[i]? = (registered h)[i]?

/-- A number that is set on a registered name has at most nine characters. -/
def Fits (s : Hfieldlist) : Call → Prop
  | .setArgInt name value =>
    name ∈ s.map Hfield.name → -99999999 ≤ value.toInt ∧ value.toInt ≤ 999999999
  | _ => True

/-! ## §3 — the loops -/

theorem hasArg_iff (name : Bytes) (s : Hfieldlist) :
    s.hasArg name = true ↔ name ∈ s.map Hfield.name := by
  induction s with
  | nil => simp [hasArg]
  | cons a s ih =>
    by_cases h : a.name = name
    · simp [hasArg, h]
    · simp [hasArg, h, ih, Ne.symm h]

theorem setArg_fst (name value : Bytes) (s : Hfieldlist) :
    (s.setArg name value).1 = s.hasArg name := by
  induction s with
  | nil => rfl
  | cons a s ih =>
    by_cases h : a.name = name
    · simp [setArg, hasArg, h]
    · simp [setArg, hasArg, h, ih]

/-- A field with another value. -/
def put (value : Bytes) (a : Hfield) : Hfield := { a with value := value }

@[simp] theorem put_name (value : Bytes) (a : Hfield) : (put value a).name = a.name := rfl

theorem setArg_snd (name value : Bytes) (s : Hfieldlist) :
    (s.setArg name value).2 = update Hfield.name name (put value) s := by
  induction s with
  | nil => rfl
  | cons a s ih =>
    by_cases h : a.name = name
    · rw [update_cons_of_eq h, setArg, if_pos h]
      rfl
    · rw [update_cons_of_ne h, setArg, if_neg h, ← ih]

theorem arg_eq (name : Bytes) (s : Hfieldlist) :
    s.arg name = ((find Hfield.name name s).map Hfield.value).getD [] := by
  induction s with
  | nil => rfl
  | cons a s ih =>
    by_cases h : a.name = name
    · rw [find_cons_of_eq h, arg, if_pos h]
      rfl
    · rw [find_cons_of_ne h, arg, if_neg h, ih]

theorem deleteArgs_eq (s : Hfieldlist) : s.deleteArgs = [] := by
  cases s <;> simp [deleteArgs]

/-- Nine characters hold the numbers of `Fits` whole, -/
theorem snprintf_whole {v : BitVec 32} (h : -99999999 ≤ v.toInt ∧ v.toInt ≤ 999999999) :
    snprintfD 10 v.toInt = showInt v.toInt :=
  snprintfD_of_fits 7 (by omega) (by omega)

/-- and no other one. -/
theorem atoi_snprintf_ne {v : BitVec 32} (h : ¬ (-99999999 ≤ v.toInt ∧ v.toInt ≤ 999999999)) :
    atoi (snprintfD 10 v.toInt) ≠ v.toInt := by
  have hshort : (snprintfD 10 v.toInt).length ≤ 8 + 1 := List.length_take_le _ _
  have hsmall := atoi_of_length_le (Nat.le_refl 8) hshort
  omega

/-! ## §4 — one call -/

/-- The list against its registrations and what the first field of each name was given. -/
structure Keeps (fields : List Hfield) (m : Bytes → Option Given) (s : Hfieldlist) : Prop where
  names : s.map Hfield.name = fields.map Hfield.name
  values : ∀ name, (find Hfield.name name s).map Hfield.value = (m name).map Given.shown
  others : ∀ i, Shadowed Hfield.name fields i → s[i]? = fields[i]?

namespace Keeps

variable {fields : List Hfield} {m : Bytes → Option Given} {s : Hfieldlist}

theorem isSome (hk : Keeps fields m s) (name : Bytes) :
    (m name).isSome ↔ name ∈ s.map Hfield.name := by
  have hsome := congrArg Option.isSome (hk.values name)
  rw [Option.isSome_map, Option.isSome_map] at hsome
  rw [← hsome]
  exact find_isSome

/-- A field set by name. -/
theorem set (hk : Keeps fields m s) {name value : Bytes} {g : Given}
    (hv : name ∈ s.map Hfield.name → value = g.shown) :
    Keeps fields (give m name g) (s.setArg name value).2 := by
  rw [setArg_snd]
  by_cases hmem : name ∈ s.map Hfield.name
  · have hset : give m name g = Function.update m name (some g) := if_pos ((hk.isSome name).mpr hmem)
    rw [hset, hv hmem]
    refine ⟨(map_key_update (put_name _) name s).trans hk.names, fun n => ?_, fun i hi => ?_⟩
    · by_cases hn : n = name
      · subst hn
        obtain ⟨a, ha⟩ := Option.isSome_iff_exists.mp (find_isSome.mpr hmem)
        rw [find_update_self (put_name _), ha, Function.update_self]
        rfl
      · rw [find_update_of_ne (put_name _) hn, Function.update_of_ne hn]
        exact hk.values n
    · have hshadow : Shadowed Hfield.name s i := by
        unfold Shadowed
        rw [hk.names]
        exact hi
      rw [getElem?_update_of_shadowed hshadow]
      exact hk.others i hi
  · have hset : give m name g = m := if_neg fun h => hmem ((hk.isSome name).mp h)
    rw [hset, update_of_notMem hmem]
    exact hk

/-- A field registered. -/
theorem reg (hk : Keeps fields m s) (name value : Bytes) :
    Keeps (fields ++ [⟨name, value⟩]) (remember m (.regArg name value)) (s.regArg name value) := by
  refine ⟨?_, fun n => ?_, fun i hi => getElem?_append_of_shadowed hk.names hk.others _ hi⟩
  · rw [regArg, List.map_append, List.map_append, hk.names]
  · have hvalues := hk.values n
    rw [regArg, find_append]
    cases hfound : find Hfield.name n s with
    | some a =>
      -- an earlier field of the name decides
      rw [hfound] at hvalues
      have hgiven : (remember m (.regArg name value)) n = m n := by
        by_cases hn : n = name
        · subst hn
          have hsome : (m n).isSome := (hk.isSome n).mpr (find_isSome.mp (by rw [hfound]; rfl))
          simp [remember, hsome]
        · by_cases hsome : (m name).isSome
          · simp [remember, hsome]
          · simp [remember, hsome, Function.update_of_ne hn]
      rw [hgiven, ← hvalues]
      rfl
    | none =>
      rw [hfound] at hvalues
      have hnone : m n = none := by simpa using hvalues.symm
      by_cases hn : name = n
      · subst hn
        simp [remember, hnone, Given.shown]
      · by_cases hsome : (m name).isSome
        · simp [remember, hsome, hnone, hn]
        · simp [remember, hsome, hnone, hn, Function.update_of_ne (Ne.symm hn)]

/-- **One call.** -/
theorem step (hk : Keeps fields m s) {c : Call} (hc : Fits s c) :
    Keeps (register fields c) (remember m c) (s.step c) := by
  cases c with
  | regArg name value => exact hk.reg name value
  | setArg name value => exact hk.set fun _ => rfl
  | setArgInt name value => exact hk.set fun hmem => snprintf_whole (hc hmem)
  | deleteArgs =>
    show Keeps [] (fun _ => none) s.deleteArgs
    rw [deleteArgs_eq]
    exact ⟨rfl, fun _ => rfl, fun _ _ => rfl⟩

/-- What a caller sees of it. -/
theorem answers {h : List Call} (hk : Keeps (registered h) (latest h) s) : Answers h s := by
  have harg : ∀ name, s.arg name = ((latest h name).map Given.shown).getD [] := by
    intro name
    rw [arg_eq, hk.values]
  have hset : ∀ name value, (s.setArg name value).1 = true ↔ name ∈ (registered h).map Hfield.name := by
    intro name value
    rw [setArg_fst, hasArg_iff, hk.names]
  refine ⟨fun name => ?_, hset, fun name value => hset name _, harg, fun name value hv => ?_,
    hk.names, hk.others⟩
  · rw [hasArg_iff, hk.names]
  · rw [argN, harg, hv]
    exact atoi_showInt (BitVec.le_toInt value) BitVec.toInt_lt

end Keeps

/-! ## §5 — every history -/

theorem registered_concat (h : List Call) (c : Call) :
    registered (h ++ [c]) = register (registered h) c := by
  simp [registered]

theorem latest_concat (h : List Call) (c : Call) : latest (h ++ [c]) = remember (latest h) c := by
  simp [latest]

/-- A longer number on a registered name is not what is read back. -/
theorem not_answers {h : List Call} {s : Hfieldlist} {c : Call}
    (hk : Keeps (registered h) (latest h) s) (hc : ¬ Fits s c) : ¬ Answers (h ++ [c]) (s.step c) := by
  intro hans
  cases c with
  | setArgInt name value =>
    obtain ⟨hmem, hlong⟩ := Classical.not_imp.mp hc
    have hgiven : latest (h ++ [Call.setArgInt name value]) name = some (.int value) := by
      rw [latest_concat]
      simp [remember, give, (hk.isSome name).mpr hmem]
    have hread := hans.argN name value hgiven
    have hstored : (s.step (.setArgInt name value)).arg name = snprintfD 10 value.toInt := by
      obtain ⟨a, ha⟩ := Option.isSome_iff_exists.mp (find_isSome.mpr hmem)
      show (s.setArg name (snprintfD 10 value.toInt)).2.arg name = _
      rw [arg_eq, setArg_snd, find_update_self (put_name _), ha]
      rfl
    rw [argN, hstored] at hread
    exact atoi_snprintf_ne hlong hread
  | _ => exact hc trivial

/-- **When the list is a first-match map.** Over any sequence of calls it answers as one throughout
exactly when every number that was set on a registered name has at most nine characters. -/
theorem answers_iff (es : List Call) : Always Answers step [] [] es ↔ Throughout Fits step [] es := by
  refine always_iff_of_invariant (I := fun h s => Keeps (registered h) (latest h) s)
    (fun h s hk => hk.answers) (fun h s c hk hc => ?_) (fun h s c hk hc => not_answers hk hc) es [] []
    ⟨rfl, fun _ => rfl, fun _ _ => rfl⟩
  rw [registered_concat, latest_concat]
  exact hk.step hc

/-- The longest negative number: `setArg` returns true and the first nine characters are read. -/
theorem longest_negative_cut :
    setArgInt (str "n") 0x80000000#32 [⟨str "n", str "0"⟩] = (true, [⟨str "n", str "-21474836"⟩]) ∧
      argN (str "n") [⟨str "n", str "-21474836"⟩] = -21474836 ∧
      ¬ Always Answers step [] []
        [.regArg (str "n") (str "0"), .setArgInt (str "n") 0x80000000#32] := by
  have hset : setArgInt (str "n") 0x80000000#32 [⟨str "n", str "0"⟩] =
      (true, [⟨str "n", str "-21474836"⟩]) := by decide
  have hread : argN (str "n") [⟨str "n", str "-21474836"⟩] = -21474836 := by decide
  refine ⟨hset, hread, fun hans => ?_⟩
  have hval : argN (str "n") (setArgInt (str "n") 0x80000000#32 [⟨str "n", str "0"⟩]).2 =
      (0x80000000#32).toInt := hans.2.2.argN (str "n") 0x80000000#32 rfl
  rw [hset, hread] at hval
  exact absurd hval (by decide)

end Hfieldlist
end Espmod.Web
