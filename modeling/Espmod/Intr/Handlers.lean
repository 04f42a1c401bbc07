/-
# Espmod.Intr.Handlers — the handlers of the two CPUs

Each CPU has a table of handlers, which `assignfn` and `deassignfn` fill, and a driver thread that calls
from it. The two drivers are copies of each other, and in the second one the call was left as it was:
`driver_app` looks for a handler of its own CPU and calls the first CPU's. As long as the line that it
serves has the same entry in both tables nothing is to be seen; else it calls another handler, or the
null pointer.

`has_handler` returns −1 for a line or a CPU that is not there. It is a function to `bool`, so it says
that there is a handler. And `deassignfn`, where it does not refuse, comes to its end without the number
it should return: its behaviour is undefined there.
-/
import Espmod.Lib.Run
import Espmod.Intr.Drivers

namespace Espmod.Intr

open Espmod.Lib
open IntrDriver (DriverEvent)

/-! ## §1 — the tables -/

/-- An entry of a table; the function 0 is the null pointer. -/
def Handler.null : Handler := ⟨0, 0⟩

/-- The handler in an entry. -/
def Handler.entry (h : Handler) : Option Handler := if h.fn = 0 then none else some h

/-- `espintr`, as far as its drivers need it. -/
structure EspIntrDrivers where
  handlerPro : Nat → Handler
  handlerApp : Nat → Handler
  edgeInterruptPro : BitVec 32
  edgeInterruptApp : BitVec 32
  driverPro : IntrDriver
  driverApp : IntrDriver
  /-- `deassignfn` has come to its end without a value: the behaviour is undefined from there on -/
  undefined : Bool

/-- What the functions of the tables refuse. -/
def BadLine (cpu no : Int) : Prop := no < 0 ∨ 31 < no ∨ cpu < 0 ∨ 1 < cpu

instance (cpu no : Int) : Decidable (BadLine cpu no) := inferInstanceAs (Decidable (_ ∨ _))

namespace EspIntrDrivers

/-- After `initialize`. -/
def new : EspIntrDrivers where
  handlerPro _ := .null
  handlerApp _ := .null
  edgeInterruptPro := 0x40400040
  edgeInterruptApp := 0x40400040
  driverPro := .new
  driverApp := .new
  undefined := false

/-- The common part of `assignfn` and `deassignfn`. -/
def setEntry (cpu no : Int) (h : Handler) (m : EspIntrDrivers) : EspIntrDrivers :=
  if BadLine cpu no then m
  else if cpu = 0 then { m with handlerPro := Function.update m.handlerPro no.toNat h }
  else { m with handlerApp := Function.update m.handlerApp no.toNat h }

def assignfn (cpu no : Int) (fn arg : Nat) (m : EspIntrDrivers) : EspIntrDrivers :=
  m.setEntry cpu no ⟨fn, arg⟩

/-- `deassignfn`, which has no `return` behind its last assignment. -/
def deassignfn (cpu no : Int) (m : EspIntrDrivers) : EspIntrDrivers :=
  { m.setEntry cpu no .null with undefined := m.undefined || !decide (BadLine cpu no) }

/-- `has_handler`; −1 is true. -/
def hasHandler (cpu no : Int) (m : EspIntrDrivers) : Bool :=
  if BadLine cpu no then true
  else if cpu = 0 then (m.handlerPro no.toNat).fn != 0
  else (m.handlerApp no.toNat).fn != 0

/-! ## §2 — the drivers -/

/-- What the driver of a CPU looks at. -/
def conf (m : EspIntrDrivers) (cpu : Cpu) : DriverConf where
  cpu := cpu
  edge := match cpu with
    | .pro => m.edgeInterruptPro
    | .app => m.edgeInterruptApp
  handlerPro n := (m.handlerPro n).entry
  handlerApp n := (m.handlerApp n).entry

def driver (m : EspIntrDrivers) : Cpu → IntrDriver
  | .pro => m.driverPro
  | .app => m.driverApp

def setDriver (m : EspIntrDrivers) (d : IntrDriver) : Cpu → EspIntrDrivers
  | .pro => { m with driverPro := d }
  | .app => { m with driverApp := d }

def setEdge (m : EspIntrDrivers) (w : BitVec 32) : Cpu → EspIntrDrivers
  | .pro => { m with edgeInterruptPro := w }
  | .app => { m with edgeInterruptApp := w }

/-- The line that a turn of the driver dispatches. -/
def dispatched (m : EspIntrDrivers) (cpu : Cpu) : Option Nat :=
  if (m.driver cpu).woken then (m.driver cpu).served (m.conf cpu) else none

/-- A call of a function of the module, a new edge word, or something that happens to a driver: a new
masked word, its turn, the return of a handler. -/
inductive Event where
  | assignfn (cpu no : Int) (fn arg : Nat)
  | deassignfn (cpu no : Int)
  | hasHandler (cpu no : Int)
  | edge (cpu : Cpu) (w : BitVec 32)
  | driver (cpu : Cpu) (e : DriverEvent)

def step (m : EspIntrDrivers) : Event → EspIntrDrivers
  | .assignfn cpu no fn arg => m.assignfn cpu no fn arg
  | .deassignfn cpu no => m.deassignfn cpu no
  | .hasHandler _ _ => m
  | .edge cpu w => m.setEdge w cpu
  | .driver cpu e => m.setDriver ((m.driver cpu).step (m.conf cpu) e) cpu

/-! ## §3 — the specification -/

/-- What a driver has called for a line, `none` being the null pointer, and the handler that was assigned
to it then. -/
structure Call where
  called : Option Handler
  assigned : Option Handler
deriving DecidableEq

/-- What `has_handler` has said, and whether there was a line with a handler. -/
structure Answer where
  said : Bool
  assigned : Bool

/-- The module, the handlers as they were last assigned, the calls and the answers. -/
structure Watched where
  m : EspIntrDrivers
  assigned : Cpu → Nat → Option Handler
  calls : List Call
  answers : List Answer

namespace Watched

def new : Watched := ⟨.new, fun _ _ => none, [], []⟩

/-- The CPU of a number. -/
def cpuOf (cpu : Int) : Cpu := if cpu = 0 then .pro else .app

/-- The latest assignment to a line of a CPU. -/
def assign (cpu no : Int) (h : Option Handler) (a : Cpu → Nat → Option Handler) :
    Cpu → Nat → Option Handler :=
  fun c n => if ¬ BadLine cpu no ∧ c = cpuOf cpu ∧ n = no.toNat then h else a c n

def step (w : Watched) (e : Event) : Watched :=
  match e with
  | .assignfn cpu no fn arg =>
    { w with m := w.m.step e, assigned := assign cpu no (Handler.entry ⟨fn, arg⟩) w.assigned }
  | .deassignfn cpu no => { w with m := w.m.step e, assigned := assign cpu no none w.assigned }
  | .hasHandler cpu no =>
    { w with answers := w.answers ++ [⟨w.m.hasHandler cpu no,
        decide (¬ BadLine cpu no) && (w.assigned (cpuOf cpu) no.toNat).isSome⟩] }
  | .edge _ _ => { w with m := w.m.step e }
  | .driver cpu .turn =>
    { w with
      m := w.m.step e
      calls := w.calls ++
        (w.m.dispatched cpu).toList.map fun n => ⟨(w.m.conf cpu).called n, w.assigned cpu n⟩ }
  | .driver _ (.word _) => { w with m := w.m.step e }
  | .driver _ .done => { w with m := w.m.step e }

/-- **The drivers call what is assigned**: every call is to a handler, the one that was last assigned to
the line of that CPU, with its argument, and `has_handler` says what is assigned. Nothing of that can be
said of a program whose behaviour is undefined. -/
structure Lawful (w : Watched) : Prop where
  defined : w.m.undefined = false
  calls : ∀ c ∈ w.calls, c.assigned ≠ none ∧ c.called = c.assigned
  answers : ∀ a ∈ w.answers, a.said = a.assigned

/-- A line that the second CPU's driver dispatches has the same entry in both tables, `has_handler` is
asked about a line of a CPU, and `deassignfn` refuses. -/
def Alike (w : Watched) : Event → Prop
  | .driver .app .turn => ∀ n, w.m.dispatched .app = some n → w.m.handlerPro n = w.m.handlerApp n
  | .hasHandler cpu no => ¬ BadLine cpu no
  | .deassignfn cpu no => BadLine cpu no
  | _ => True

/-! ## §4 — the invariant -/

/-- The tables hold what was last assigned. -/
structure Kept (w : Watched) : Prop where
  lawful : w.Lawful
  pro : ∀ n, w.assigned .pro n = (w.m.handlerPro n).entry
  app : ∀ n, w.assigned .app n = (w.m.handlerApp n).entry

theorem kept_new : Kept new where
  lawful := ⟨rfl, (fun _ h => nomatch h), (fun _ h => nomatch h)⟩
  pro _ := rfl
  app _ := rfl

variable {w : Watched}

/-- Both CPUs at once. -/
theorem Kept.registered (h : w.Kept) (cpu : Cpu) (n : Nat) :
    w.assigned cpu n = (w.m.conf cpu).registered n := by
  cases cpu with
  | pro => exact h.pro n
  | app => exact h.app n

/-- A table after a new entry, beside the assignments after it. -/
theorem entry_update {t : Nat → Handler} {a : Nat → Option Handler} (hold : ∀ n, a n = (t n).entry)
    (k : Nat) (e : Handler) (n : Nat) :
    (if n = k then e.entry else a n) = (Function.update t k e n).entry := by
  by_cases hn : n = k
  · rw [if_pos hn, hn, Function.update_self]
  · rw [if_neg hn, Function.update_of_ne hn, hold]

/-- An entry of the first CPU that is set, and the assignment beside it. -/
theorem set_pro {no : Int} (hgood : ¬ BadLine 0 no) (e : Handler) (h : w.Kept) :
    Kept { w with m := w.m.setEntry 0 no e, assigned := assign 0 no e.entry w.assigned } := by
  have hset : w.m.setEntry 0 no e =
      { w.m with handlerPro := Function.update w.m.handlerPro no.toNat e } := by
    unfold EspIntrDrivers.setEntry
    rw [if_neg hgood, if_pos rfl]
  rw [hset]
  refine ⟨⟨h.lawful.defined, h.lawful.calls, h.lawful.answers⟩, fun n => ?_, fun n => ?_⟩
  · show (if ¬ BadLine 0 no ∧ Cpu.pro = cpuOf 0 ∧ n = no.toNat then e.entry else w.assigned .pro n) = _
    -- the table of this CPU takes the entry
    simp only [hgood, cpuOf, not_false_eq_true, true_and, if_true]
    exact entry_update h.pro no.toNat e n
  · show (if ¬ BadLine 0 no ∧ Cpu.app = cpuOf 0 ∧ n = no.toNat then e.entry else w.assigned .app n) = _
    rw [if_neg (fun hcpu => nomatch hcpu.2.1)]
    exact h.app n

/-- An entry of the second. -/
theorem set_app {cpu no : Int} (hgood : ¬ BadLine cpu no) (hcpu : cpu ≠ 0) (e : Handler) (h : w.Kept) :
    Kept { w with m := w.m.setEntry cpu no e, assigned := assign cpu no e.entry w.assigned } := by
  have hset : w.m.setEntry cpu no e =
      { w.m with handlerApp := Function.update w.m.handlerApp no.toNat e } := by
    unfold EspIntrDrivers.setEntry
    rw [if_neg hgood, if_neg hcpu]
  have happ : cpuOf cpu = .app := if_neg hcpu
  rw [hset]
  refine ⟨⟨h.lawful.defined, h.lawful.calls, h.lawful.answers⟩, fun n => ?_, fun n => ?_⟩
  · show (if ¬ BadLine cpu no ∧ Cpu.pro = cpuOf cpu ∧ n = no.toNat then e.entry
      else w.assigned .pro n) = _
    rw [happ, if_neg (fun hcpu => nomatch hcpu.2.1)]
    exact h.pro n
  · show (if ¬ BadLine cpu no ∧ Cpu.app = cpuOf cpu ∧ n = no.toNat then e.entry
      else w.assigned .app n) = _
    simp only [hgood, happ, not_false_eq_true, true_and]
    exact entry_update h.app no.toNat e n

/-- An entry that is set keeps the tables and the assignments together. -/
theorem Kept.setEntry (h : w.Kept) (cpu no : Int) (e : Handler) :
    Kept { w with m := w.m.setEntry cpu no e, assigned := assign cpu no e.entry w.assigned } := by
  by_cases hbad : BadLine cpu no
  · have hset : w.m.setEntry cpu no e = w.m := if_pos hbad
    -- the call is refused, and counts as no assignment
    have hassign : assign cpu no e.entry w.assigned = w.assigned := by
      funext c n
      exact if_neg fun hgood => hgood.1 hbad
    rw [hset, hassign]
    exact h
  · by_cases hcpu : cpu = 0
    · subst hcpu
      exact set_pro hbad e h
    · exact set_app hbad hcpu e h

/-- Neither an edge word nor a driver touches the tables. -/
theorem step_tables (m : EspIntrDrivers) (cpu : Cpu) (d : IntrDriver) (v : BitVec 32) :
    ((m.setDriver d cpu).handlerPro = m.handlerPro ∧ (m.setDriver d cpu).handlerApp = m.handlerApp ∧
        (m.setDriver d cpu).undefined = m.undefined) ∧
      (m.setEdge v cpu).handlerPro = m.handlerPro ∧ (m.setEdge v cpu).handlerApp = m.handlerApp ∧
        (m.setEdge v cpu).undefined = m.undefined := by
  cases cpu with
  | pro => exact ⟨⟨rfl, rfl, rfl⟩, rfl, rfl, rfl⟩
  | app => exact ⟨⟨rfl, rfl, rfl⟩, rfl, rfl, rfl⟩

theorem Kept.setDriver (h : w.Kept) (cpu : Cpu) (d : IntrDriver) :
    Kept { w with m := w.m.setDriver d cpu } := by
  obtain ⟨hpro, happ, hdefined⟩ := (step_tables w.m cpu d 0).1
  exact ⟨⟨hdefined.trans h.lawful.defined, h.lawful.calls, h.lawful.answers⟩, fun n => by rw [hpro]; exact h.pro n,
    fun n => by rw [happ]; exact h.app n⟩

theorem Kept.setEdge (h : w.Kept) (cpu : Cpu) (v : BitVec 32) :
    Kept { w with m := w.m.setEdge v cpu } := by
  obtain ⟨hpro, happ, hdefined⟩ := (step_tables w.m cpu .new v).2
  exact ⟨⟨hdefined.trans h.lawful.defined, h.lawful.calls, h.lawful.answers⟩, fun n => by rw [hpro]; exact h.pro n,
    fun n => by rw [happ]; exact h.app n⟩

/-! ## §5 — dispatching -/

/-- A line that is dispatched has a handler on its CPU. -/
theorem Kept.dispatched_assigned (h : w.Kept) {cpu : Cpu} {n : Nat}
    (hn : w.m.dispatched cpu = some n) : w.assigned cpu n ≠ none := by
  rw [h.registered]
  unfold EspIntrDrivers.dispatched at hn
  split at hn
  · have hfilter := (Option.filter_eq_some_iff.mp hn).2
    exact of_decide_eq_true hfilter
  · cases hn

/-- Two entries of which the second has a handler are the same if they give the same. -/
theorem entry_inj {a b : Handler} (hb : b.entry ≠ none) (h : a.entry = b.entry) : a = b := by
  unfold Handler.entry at h hb
  split at hb
  · exact absurd rfl hb
  · next hfn =>
    rw [if_neg hfn] at h
    split at h
    · cases h
    · exact Option.some.inj h

/-- **A dispatch** calls what is assigned exactly if it is the first CPU's or the tables agree there. -/
theorem Kept.call_right (h : w.Kept) {cpu : Cpu} {n : Nat} (hn : w.m.dispatched cpu = some n) :
    (w.m.conf cpu).called n = w.assigned cpu n ↔
      (cpu = .app → w.m.handlerPro n = w.m.handlerApp n) := by
  have hsome := h.dispatched_assigned hn
  cases cpu with
  | pro => exact ⟨(fun _ hcpu => nomatch hcpu), fun _ => (h.pro n).symm⟩
  | app =>
    rw [h.app] at hsome ⊢
    constructor
    · intro hcalled _
      -- it called the entry of the first table
      exact entry_inj hsome hcalled
    · intro halike
      show (w.m.handlerPro n).entry = _
      rw [halike rfl]

/-- What a turn of a driver does to the calls. -/
theorem Kept.turn (h : w.Kept) {cpu : Cpu}
    (hok : ∀ n, w.m.dispatched cpu = some n → cpu = .app → w.m.handlerPro n = w.m.handlerApp n) :
    Kept (w.step (.driver cpu .turn)) := by
  have hm := h.setDriver cpu ((w.m.driver cpu).step (w.m.conf cpu) .turn)
  refine ⟨⟨hm.lawful.defined, ?_, h.lawful.answers⟩, hm.pro, hm.app⟩
  intro c hc
  rcases List.mem_append.mp hc with hold | hnew
  · exact h.lawful.calls c hold
  · obtain ⟨n, hn, rfl⟩ := List.mem_map.mp hnew
    have hn := Option.mem_toList.mp hn
    exact ⟨h.dispatched_assigned hn, (h.call_right hn).mpr (hok n hn)⟩

/-! ## §6 — answers -/

/-- What `has_handler` says of a line. -/
theorem Kept.hasHandler (h : w.Kept) {cpu no : Int} (hgood : ¬ BadLine cpu no) :
    w.m.hasHandler cpu no = (w.assigned (cpuOf cpu) no.toNat).isSome := by
  have hentry : ∀ e : Handler, (e.fn != 0) = e.entry.isSome := by
    intro e
    unfold Handler.entry
    by_cases hfn : e.fn = 0 <;> simp [hfn]
  unfold EspIntrDrivers.hasHandler cpuOf
  rw [if_neg hgood]
  by_cases hcpu : cpu = 0
  · rw [if_pos hcpu, if_pos hcpu, h.pro, hentry]
  · rw [if_neg hcpu, if_neg hcpu, h.app, hentry]

theorem Kept.answer (h : w.Kept) {cpu no : Int} (hgood : ¬ BadLine cpu no) :
    Kept (w.step (.hasHandler cpu no)) := by
  refine ⟨⟨h.lawful.defined, h.lawful.calls, ?_⟩, h.pro, h.app⟩
  intro a ha
  rcases List.mem_append.mp ha with hold | hnew
  · exact h.lawful.answers a hold
  · obtain rfl := List.mem_singleton.mp hnew
    dsimp only
    rw [decide_eq_true hgood, Bool.true_and]
    exact h.hasHandler hgood

/-! ## §7 — runs -/

/-- **One step** on which the tables agree. -/
theorem Kept.step (h : w.Kept) {e : Event} (hok : w.Alike e) : Kept (w.step e) := by
  cases e with
  | assignfn cpu no fn arg => exact h.setEntry cpu no ⟨fn, arg⟩
  | deassignfn cpu no =>
    have hok : BadLine cpu no := hok
    have hrefused : w.m.deassignfn cpu no = w.m.setEntry cpu no .null := by
      have hset : w.m.setEntry cpu no .null = w.m := if_pos hok
      unfold EspIntrDrivers.deassignfn
      rw [hset, decide_eq_true hok, Bool.not_true, Bool.or_false]
    show Kept { w with m := w.m.deassignfn cpu no, assigned := assign cpu no none w.assigned }
    rw [hrefused]
    exact h.setEntry cpu no .null
  | hasHandler cpu no => exact h.answer hok
  | edge cpu v => exact h.setEdge cpu v
  | driver cpu e =>
    cases e with
    | word v => exact h.setDriver cpu _
    | done => exact h.setDriver cpu _
    | turn =>
      apply h.turn
      cases cpu with
      | pro => exact fun _ _ hcpu => nomatch hcpu
      | app => exact fun n hn _ => hok n hn

/-- A step on which they do not is a wrong call or a wrong answer. -/
theorem Kept.break (h : w.Kept) {e : Event} (hbad : ¬ w.Alike e) : ¬ (w.step e).Lawful := by
  intro hl
  apply hbad
  cases e with
  | assignfn => trivial
  | deassignfn cpu no =>
    -- it comes to its end
    show BadLine cpu no
    by_contra hgood
    have hundefined : (w.m.undefined || !decide (BadLine cpu no)) = false := hl.defined
    rw [decide_eq_false hgood, Bool.not_false, Bool.or_true] at hundefined
    cases hundefined
  | edge => trivial
  | hasHandler cpu no =>
    intro hb
    have hanswer := hl.answers _ (List.mem_append_right _ (List.mem_singleton_self _))
    dsimp only at hanswer
    rw [decide_eq_false (not_not.mpr hb), Bool.false_and] at hanswer
    have hsaid : w.m.hasHandler cpu no = true := if_pos hb
    rw [hsaid] at hanswer
    cases hanswer
  | driver cpu e =>
    cases cpu with
    | pro => trivial
    | app =>
      cases e with
      | word => trivial
      | done => trivial
      | turn =>
        intro n hn
        have hmem : (⟨(w.m.conf .app).called n, w.assigned .app n⟩ : Call) ∈
            (w.step (.driver .app .turn)).calls :=
          List.mem_append_right _ (List.mem_map.mpr ⟨n, Option.mem_toList.mpr hn, rfl⟩)
        exact (h.call_right hn).mp (hl.calls _ hmem).2 rfl

/-- **The drivers call what is assigned exactly as long as the second CPU's driver serves lines with the
same handler on both CPUs**, `has_handler` is asked about lines and `deassignfn` has none to clear: for
every sequence of assignments, every history of edge and interrupt words, and every order of the drivers. -/
theorem handlers_called (es : List Event) :
    Always (fun _ w => w.Lawful) Watched.step [] new es ↔ Throughout Alike Watched.step new es := by
  refine always_iff_of_invariant (I := fun _ (w : Watched) => w.Kept) ?_ ?_ ?_ es [] _ kept_new
  · intro _ w h
    exact h.lawful
  · intro _ w e h hok
    exact h.step hok
  · intro _ w e h hbad
    exact h.break hbad

/-- A handler of the second CPU only, for line 22, and the line's interrupt. -/
def oneSided : List Event :=
  [.assignfn 1 22 5 6, .driver .app (.word 0x400000), .driver .app .turn]

/-- The null pointer is called; with another handler on the first CPU, that one is. And line 32 has a
handler. -/
theorem app_calls_pro :
    ¬ Always (fun _ w => w.Lawful) Watched.step [] new oneSided ∧
      (oneSided.foldl Watched.step new).calls = [⟨none, some ⟨5, 6⟩⟩] ∧
      ((Event.assignfn 0 22 7 8 :: oneSided).foldl Watched.step new).calls =
        [⟨some ⟨7, 8⟩, some ⟨5, 6⟩⟩] ∧
      EspIntrDrivers.new.hasHandler 0 32 = true := by
  have hnull : (oneSided.foldl Watched.step new).calls = [⟨none, some ⟨5, 6⟩⟩] := by decide
  refine ⟨fun h => ?_, hnull, by decide, by decide⟩
  have hcall := (h.last.calls ⟨none, some ⟨5, 6⟩⟩ (hnull ▸ List.mem_singleton_self _)).2
  cases hcall

end Watched

end EspIntrDrivers

end Espmod.Intr
