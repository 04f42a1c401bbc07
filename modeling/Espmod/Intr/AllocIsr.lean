/-
# Espmod.Intr.AllocIsr — the handlers behind a shared line

For a line that is shared the table of the CPU has `shared_intr_isr` with the descriptor of the line, and
that walks over the entries. Over the live allocations this is one rule: each that is enabled and whose
status register shows a bit of its mask answers, the newest first.

That is what the table has, for whoever calls from it. The allocator runs on CPU 1 and fills the table of
CPU 1 only, while the driver of that CPU looks there and calls from the table of CPU 0: none of the
handlers is ever called.
-/
import Espmod.Intr.AllocDrivers

namespace Espmod.Intr

open Espmod.Lib

section Interrupt

variable {ω : Type} (read : ω → BitVec 32 → BitVec 32) (call : Nat → Nat → ω → ω)

/-! ## §1 — the two rules -/

/-- `shared_intr_isr`, whose argument is the address of a descriptor. -/
def IntrAlloc.sharedIsr (s : IntrAlloc) (arg : Nat) (world : ω) : ω :=
  match s.vectorDescHead.find? fun d => descAddr d.key = arg with
  | some d => sharedIntrIsr read call d.sharedVecInfo world
  | none => world

namespace Allocation

/-- An allocation answers an interrupt of the line it shares. -/
def Answers (a : Allocation) (world : ω) : Prop :=
  a.enabled = true ∧
    (a.req.intrstatusreg = 0 ∨ read world a.req.intrstatusreg &&& a.req.intrstatusmask ≠ 0)

instance (a : Allocation) (world : ω) : Decidable (a.Answers read world) := by
  unfold Answers
  exact inferInstance

/-- The allocations of a line, one after the other. -/
def answer (as : List Allocation) (n : Nat) (world : ω) : ω :=
  (on n as).foldl
    (fun world a => if a.Answers read world then call a.req.handler a.req.arg world else world) world

end Allocation

/-! ## §2 — they agree -/

/-- The walk over the entries. -/
theorem sharedIntrIsr_eq {as : List Allocation} {vs : List SharedVectorDesc}
    (hvs : as.map Allocation.attached = vs.map some) (world : ω) :
    sharedIntrIsr read call vs world = as.foldl
      (fun world a => if a.Answers read world then call a.req.handler a.req.arg world else world)
      world := by
  induction as generalizing vs world with
  | nil =>
    obtain rfl : vs = [] := List.map_eq_nil_iff.mp hvs.symm
    rfl
  | cons a as ih =>
    cases vs with
    | nil => cases hvs
    | cons v vs =>
      rw [List.map_cons, List.map_cons] at hvs
      obtain ⟨hhead, htail⟩ := List.cons.inj hvs
      obtain ⟨addr, hentry, rfl⟩ := Option.map_eq_some_iff.mp hhead
      have hanswers : a.Answers read world ↔ (!a.enabled) = false ∧
          (a.req.intrstatusreg = 0 ∨ read world a.req.intrstatusreg &&& a.req.intrstatusmask ≠ 0) := by
        unfold Allocation.Answers
        simp
      rw [List.foldl_cons]
      unfold sharedIntrIsr
      by_cases ha : a.Answers read world
      · rw [if_pos ha, if_pos (hanswers.mp ha)]
        exact ih htail _
      · rw [if_neg ha, if_neg fun h => ha (hanswers.mpr h)]
        exact ih htail _

/-- A descriptor's address is that of its CPU and line. -/
theorem descAddr_inj {k k' : Nat × Nat} (hk : k.2 < 32) (hk' : k'.2 < 32)
    (h : descAddr k = descAddr k') : k = k' := by
  unfold descAddr at h
  apply Prod.ext <;> omega

namespace Served

variable {w : Served}

/-- The descriptor that a shared handler is given. -/
theorem Serves.find_addr (h : w.Serves) {n : Nat} {d : VectorDesc}
    (hd : w.alloc.findDescForInt n xPortGetCoreID = some d) :
    w.alloc.vectorDescHead.find? (fun d => descAddr d.key = descAddr (IntrAlloc.lineKey n)) = some d := by
  obtain ⟨hmem, hkey⟩ := IntrAlloc.find_key hd
  have hlt := h.ordered.lines _ (List.mem_map_of_mem hmem)
  rw [hkey] at hlt
  have hsome : (w.alloc.vectorDescHead.find? fun d => descAddr d.key = descAddr (IntrAlloc.lineKey n)) ≠
      none := by
    intro hnone
    have hno := List.find?_eq_none.mp hnone d hmem
    rw [hkey] at hno
    exact hno (decide_eq_true rfl)
  obtain ⟨e, he⟩ := Option.ne_none_iff_exists'.mp hsome
  have haddr : descAddr e.key = descAddr (IntrAlloc.lineKey n) := by simpa using List.find?_some he
  have hmeme := List.mem_of_find?_eq_some he
  have hkeye := descAddr_inj (h.ordered.lines _ (List.mem_map_of_mem hmeme)) hlt haddr
  have hfound := FirstMatch.find_of_mem h.ordered.nodup hmeme
  rw [hkeye] at hfound
  rw [he, ← hd]
  exact hfound.symm

/-- **A shared line.** -/
theorem Serves.shared (h : w.Serves) {n : Nat} {a : Allocation} (ha : a ∈ w.live) (hn : a.intno = n)
    (hentry : a.entry.isSome = true) (world : ω) :
    w.alloc.drivers.handlerApp n = ⟨sharedIntrIsrFn, descAddr (xPortGetCoreID, n)⟩ ∧
      w.alloc.sharedIsr read call (descAddr (xPortGetCoreID, n)) world =
        Allocation.answer read call w.live n world := by
  have hmem := Allocation.mem_on.mpr ⟨ha, hn⟩
  have hline := h.line n
  have hfind := fun d => h.find_addr (n := n) (d := d)
  unfold IntrAlloc.sharedIsr Allocation.answer
  generalize Allocation.on n w.live = as at hline hmem
  generalize w.alloc.findDescForInt n xPortGetCoreID = d at hline hfind
  generalize w.alloc.drivers.handlerApp n = e at hline
  cases hline with
  | untouched => cases hmem
  | free => cases hmem
  | own d a' _ _ _ hnone =>
    obtain rfl := List.mem_singleton.mp hmem
    rw [hnone] at hentry
    cases hentry
  | shared d as _ _ _ hl =>
    refine ⟨rfl, ?_⟩
    rw [show descAddr (xPortGetCoreID, n) = descAddr (IntrAlloc.lineKey n) from rfl, hfind d rfl]
    exact sharedIntrIsr_eq read call hl world

/-- Some calls, and a third handler on the line that is shared. -/
def sharedCalls : List AllocCall :=
  someCalls ++ [.alloc (fun _ => false) ⟨49, 0x100, 0, 0, 23, 4⟩ true]

/-- **Shared lines over every run of proper calls that leave no line without allocations**: whatever the
status registers show and the handlers do, the entry of a shared line is `shared_intr_isr`, and with its
argument that calls the live allocations of the line that answer, the newest first, and no other. -/
theorem shared_answered (mask : BitVec 32) (cs : List AllocCall)
    (h : Throughout (fun w c => w.Proper c ∧ w.Stays c) Served.step (new mask) cs) (n : Nat)
    (hshared : ∃ a ∈ (cs.foldl Served.step (new mask)).live, a.intno = n ∧ a.entry.isSome = true)
    (world : ω) :
    ∃ arg, (cs.foldl Served.step (new mask)).alloc.drivers.handlerApp n = ⟨sharedIntrIsrFn, arg⟩ ∧
      (cs.foldl Served.step (new mask)).alloc.sharedIsr read call arg world =
        Allocation.answer read call (cs.foldl Served.step (new mask)).live n world := by
  obtain ⟨a, ha, hn, hentry⟩ := hshared
  have hproper : Throughout Proper Served.step (new mask) cs :=
    throughout_of_invariant (I := fun _ => True) (fun _ _ _ _ => trivial) (fun _ _ _ hc => hc.1) cs _ trivial h
  exact ⟨_, (serves_run hproper).shared read call ha hn hentry world⟩

/-- One handler of line 2 was freed and another was added: the two that are left answer, the newer one
first. -/
theorem someCalls_answered :
    ∃ arg, (sharedCalls.foldl Served.step (new 0)).alloc.drivers.handlerApp 2 = ⟨sharedIntrIsrFn, arg⟩ ∧
      (sharedCalls.foldl Served.step (new 0)).alloc.sharedIsr (fun _ _ => 1)
        (fun fn arg log => log ++ [(fn, arg)]) arg [] = [(23, 4), (21, 2)] := by
  obtain ⟨arg, hentry, hcalls⟩ := shared_answered (fun _ _ => 1) (fun fn arg log => log ++ [(fn, arg)]) 0
    sharedCalls (by decide +kernel) 2 (by decide +kernel) []
  refine ⟨arg, hentry, hcalls.trans ?_⟩
  decide +kernel

end Served

end Interrupt

/-! ## §3 — the table of the other CPU -/

namespace Served

variable {w : Served}

/-- The driver of CPU 1 finds no handler to call, after calls of any kind. -/
theorem called_none (mask : BitVec 32) (cs : List AllocCall) (n : Nat) :
    ((cs.foldl Served.step (new mask)).alloc.drivers.conf .app).called n = none := by
  have hkept : ∀ w : Served, (cs.foldl Served.step w).alloc.drivers.handlerPro =
      w.alloc.drivers.handlerPro := by
    induction cs with
    | nil => exact fun _ => rfl
    | cons c cs ih =>
      intro w
      rw [List.foldl_cons, ih, handlerPro_step]
  show ((cs.foldl Served.step (new mask)).alloc.drivers.handlerPro n).entry = none
  rw [hkept]
  rfl

/-- **No handler that was allocated is called**: in every proper run, the driver of CPU 1 finds the handler
of each live allocation in its table, and calls the null pointer. -/
theorem allocated_not_called (mask : BitVec 32) (cs : List AllocCall)
    (h : Throughout Proper Served.step (new mask) cs) :
    ∀ a ∈ (cs.foldl Served.step (new mask)).live, (a.entry.isSome = true ∨ a.req.handler ≠ 0) →
      ((cs.foldl Served.step (new mask)).alloc.drivers.conf .app).Handled a.intno ∧
        ((cs.foldl Served.step (new mask)).alloc.drivers.conf .app).called a.intno = none := by
  intro a ha hhandler
  refine ⟨?_, called_none mask cs a.intno⟩
  have hline := (serves_run h).line a.intno
  have hmem := Allocation.mem_on.mpr ⟨ha, rfl⟩
  show ((cs.foldl Served.step (new mask)).alloc.drivers.handlerApp a.intno).entry ≠ none
  rcases hline.entry_of_mem hmem with ⟨_, hnone, hown, _⟩ | hentry
  · have hfn : a.req.handler ≠ 0 := by
      rcases hhandler with hsome | hfn
      · rw [hnone] at hsome
        cases hsome
      · exact hfn
    rw [hown]
    unfold Allocation.own Handler.entry
    rw [if_neg hfn, if_neg hfn]
    exact nofun
  · obtain ⟨d, hd, hs⟩ := hline.shared_of_mem hmem hentry
    rw [((serves_run h).lineOf hd).chain hs |>.2]
    exact nofun

theorem someCalls_not_called :
    ((someCalls.foldl Served.step (new 0)).alloc.drivers.conf .app).Handled 2 ∧
      ((someCalls.foldl Served.step (new 0)).alloc.drivers.conf .app).called 2 = none := by
  obtain ⟨a, ha, hline, hentry⟩ : ∃ a ∈ (someCalls.foldl Served.step (new 0)).live,
      a.intno = 2 ∧ a.entry.isSome = true := by decide +kernel
  have hcalled := allocated_not_called 0 someCalls (by decide +kernel) a ha (.inl hentry)
  rwa [hline] at hcalled

end Served

end Espmod.Intr
