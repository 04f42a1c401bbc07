/-
# Espmod.Intr.AllocLines — what an interrupt line and its users have in common

Beside the allocator stands what its callers have been given: the live allocations, newest first, each
with its line, its request, and whether its handler is enabled. `Serves` says how the two belong together.
A line is untouched, free, held by one allocation, or shared by several, and then its entries are those of
its live allocations in their order; the handler in the table of the CPU follows.

Each part of an operation works on one line (`Within`), and `Serves.change` is what it owes there. The
choice of a line fails no assertion, a line that is connected is served, and so is one of whose
allocations one is enabled or disabled.
-/
import Espmod.Intr.AllocChoice

namespace Espmod.Intr

open Espmod.Lib

/-! ## §1 — what the callers have -/

/-- An allocation that was granted and not freed. -/
structure Allocation where
  intno : Nat
  /-- its entry on a shared line -/
  entry : Option Nat
  req : Request
  enabled : Bool
  /-- the caller asked for the handle -/
  held : Bool
deriving DecidableEq

namespace Allocation

def handle (a : Allocation) : IntrHandleData := ⟨(xPortGetCoreID, a.intno), a.entry⟩

/-- The entry of a shared allocation. -/
def attached (a : Allocation) : Option SharedVectorDesc :=
  a.entry.map fun addr => ⟨addr, !a.enabled, storeSource a.req.source, a.req.intrstatusreg,
    a.req.intrstatusmask, a.req.handler, a.req.arg⟩

/-- The handler of an allocation that has a line to itself. -/
def own (a : Allocation) : Handler :=
  if a.req.handler = 0 then .null else ⟨a.req.handler, a.req.arg⟩

/-- The allocations with the one of a handle enabled or disabled. -/
def setEnabled (h : IntrHandleData) (b : Bool) (as : List Allocation) : List Allocation :=
  as.map fun a => if a.handle = h then { a with enabled := b } else a

/-- The allocations without the one of a handle. -/
def drop (h : IntrHandleData) (as : List Allocation) : List Allocation :=
  as.filter fun a => a.handle ≠ h

/-- The allocations on a line. -/
def on (n : Nat) (as : List Allocation) : List Allocation := as.filter fun a => a.intno = n

end Allocation

/-- The allocator and the live allocations; `aborted` after an assertion failed. -/
structure Served where
  alloc : IntrAlloc
  live : List Allocation
  aborted : Bool

/-- A call of the allocator. -/
inductive AllocCall where
  | alloc (fails : Malloc → Bool) (r : Request) (keep : Bool)
  | free (h : Option IntrHandleData)
  | enable (h : Option IntrHandleData)
  | disable (h : Option IntrHandleData)
  | markShared (fails : Malloc → Bool) (intno cpu : Nat) (isIntRam : Bool)
  | reserve (fails : Malloc → Bool) (intno cpu : Nat)
  | noniramDisable
  | noniramEnable

namespace Served

def new (mask : BitVec 32) : Served := ⟨.new mask, [], false⟩

/-- The state after an operation that may abort. -/
def after {α : Type} (w : Served) (result : Option α) (next : α → Served) : Served :=
  match result with
  | none => { w with aborted := true }
  | some x => next x

/-- The allocation that a handle stands for. -/
def granted (r : Request) (keep : Bool) (h : IntrHandleData) : Allocation :=
  ⟨h.vectorDesc.2, h.sharedVectorDesc, r.withLevels, !r.withLevels.has espIntrFlagIntrdisabled, keep⟩

/-- What a call does. -/
def next (w : Served) : AllocCall → Served
  | .alloc fails r keep => w.after (w.alloc.espIntrAllocIntrstatus fails r) fun res =>
    { w with alloc := res.2.2, live := (res.2.1.map (granted r keep)).toList ++ w.live }
  | .free h => w.after (w.alloc.espIntrFree h) fun res =>
    { w with
      alloc := res.2
      live := if res.1 = .ok then (h.map fun h => Allocation.drop h w.live).getD w.live else w.live }
  | .enable h =>
    { w with
      alloc := (w.alloc.espIntrEnable h).2
      live := (h.map fun h => Allocation.setEnabled h true w.live).getD w.live }
  | .disable h => w.after (w.alloc.espIntrDisable h) fun res =>
    { w with
      alloc := res.2
      live := (h.map fun h => Allocation.setEnabled h false w.live).getD w.live }
  | .markShared fails intno cpu isIntRam =>
    { w with alloc := (w.alloc.espIntrMarkShared fails intno cpu isIntRam).2 }
  | .reserve fails intno cpu => { w with alloc := (w.alloc.espIntrReserve fails intno cpu).2 }
  | .noniramDisable => w.after w.alloc.espIntrNoniramDisable fun s => { w with alloc := s }
  | .noniramEnable => w.after w.alloc.espIntrNoniramEnable fun s => { w with alloc := s }

/-- A program that has aborted makes no calls. -/
def step (w : Served) (c : AllocCall) : Served := if w.aborted then w else w.next c

/-- The handle, if there is one, was handed out and has not been freed. -/
def Holds (w : Served) : Option IntrHandleData → Prop
  | none => True
  | some h => ∃ a ∈ w.live, a.held = true ∧ a.handle = h

instance (w : Served) (h : Option IntrHandleData) : Decidable (w.Holds h) := by
  cases h with
  | none => exact isTrue trivial
  | some h => exact inferInstanceAs (Decidable (∃ a ∈ w.live, a.held = true ∧ a.handle = h))

/-- **A proper call**: its handler is not the allocator's own, its source fits the field of a descriptor,
no more allocations are alive than an `int` counts; its handle is alive; only a line in shared use is
marked as shared, and no line in use is reserved; the interrupts outside the internal memory are disabled
and enabled in turn. -/
def Proper (w : Served) : AllocCall → Prop
  | .alloc _ r _ =>
    r.handler ≠ sharedIntrIsrFn ∧ (-128 ≤ r.source ∧ r.source < 128) ∧ w.live.length ≤ 2147483647
  | .free h => w.Holds h
  | .enable h => w.Holds h
  | .disable h => w.Holds h
  | .markShared _ intno cpu _ =>
    31 < intno ∨ cpu ≠ xPortGetCoreID ∨ ∃ a ∈ w.live, a.intno = intno ∧ a.entry ≠ none
  | .reserve _ intno cpu => cpu ≠ xPortGetCoreID ∨ ∀ a ∈ w.live, a.intno ≠ intno
  | .noniramDisable => w.alloc.nonIramIntDisabledFlag xPortGetCoreID = false
  | .noniramEnable => w.alloc.nonIramIntDisabledFlag xPortGetCoreID = true

instance (w : Served) (c : AllocCall) : Decidable (w.Proper c) := by
  cases c with
  | alloc => exact inferInstanceAs (Decidable (_ ∧ _ ∧ _))
  | free h => exact inferInstanceAs (Decidable (w.Holds h))
  | enable h => exact inferInstanceAs (Decidable (w.Holds h))
  | disable h => exact inferInstanceAs (Decidable (w.Holds h))
  | markShared _ intno cpu =>
    exact inferInstanceAs
      (Decidable (31 < intno ∨ cpu ≠ xPortGetCoreID ∨ ∃ a ∈ w.live, a.intno = intno ∧ a.entry ≠ none))
  | reserve _ intno cpu =>
    exact inferInstanceAs (Decidable (cpu ≠ xPortGetCoreID ∨ ∀ a ∈ w.live, a.intno ≠ intno))
  | noniramDisable => exact inferInstanceAs (Decidable (_ = _))
  | noniramEnable => exact inferInstanceAs (Decidable (_ = _))

/-! ## §2 — how a line belongs to its allocations -/

/-- **The state of line `n`**: its allocations, its descriptor, its handler. -/
inductive LineServed (n : Nat) : List Allocation → Option VectorDesc → Handler → Prop where
  /-- no descriptor -/
  | untouched : LineServed n [] none .null
  /-- a descriptor and no user -/
  | free (d : VectorDesc) (hs : d.flags.shared = false) (hn : d.flags.nonShared = false)
      (hl : d.sharedVecInfo = []) : LineServed n [] (some d) .null
  /-- one user -/
  | own (d : VectorDesc) (a : Allocation) (hs : d.flags.shared = false) (hn : d.flags.nonShared = true)
      (hl : d.sharedVecInfo = []) (hentry : a.entry = none) (hsource : d.source = storeSource a.req.source) :
      LineServed n [a] (some d) a.own
  /-- one or more users that share it -/
  | shared (d : VectorDesc) (as : List Allocation) (hs : d.flags.shared = true)
      (hn : d.flags.nonShared = false) (hne : as ≠ [])
      (hl : as.map Allocation.attached = d.sharedVecInfo.map some) :
      LineServed n as (some d) ⟨sharedIntrIsrFn, descAddr (xPortGetCoreID, n)⟩

/-- The order of the list. -/
def KeyLt (a b : Nat × Nat) : Prop := a.1 < b.1 ∨ a.1 = b.1 ∧ a.2 < b.2

instance : DecidableRel KeyLt := fun _ _ => inferInstanceAs (Decidable (_ ∨ _))

/-- The keys of the list stand in this order, without repetition, and are of lines that exist. -/
structure Ordered (ks : List (Nat × Nat)) : Prop where
  sorted : ks.Pairwise KeyLt
  lines : ∀ k ∈ ks, k.2 < 32

/-- **The invariant.** -/
structure Serves (w : Served) : Prop where
  alive : w.aborted = false
  ordered : Ordered (w.alloc.vectorDescHead.map VectorDesc.key)
  line : ∀ n, LineServed n (Allocation.on n w.live) (w.alloc.findDescForInt n xPortGetCoreID)
    (w.alloc.drivers.handlerApp n)
  handles : (w.live.map Allocation.handle).Nodup
  addrs : ∀ a ∈ w.live, ∀ addr, a.entry = some addr → addr < w.alloc.heap
  reqs : ∀ a ∈ w.live, a.req.handler ≠ sharedIntrIsrFn ∧
    (-128 ≤ a.req.source ∧ a.req.source < 128) ∧ (a.entry.isSome = a.req.has espIntrFlagShared)

theorem serves_new (mask : BitVec 32) : Serves (new mask) where
  alive := rfl
  ordered := ⟨List.Pairwise.nil, fun _ hk => nomatch hk⟩
  line _ := .untouched
  handles := List.nodup_nil
  addrs _ ha := nomatch ha
  reqs _ ha := nomatch ha

end Served

/-! ## §3 — allocations by handle and by line -/

namespace Allocation

variable (h : IntrHandleData) (b : Bool) (n : Nat) (as : List Allocation)

theorem on_setEnabled : on n (setEnabled h b as) = setEnabled h b (on n as) := by
  unfold on setEnabled
  rw [List.filter_map]
  congr 1
  apply List.filter_congr
  intro a _
  by_cases ha : a.handle = h <;> simp [ha]

theorem on_drop : on n (drop h as) = drop h (on n as) := by
  unfold on drop
  exact List.filter_comm _ _ as

theorem handle_setEnabled : (setEnabled h b as).map handle = as.map handle := by
  unfold setEnabled
  rw [List.map_map]
  apply List.map_congr_left
  intro a _
  show handle (if a.handle = h then { a with enabled := b } else a) = a.handle
  split <;> rfl

variable {h b n as}

theorem mem_on {a : Allocation} : a ∈ on n as ↔ a ∈ as ∧ a.intno = n := by
  simp [on]

/-- A handle of another line changes nothing. -/
theorem setEnabled_of_notMem (ha : ∀ a ∈ as, a.handle ≠ h) : setEnabled h b as = as := by
  unfold setEnabled
  conv_rhs => rw [← List.map_id as]
  apply List.map_congr_left
  intro a hmem
  exact if_neg (ha a hmem)

theorem drop_of_notMem (ha : ∀ a ∈ as, a.handle ≠ h) : drop h as = as :=
  List.filter_eq_self.mpr fun a hmem => decide_eq_true (ha a hmem)

theorem mem_setEnabled {a : Allocation} (ha : a ∈ setEnabled h b as) :
    ∃ a' ∈ as, a.intno = a'.intno ∧ a.entry = a'.entry ∧ a.req = a'.req ∧ a.held = a'.held := by
  obtain ⟨a', hmem, rfl⟩ := List.mem_map.mp ha
  refine ⟨a', hmem, ?_⟩
  by_cases hh : a'.handle = h <;> simp [hh]

/-- The handles on a line are of that line. -/
theorem handle_of_on {a : Allocation} (ha : a ∈ on n as) : a.handle.vectorDesc = (xPortGetCoreID, n) := by
  rw [← (mem_on.mp ha).2]
  rfl

theorem ne_of_line {m : Nat} (hh : h.vectorDesc = (xPortGetCoreID, n)) (hm : m ≠ n) :
    ∀ a ∈ on m as, a.handle ≠ h := by
  rintro a ha rfl
  rw [handle_of_on ha] at hh
  exact hm (congrArg Prod.snd hh)

end Allocation

/-! ## §4 — one line at a time -/

namespace IntrAlloc

variable {s : IntrAlloc} {f : VectorDesc → VectorDesc} {n m : Nat}

/-- A line of the CPU on which everything runs. -/
abbrev lineKey (n : Nat) : Nat × Nat := (xPortGetCoreID, n)

def keys (s : IntrAlloc) : List (Nat × Nat) := s.vectorDescHead.map VectorDesc.key

theorem keys_update (hf : ∀ d, (f d).key = d.key) (k : Nat × Nat) : (s.update k f).keys = s.keys :=
  FirstMatch.map_key_update hf k s.vectorDescHead

theorem find_update (hf : ∀ d, (f d).key = d.key) :
    (s.update (lineKey n) f).findDescForInt n xPortGetCoreID =
      (s.findDescForInt n xPortGetCoreID).map f :=
  FirstMatch.find_update_self hf _ _

theorem find_update_of_ne (hf : ∀ d, (f d).key = d.key) {k : Nat × Nat} (hk : lineKey m ≠ k) :
    (s.update k f).findDescForInt m xPortGetCoreID = s.findDescForInt m xPortGetCoreID :=
  FirstMatch.find_update_of_ne hf hk _

theorem lineKey_ne (hm : m ≠ n) : lineKey m ≠ lineKey n := fun h => hm (congrArg Prod.snd h)

theorem find_key {d : VectorDesc} (h : s.findDescForInt n xPortGetCoreID = some d) :
    d ∈ s.vectorDescHead ∧ d.key = lineKey n :=
  FirstMatch.mem_of_find h

/-- An existing descriptor through a handle. -/
theorem descOf_eq {h : IntrHandleData} {d : VectorDesc} (hh : h.vectorDesc = lineKey n)
    (hd : s.findDescForInt n xPortGetCoreID = some d) : s.descOf h = d := by
  unfold descOf
  rw [hh]
  exact congrArg (fun o => Option.getD o _) hd

/-- The table of handlers after `assignfn` on the CPU. -/
theorem handlerApp_setEntry (hn : n < 32) (e : Handler) (t : EspIntrDrivers) :
    (t.setEntry xPortGetCoreID n e).handlerApp = Function.update t.handlerApp n e := by
  have hgood : ¬ BadLine (xPortGetCoreID : Nat) n := by
    unfold BadLine xPortGetCoreID
    omega
  unfold EspIntrDrivers.setEntry
  rw [if_neg hgood, if_neg (by decide)]
  rfl

theorem hasHandler_eq (hn : n < 32) :
    s.intHasHandler n xPortGetCoreID = ((s.drivers.handlerApp n).fn != 0) := by
  have hgood : ¬ BadLine (xPortGetCoreID : Nat) n := by
    unfold BadLine xPortGetCoreID
    omega
  unfold intHasHandler EspIntrDrivers.hasHandler
  rw [if_neg hgood, if_neg (by decide)]
  rfl

theorem handlerApp_setEdge (w : BitVec 32) (cpu : Nat) :
    (s.setEdge w cpu).drivers.handlerApp = s.drivers.handlerApp := by
  unfold setEdge
  by_cases hcpu : cpu = 0
  · simp only [hcpu, if_true]
    rfl
  · simp only [hcpu, if_false]
    rfl

/-! ## §5 — descriptors -/

/-- A key that is not there yet stays in order. -/
theorem sorted_insert {d : VectorDesc} {l : List VectorDesc}
    (hsorted : (l.map VectorDesc.key).Pairwise Served.KeyLt) (hnew : d.key ∉ l.map VectorDesc.key) :
    ((l.orderedInsert VectorDesc.Stops d).map VectorDesc.key).Pairwise Served.KeyLt := by
  induction l with
  | nil => exact List.pairwise_singleton _ _
  | cons b l ih =>
    rw [List.map_cons, List.pairwise_cons] at hsorted
    rw [List.map_cons, List.mem_cons, not_or] at hnew
    by_cases hstop : VectorDesc.Stops d b
    · rw [List.orderedInsert_cons_of_le _ _ hstop]
      -- the head is greater than the new key, and the rest greater than the head
      have hhead : Served.KeyLt d.key b.key := by
        have hne : ¬ (d.cpu = b.cpu ∧ d.intno = b.intno) := fun h => hnew.1 (Prod.ext h.1 h.2)
        unfold VectorDesc.Stops at hstop
        unfold Served.KeyLt VectorDesc.key
        dsimp only
        omega
      refine List.pairwise_cons.mpr ⟨fun k hk => ?_, List.pairwise_cons.mpr hsorted⟩
      rcases List.mem_cons.mp hk with rfl | hk
      · exact hhead
      · have hlt := hsorted.1 k hk
        unfold Served.KeyLt at hhead hlt ⊢
        omega
    · rw [List.orderedInsert_of_not_le _ _ hstop, List.map_cons, List.pairwise_cons]
      refine ⟨fun k hk => ?_, ih hsorted.2 hnew.2⟩
      obtain ⟨e, he, rfl⟩ := List.mem_map.mp hk
      rcases (List.mem_orderedInsert VectorDesc.Stops).mp he with rfl | he
      · unfold VectorDesc.Stops at hstop
        unfold Served.KeyLt VectorDesc.key
        dsimp only
        omega
      · exact hsorted.1 e.key (List.mem_map_of_mem he)

theorem ordered_insert {d : VectorDesc} (ho : Served.Ordered s.keys) (hlt : d.intno < 32)
    (hnew : d.key ∉ s.keys) : Served.Ordered (s.insertVectorDesc d).keys := by
  refine ⟨sorted_insert ho.sorted hnew, fun k hk => ?_⟩
  obtain ⟨e, he, rfl⟩ := List.mem_map.mp hk
  rcases (List.mem_orderedInsert VectorDesc.Stops).mp he with rfl | he
  · exact hlt
  · exact ho.lines e.key (List.mem_map_of_mem he)

end IntrAlloc

namespace Served

theorem Ordered.nodup {ks : List (Nat × Nat)} (h : Ordered ks) : ks.Nodup := by
  refine h.sorted.imp ?_
  rintro a b hlt rfl
  unfold KeyLt at hlt
  omega

/-- A descriptor of the list is what is found for its line. -/
theorem Serves.found {w : Served} (h : w.Serves) {d : VectorDesc} (hd : d ∈ w.alloc.vectorDescHead)
    (hcpu : d.cpu = xPortGetCoreID) : w.alloc.findDescForInt d.intno xPortGetCoreID = some d := by
  have hfind := FirstMatch.find_of_mem h.ordered.nodup hd
  rw [show d.key = (xPortGetCoreID, d.intno) from Prod.ext hcpu rfl] at hfind
  exact hfind

/-- What an operation on one line leaves alone. -/
structure Within (k : Nat × Nat) (s s' : IntrAlloc) : Prop where
  find : ∀ m, IntrAlloc.lineKey m ≠ k →
    s'.findDescForInt m xPortGetCoreID = s.findDescForInt m xPortGetCoreID
  app : ∀ m, IntrAlloc.lineKey m ≠ k → s'.drivers.handlerApp m = s.drivers.handlerApp m
  ordered : Ordered s.keys → Ordered s'.keys

theorem Within.refl (k : Nat × Nat) (s : IntrAlloc) : Within k s s := ⟨fun _ _ => rfl, fun _ _ => rfl, id⟩

theorem Within.trans {k : Nat × Nat} {s s' s'' : IntrAlloc} (h : Within k s s') (h' : Within k s' s'') :
    Within k s s'' where
  find m hm := (h'.find m hm).trans (h.find m hm)
  app m hm := (h'.app m hm).trans (h.app m hm)
  ordered ho := h'.ordered (h.ordered ho)

theorem Within.update (s : IntrAlloc) (k : Nat × Nat) {f : VectorDesc → VectorDesc}
    (hf : ∀ d, (f d).key = d.key) : Within k s (s.update k f) where
  find m hm := IntrAlloc.find_update_of_ne hf hm
  app _ _ := rfl
  ordered ho := by
    rw [IntrAlloc.keys_update hf]
    exact ho

/-- An operation that writes one entry of the table of handlers, or none. -/
theorem Within.entry {s s' : IntrAlloc} {n : Nat} {e : Handler}
    (hlist : s'.vectorDescHead = s.vectorDescHead)
    (happ : s'.drivers.handlerApp = Function.update s.drivers.handlerApp n e) :
    Within (IntrAlloc.lineKey n) s s' where
  find m _ := by
    unfold IntrAlloc.findDescForInt
    rw [hlist]
  app m hm := by
    rw [happ, Function.update_of_ne]
    rintro rfl
    exact hm rfl
  ordered ho := by
    unfold IntrAlloc.keys at ho ⊢
    rwa [hlist]

theorem Within.same {s s' : IntrAlloc} {k : Nat × Nat} (hlist : s'.vectorDescHead = s.vectorDescHead)
    (happ : s'.drivers.handlerApp = s.drivers.handlerApp) : Within k s s' where
  find m _ := by
    unfold IntrAlloc.findDescForInt
    rw [hlist]
  app m _ := by rw [happ]
  ordered ho := by
    unfold IntrAlloc.keys at ho ⊢
    rwa [hlist]

/-- What a step on one line owes. -/
theorem Serves.change {w w' : Served} (h : w.Serves) (n : Nat) (halive : w'.aborted = false)
    (hwithin : Within (IntrAlloc.lineKey n) w.alloc w'.alloc)
    (hon : ∀ m ≠ n, Allocation.on m w'.live = Allocation.on m w.live)
    (hline : LineServed n (Allocation.on n w'.live) (w'.alloc.findDescForInt n xPortGetCoreID)
      (w'.alloc.drivers.handlerApp n))
    (handles : (w'.live.map Allocation.handle).Nodup)
    (haddrs : ∀ a ∈ w'.live, ∀ addr, a.entry = some addr → addr < w'.alloc.heap)
    (hreqs : ∀ a ∈ w'.live, a.req.handler ≠ sharedIntrIsrFn ∧
      (-128 ≤ a.req.source ∧ a.req.source < 128) ∧ (a.entry.isSome = a.req.has espIntrFlagShared)) :
    w'.Serves := by
  refine ⟨halive, hwithin.ordered h.ordered, fun m => ?_, handles, haddrs, hreqs⟩
  by_cases hm : m = n
  · rw [hm]
    exact hline
  · have hkey := IntrAlloc.lineKey_ne hm
    rw [hwithin.find m hkey, hwithin.app m hkey, hon m hm]
    exact h.line m

/-- A step that touches neither the descriptors nor the handlers, and leaves the allocations. -/
theorem Serves.frame {w : Served} (h : w.Serves) {s : IntrAlloc}
    (hlist : s.vectorDescHead = w.alloc.vectorDescHead)
    (happ : s.drivers.handlerApp = w.alloc.drivers.handlerApp) (hheap : s.heap = w.alloc.heap) :
    Serves { w with alloc := s } := by
  refine h.change 0 h.alive (Within.same hlist happ) (fun _ _ => rfl) ?_ h.handles ?_ h.reqs
  · have hline := h.line 0
    unfold IntrAlloc.findDescForInt at hline ⊢
    rw [← hlist, ← happ] at hline
    exact hline
  · rw [hheap]
    exact h.addrs

end Served

/-! ## §6 — the assertions -/

namespace Served

variable {w : Served}

/-- No line is both shared and held. -/
theorem LineServed.flags {n : Nat} {as : List Allocation} {d : VectorDesc} {e : Handler}
    (h : LineServed n as (some d) e) : ¬ (d.flags.shared = true ∧ d.flags.nonShared = true) := by
  cases h with
  | free _ hs hn => simp [hs]
  | own _ a hs hn => simp [hs]
  | shared _ _ hs hn => simp [hn]

/-- A shared line has an entry. -/
theorem LineServed.entries {n : Nat} {as : List Allocation} {d : VectorDesc} {e : Handler}
    (h : LineServed n as (some d) e) (hshared : d.flags.shared = true) : d.sharedVecInfo ≠ [] := by
  cases h with
  | free _ hs => rw [hs] at hshared; cases hshared
  | own _ a hs => rw [hs] at hshared; cases hshared
  | shared _ _ _ _ hne hl =>
    intro hempty
    rw [hempty, List.map_nil, List.map_eq_nil_iff] at hl
    exact hne hl

theorem Serves.lineOf (h : w.Serves) {n : Nat} {d : VectorDesc}
    (hd : w.alloc.findDescForInt n xPortGetCoreID = some d) :
    LineServed n (Allocation.on n w.live) (some d) (w.alloc.drivers.handlerApp n) :=
  hd ▸ h.line n

theorem Serves.carries_ne_none (h : w.Serves) (source : Int) :
    ∀ d ∈ w.alloc.vectorDescHead, IntrAlloc.carries source xPortGetCoreID d ≠ none := by
  intro d hd
  unfold IntrAlloc.carries
  split
  · exact nofun
  · next hs =>
    split
    · next hcpu =>
      rw [if_neg ((h.lineOf (h.found hd hcpu)).entries (by simpa using hs))]
      exact nofun
    · exact nofun

theorem Serves.descOrEmpty_eq (h : w.Serves) : ∀ d ∈ w.alloc.vectorDescHead, d.cpu = xPortGetCoreID →
    w.alloc.descOrEmpty d.intno xPortGetCoreID = d := by
  intro d hd hcpu
  unfold IntrAlloc.descOrEmpty
  rw [h.found hd hcpu]
  rfl

theorem LineServed.length_le {n : Nat} {as : List Allocation} {d : VectorDesc} {e : Handler}
    (h : LineServed n as (some d) e) : d.sharedVecInfo.length ≤ as.length := by
  cases h with
  | free _ _ _ hl => simp [hl]
  | own _ a _ _ hl => simp [hl]
  | shared _ _ _ _ _ hl =>
    have hlength := congrArg List.length hl
    simp only [List.length_map] at hlength
    omega

theorem Serves.counted (h : w.Serves) (hlen : w.live.length ≤ 2147483647) :
    IntrAlloc.Counted w.alloc := by
  intro n
  unfold IntrAlloc.descOrEmpty
  cases hd : w.alloc.findDescForInt n xPortGetCoreID with
  | none => exact Nat.zero_le _
  | some d =>
    have hline := (h.lineOf hd).length_le
    have hon : (Allocation.on n w.live).length ≤ w.live.length := List.length_filter_le _ _
    show d.sharedVecInfo.length ≤ _
    omega

/-- **The choice never fails an assertion**, and the line it gives exists and can be used. -/
theorem Serves.chosen (h : w.Serves) (hlen : w.live.length ≤ 2147483647) (r : Request)
    (force : Option Nat) :
    ∃ res, w.alloc.getAvailableInt r.withLevels xPortGetCoreID force = some res ∧
      IntrAlloc.Chosen w.alloc r.withLevels force res ∧ ∀ n, res = some n → n < 32 ∧
        IntrAlloc.Meets w.alloc r.withLevels xPortGetCoreID force
          (w.alloc.descOrEmpty n xPortGetCoreID) := by
  have hflags : ∀ n, ¬ ((w.alloc.descOrEmpty n xPortGetCoreID).flags.shared = true ∧
      (w.alloc.descOrEmpty n xPortGetCoreID).flags.nonShared = true) := by
    intro n
    unfold IntrAlloc.descOrEmpty
    cases hd : w.alloc.findDescForInt n xPortGetCoreID with
    | none => exact nofun
    | some d => exact (h.lineOf hd).flags
  have hcarry := h.carries_ne_none r.withLevels.source
  obtain ⟨res, hres, hchosen⟩ := @IntrAlloc.getAvailableInt_chosen w.alloc r.withLevels force
    r.withLevels_levels hflags h.descOrEmpty_eq hcarry (h.counted hlen)
  refine ⟨res, hres, hchosen, fun n hn => ?_⟩
  have hmeets := hchosen.meets h.descOrEmpty_eq hcarry hn
  refine ⟨?_, hmeets⟩
  have hlt := hmeets.lt
  rwa [IntrAlloc.descOrEmpty_intno] at hlt

/-! ## §7 — a descriptor for a line -/

theorem within_insert {s : IntrAlloc} {cpu n : Nat} (hn : n < 32)
    (hnone : s.findDescForInt n cpu = none) :
    Within (cpu, n) s (s.insertVectorDesc (.empty cpu n)) := by
  have hnew : (VectorDesc.empty cpu n).key ∉ s.keys := by
    intro hmem
    have hsome := (@FirstMatch.find_isSome _ _ _ VectorDesc.key _ _).mpr hmem
    have hnone : FirstMatch.find VectorDesc.key (VectorDesc.empty cpu n).key s.vectorDescHead = none := hnone
    rw [hnone] at hsome
    cases hsome
  refine ⟨fun m hm => ?_, fun _ _ => rfl, fun ho => IntrAlloc.ordered_insert ho hn hnew⟩
  exact FirstMatch.find_orderedInsert_of_ne fun hkey => hm hkey.symm

/-- **`get_desc_for_int`**: the descriptor is there, as it was or empty. -/
theorem getDescForInt_some {s s' : IntrAlloc} {fails : Malloc → Bool} {cpu n : Nat} (hn : n < 32)
    (h : s.getDescForInt fails n cpu = some s') :
    s'.findDescForInt n cpu = some (s.descOrEmpty n cpu) ∧ Within (cpu, n) s s' ∧
      s'.drivers = s.drivers ∧ s'.heap = s.heap := by
  unfold IntrAlloc.getDescForInt at h
  unfold IntrAlloc.descOrEmpty
  split at h
  · next d hd =>
    obtain rfl := Option.some.inj h
    exact ⟨by rw [hd]; rfl, Within.refl _ s, rfl, rfl⟩
  · next hnone =>
    split at h
    · cases h
    · obtain rfl := Option.some.inj h
      rw [hnone]
      refine ⟨?_, within_insert hn hnone, rfl, rfl⟩
      apply FirstMatch.find_orderedInsert_self (a := VectorDesc.empty cpu n)
      intro hmem
      have hsome := (@FirstMatch.find_isSome _ _ _ VectorDesc.key _ _).mpr hmem
      have hnone : FirstMatch.find VectorDesc.key (VectorDesc.empty cpu n).key s.vectorDescHead = none :=
        hnone
      rw [hnone] at hsome
      cases hsome

/-- A new descriptor has no user. -/
theorem LineServed.made {n : Nat} {as : List Allocation} {d : Option VectorDesc} {e : Handler}
    (h : LineServed n as d e) :
    LineServed n as (some (d.getD (.empty xPortGetCoreID n))) e := by
  cases h with
  | untouched => exact .free _ rfl rfl rfl
  | free d hs hn hl => exact .free d hs hn hl
  | own d a hs hn hl hentry hsource => exact .own d a hs hn hl hentry hsource
  | shared d as hs hn hne hl => exact .shared d as hs hn hne hl

theorem Serves.getDesc (h : w.Serves) {s' : IntrAlloc} {fails : Malloc → Bool} {n : Nat} (hn : n < 32)
    (hs : w.alloc.getDescForInt fails n xPortGetCoreID = some s') :
    Serves { w with alloc := s' } := by
  obtain ⟨hfind, hwithin, hdrivers, hheap⟩ := getDescForInt_some hn hs
  refine h.change n h.alive hwithin (fun _ _ => rfl) ?_ h.handles ?_ h.reqs
  · show LineServed n (Allocation.on n w.live) (s'.findDescForInt n xPortGetCoreID)
      (s'.drivers.handlerApp n)
    rw [hfind, hdrivers]
    exact (h.line n).made
  · show ∀ a ∈ w.live, ∀ addr, a.entry = some addr → addr < s'.heap
    rw [hheap]
    exact h.addrs

/-! ## §8 — a line that is allocated -/

section Connect

variable {s : IntrAlloc} {r : Request} {n : Nat}

/-- The entry that `attach` makes. -/
def newEntry (s : IntrAlloc) (r : Request) : SharedVectorDesc :=
  ⟨s.heap, false, storeSource r.source, r.intrstatusreg, r.intrstatusmask, r.handler, r.arg⟩

/-- What becomes of the descriptor. -/
def connected (s : IntrAlloc) (r : Request) (d : VectorDesc) : VectorDesc :=
  if r.has espIntrFlagShared then
    { d with
      sharedVecInfo := newEntry s r :: d.sharedVecInfo
      flags := { d.flags with shared := true, inIram := r.has espIntrFlagIram } }
  else
    { d with
      flags := { VecFlags.none with nonShared := true, inIram := r.has espIntrFlagIram }
      source := storeSource r.source }

theorem connect_shared (hs : r.has espIntrFlagShared = true) (k : Nat × Nat) :
    (s.connect r k).vectorDescHead = ((s.attach r k).update k fun d =>
        { d with flags := { d.flags with inIram := r.has espIntrFlagIram } }).vectorDescHead ∧
      (s.connect r k).drivers = (s.attach r k).drivers ∧ (s.connect r k).heap = s.heap + 1 := by
  unfold IntrAlloc.connect
  rw [hs, if_pos rfl]
  by_cases hsource : r.source ≥ 0
  · simp only [if_pos hsource]
    exact ⟨rfl, rfl, rfl⟩
  · simp only [if_neg hsource]
    exact ⟨rfl, rfl, rfl⟩

theorem connect_own (hs : r.has espIntrFlagShared = false) (k : Nat × Nat) :
    (s.connect r k).vectorDescHead = ((s.take r k).update k fun d =>
        { d with flags := { d.flags with inIram := r.has espIntrFlagIram } }).vectorDescHead ∧
      (s.connect r k).drivers = (s.take r k).drivers ∧ (s.connect r k).heap = (s.take r k).heap := by
  unfold IntrAlloc.connect
  rw [hs, if_neg Bool.false_ne_true]
  by_cases hsource : r.source ≥ 0
  · simp only [if_pos hsource]
    exact ⟨rfl, rfl, rfl⟩
  · simp only [if_neg hsource]
    exact ⟨rfl, rfl, rfl⟩

theorem attach_app (hn : n < 32) : (s.attach r (IntrAlloc.lineKey n)).drivers.handlerApp =
    Function.update s.drivers.handlerApp n ⟨sharedIntrIsrFn, descAddr (IntrAlloc.lineKey n)⟩ :=
  IntrAlloc.handlerApp_setEntry hn _ _

theorem take_list (k : Nat × Nat) : (s.take r k).vectorDescHead = (s.update k fun d =>
    { d with
      flags := { VecFlags.none with nonShared := true }
      source := storeSource r.source }).vectorDescHead ∧ (s.take r k).heap = s.heap := by
  unfold IntrAlloc.take
  by_cases hh : r.handler = 0
  · simp only [if_pos hh]
    split <;> exact ⟨rfl, rfl⟩
  · simp only [if_neg hh]
    split <;> exact ⟨rfl, rfl⟩

theorem take_app (hn : n < 32) : (s.take r (IntrAlloc.lineKey n)).drivers.handlerApp =
    Function.update s.drivers.handlerApp n
      (if r.handler = 0 then s.drivers.handlerApp n else ⟨r.handler, r.arg⟩) := by
  have hedge : ∀ t : IntrAlloc, (if r.has espIntrFlagEdge then
      t.setEdge ((1 : BitVec 32) <<< n) xPortGetCoreID else t).drivers.handlerApp =
        t.drivers.handlerApp := by
    intro t
    split
    · exact IntrAlloc.handlerApp_setEdge _ _
    · rfl
  unfold IntrAlloc.take
  refine (hedge _).trans ?_
  by_cases hh : r.handler = 0
  · rw [if_pos hh, if_pos hh, Function.update_eq_self]
  · rw [if_neg hh, if_neg hh]
    exact IntrAlloc.handlerApp_setEntry hn _ _

theorem connect_within (hn : n < 32) :
    Within (IntrAlloc.lineKey n) s (s.connect r (IntrAlloc.lineKey n)) := by
  cases hs : r.has espIntrFlagShared with
  | true =>
    obtain ⟨hlist, hdrivers, _⟩ := connect_shared (s := s) hs (IntrAlloc.lineKey n)
    have hattach : Within (IntrAlloc.lineKey n) s (s.attach r (IntrAlloc.lineKey n)) := by
      have hheap : Within (IntrAlloc.lineKey n) s { s with heap := s.heap + 1 } := Within.same rfl rfl
      refine hheap.trans ((Within.update _ _ fun _ => ?_).trans (Within.entry rfl (attach_app hn)))
      rfl
    refine hattach.trans ((Within.update _ _ fun _ => ?_).trans (Within.same hlist ?_))
    · rfl
    · rw [hdrivers]
      rfl
  | false =>
    obtain ⟨hlist, hdrivers, _⟩ := connect_own (s := s) hs (IntrAlloc.lineKey n)
    have htake : Within (IntrAlloc.lineKey n) s (s.take r (IntrAlloc.lineKey n)) := by
      refine (Within.update s _ fun _ => ?_).trans (Within.entry (take_list _).1 (take_app hn))
      rfl
    refine htake.trans ((Within.update _ _ fun _ => ?_).trans (Within.same hlist ?_))
    · rfl
    · rw [hdrivers]
      rfl

theorem attach_find : (s.attach r (IntrAlloc.lineKey n)).findDescForInt n xPortGetCoreID =
    (s.findDescForInt n xPortGetCoreID).map fun d =>
      { d with
        sharedVecInfo := newEntry s r :: d.sharedVecInfo
        flags := { d.flags with shared := true } } := by
  refine FirstMatch.find_update_self ?_ _ s.vectorDescHead
  exact fun _ => rfl

theorem take_find : (s.take r (IntrAlloc.lineKey n)).findDescForInt n xPortGetCoreID =
    (s.findDescForInt n xPortGetCoreID).map fun d =>
      { d with
        flags := { VecFlags.none with nonShared := true }
        source := storeSource r.source } := by
  unfold IntrAlloc.findDescForInt
  rw [(take_list _).1]
  refine FirstMatch.find_update_self ?_ _ s.vectorDescHead
  exact fun _ => rfl

theorem connect_find :
    (s.connect r (IntrAlloc.lineKey n)).findDescForInt n xPortGetCoreID =
      (s.findDescForInt n xPortGetCoreID).map (connected s r) := by
  have hlast : ∀ t : IntrAlloc, (s.connect r (IntrAlloc.lineKey n)).vectorDescHead =
      (t.update (IntrAlloc.lineKey n) fun d =>
        { d with flags := { d.flags with inIram := r.has espIntrFlagIram } }).vectorDescHead →
      (s.connect r (IntrAlloc.lineKey n)).findDescForInt n xPortGetCoreID =
        (t.findDescForInt n xPortGetCoreID).map fun d =>
          { d with flags := { d.flags with inIram := r.has espIntrFlagIram } } := by
    intro t ht
    unfold IntrAlloc.findDescForInt
    rw [ht]
    refine FirstMatch.find_update_self ?_ _ t.vectorDescHead
    exact fun _ => rfl
  unfold connected
  cases hs : r.has espIntrFlagShared with
  | true =>
    rw [hlast _ (connect_shared hs _).1, attach_find, Option.map_map]
    simp [Function.comp_def]
  | false =>
    rw [hlast _ (connect_own hs _).1, take_find, Option.map_map]
    simp [Function.comp_def]

theorem connect_app (hn : n < 32) : (s.connect r (IntrAlloc.lineKey n)).drivers.handlerApp n =
    if r.has espIntrFlagShared then ⟨sharedIntrIsrFn, descAddr (IntrAlloc.lineKey n)⟩
    else if r.handler = 0 then s.drivers.handlerApp n else ⟨r.handler, r.arg⟩ := by
  cases hs : r.has espIntrFlagShared with
  | true =>
    rw [(connect_shared hs _).2.1, attach_app hn, Function.update_self]
    rfl
  | false =>
    rw [(connect_own hs _).2.1, take_app hn, Function.update_self]
    rfl

theorem connect_heap : (s.connect r (IntrAlloc.lineKey n)).heap =
    if r.has espIntrFlagShared then s.heap + 1 else s.heap := by
  cases hs : r.has espIntrFlagShared with
  | true => exact (connect_shared hs _).2.2
  | false => exact (connect_own hs _).2.2.trans (take_list _).2

end Connect

/-- The allocation that a connection makes, before it is disabled. -/
def connectedAs (s : IntrAlloc) (r : Request) (n : Nat) (keep : Bool) : Allocation :=
  ⟨n, if r.has espIntrFlagShared then some s.heap else none, r, true, keep⟩

/-- **A line after a connection**, when the line could be used. -/
theorem LineServed.connect {s : IntrAlloc} {r : Request} {n : Nat} {as : List Allocation} {d : VectorDesc}
    {e : Handler} (keep : Bool) (h : LineServed n as (some d) e) (hnon : d.flags.nonShared = false)
    (hsharing : d.flags.shared = true → r.has espIntrFlagShared = true) :
    LineServed n (connectedAs s r n keep :: as) (some (connected s r d))
      (if r.has espIntrFlagShared then ⟨sharedIntrIsrFn, descAddr (IntrAlloc.lineKey n)⟩
        else if r.handler = 0 then e else ⟨r.handler, r.arg⟩) := by
  cases hr : r.has espIntrFlagShared with
  | true =>
    rw [if_pos rfl]
    have hd : (connected s r d).flags.shared = true := by
      unfold connected
      rw [hr, if_pos rfl]
    have hn : (connected s r d).flags.nonShared = false := by
      unfold connected
      rw [hr, if_pos rfl]
      exact hnon
    refine .shared _ _ hd hn nofun ?_
    -- the new entry stands before those of the other users
    have hentries : as.map Allocation.attached = d.sharedVecInfo.map some := by
      cases h with
      | free _ _ _ hl => rw [hl]; rfl
      | own _ _ _ hn' => rw [hn'] at hnon; cases hnon
      | shared _ _ _ _ _ hl => exact hl
    have hnew : (connected s r d).sharedVecInfo = newEntry s r :: d.sharedVecInfo := by
      unfold connected
      rw [hr, if_pos rfl]
    rw [hnew, List.map_cons, List.map_cons, hentries]
    congr 1
    unfold Allocation.attached connectedAs newEntry
    rw [hr]
    rfl
  | false =>
    rw [if_neg Bool.false_ne_true]
    have hshared : d.flags.shared = false := by
      cases hd : d.flags.shared with
      | false => rfl
      | true => rw [hsharing hd] at hr; cases hr
    cases h with
    | own _ _ _ hn' => rw [hn'] at hnon; cases hnon
    | shared _ _ hs' => rw [hs'] at hshared; cases hshared
    | free _ _ _ hl =>
      have hc : connected s r d =
          { d with
            flags := { VecFlags.none with nonShared := true, inIram := r.has espIntrFlagIram }
            source := storeSource r.source } := by
        unfold connected
        rw [hr, if_neg Bool.false_ne_true]
      rw [hc]
      exact .own _ (connectedAs s r n keep) rfl rfl hl (if_neg (ne_true_of_eq_false hr)) rfl

/-- A line that can be had for itself has no user. -/
theorem LineServed.vacant {n : Nat} {as : List Allocation} {d : VectorDesc} {e : Handler}
    (h : LineServed n as (some d) e) (hnon : d.flags.nonShared = false) (hs : d.flags.shared = false) :
    as = [] ∧ d.sharedVecInfo = [] := by
  cases h with
  | free _ _ _ hl => exact ⟨rfl, hl⟩
  | own _ _ _ hn' => rw [hn'] at hnon; cases hnon
  | shared _ _ hs' => rw [hs'] at hs; cases hs

/-- **Connecting**: what is returned is the handle of a new allocation. -/
theorem Serves.connect (h : w.Serves) {r : Request} {n : Nat} {d : VectorDesc} (keep : Bool) (hn : n < 32)
    (hd : w.alloc.findDescForInt n xPortGetCoreID = some d) (hnon : d.flags.nonShared = false)
    (hsharing : d.flags.shared = true → r.has espIntrFlagShared = true)
    (hfn : r.handler ≠ sharedIntrIsrFn) (hsource : -128 ≤ r.source ∧ r.source < 128) :
    Serves { w with
        alloc := w.alloc.connect r (IntrAlloc.lineKey n)
        live := connectedAs w.alloc r n keep :: w.live } ∧
      (w.alloc.connect r (IntrAlloc.lineKey n)).handleFor (IntrAlloc.lineKey n) =
        (connectedAs w.alloc r n keep).handle := by
  have hline := h.lineOf hd
  have hvacant : r.has espIntrFlagShared = false → Allocation.on n w.live = [] ∧ d.sharedVecInfo = [] := by
    intro hr
    apply hline.vacant hnon
    cases hs : d.flags.shared with
    | false => rfl
    | true => rw [hsharing hs] at hr; cases hr
  have hfind : (w.alloc.connect r (IntrAlloc.lineKey n)).findDescForInt n xPortGetCoreID =
      some (connected w.alloc r d) := by
    rw [connect_find, hd]
    rfl
  constructor
  · refine h.change n h.alive (connect_within hn) ?_ ?_ ?_ ?_ ?_
    · intro m hm
      exact List.filter_cons_of_neg fun hnm => hm (of_decide_eq_true hnm).symm
    · have hon : Allocation.on n (connectedAs w.alloc r n keep :: w.live) =
          connectedAs w.alloc r n keep :: Allocation.on n w.live :=
        List.filter_cons_of_pos (by simp [connectedAs])
      dsimp only
      rw [hon, hfind, connect_app hn]
      exact hline.connect keep hnon hsharing
    · refine List.nodup_cons.mpr ⟨fun hmem => ?_, h.handles⟩
      obtain ⟨a, ha, hhandle⟩ := List.mem_map.mp hmem
      have hintno : a.intno = n := congrArg (fun x => (IntrHandleData.vectorDesc x).2) hhandle
      have hentry : a.entry = if r.has espIntrFlagShared then some w.alloc.heap else none :=
        congrArg IntrHandleData.sharedVectorDesc hhandle
      cases hr : r.has espIntrFlagShared with
      | true =>
        -- an address of the heap is handed out once
        rw [hr, if_pos rfl] at hentry
        exact absurd (h.addrs a ha _ hentry) (Nat.lt_irrefl _)
      | false =>
        have hmem := Allocation.mem_on.mpr ⟨ha, hintno⟩
        rw [(hvacant hr).1] at hmem
        cases hmem
    · intro a ha addr hentry
      dsimp only
      rw [connect_heap]
      rcases List.mem_cons.mp ha with rfl | ha
      · unfold connectedAs at hentry
        cases hr : r.has espIntrFlagShared with
        | true =>
          simp only [hr, if_true, Option.some.injEq] at hentry ⊢
          omega
        | false => simp [hr] at hentry
      · have hold := h.addrs a ha addr hentry
        split <;> omega
    · intro a ha
      rcases List.mem_cons.mp ha with rfl | ha
      · refine ⟨hfn, hsource, ?_⟩
        unfold connectedAs
        cases hr : r.has espIntrFlagShared <;> rfl
      · exact h.reqs a ha
  · unfold IntrAlloc.handleFor Allocation.handle connectedAs
    rw [IntrAlloc.descOf_eq rfl hfind]
    congr 1
    unfold connected
    cases hr : r.has espIntrFlagShared with
    | true => rfl
    | false =>
      rw [if_neg Bool.false_ne_true, if_neg Bool.false_ne_true, (hvacant hr).2]
      rfl

/-! ## §9 — an allocation that is enabled or disabled -/

/-- The entries follow the allocations. -/
theorem attached_setEnabled {n addr : Nat} {b : Bool} {as : List Allocation}
    {vs : List SharedVectorDesc} (hon : ∀ a ∈ as, a.intno = n)
    (hvs : as.map Allocation.attached = vs.map some) :
    (Allocation.setEnabled ⟨IntrAlloc.lineKey n, some addr⟩ b as).map Allocation.attached =
      (vs.map fun v => if v.addr = addr then { v with disabled := !b } else v).map some := by
  induction as generalizing vs with
  | nil =>
    obtain rfl : vs = [] := List.map_eq_nil_iff.mp hvs.symm
    rfl
  | cons a as ih =>
    cases vs with
    | nil => cases hvs
    | cons v vs =>
      rw [List.map_cons, List.map_cons] at hvs
      obtain ⟨hhead, htail⟩ := List.cons.inj hvs
      have hrest := ih (fun a' ha' => hon a' (List.mem_cons_of_mem a ha')) htail
      unfold Allocation.setEnabled at hrest ⊢
      rw [List.map_cons, List.map_cons, List.map_cons, List.map_cons, hrest]
      congr 1
      -- an allocation of the line is the one of the handle exactly if its entry is at the address
      unfold Allocation.attached at hhead ⊢
      obtain ⟨entry, hentry, rfl⟩ := Option.map_eq_some_iff.mp hhead
      have hintno := hon a List.mem_cons_self
      by_cases haddr : entry = addr
      · have hhandle : a.handle = ⟨IntrAlloc.lineKey n, some addr⟩ := by
          unfold Allocation.handle
          rw [hentry, hintno, haddr]
        rw [if_pos hhandle, if_pos haddr]
        simp [hentry]
      · have hhandle : a.handle ≠ ⟨IntrAlloc.lineKey n, some addr⟩ := by
          intro heq
          have hsome := congrArg IntrHandleData.sharedVectorDesc heq
          unfold Allocation.handle at hsome
          rw [hentry] at hsome
          exact haddr (Option.some.inj hsome)
        rw [if_neg hhandle, if_neg haddr]
        simp [hentry]

theorem setDisabled_within (s : IntrAlloc) (h : IntrHandleData) (b : Bool) :
    Within h.vectorDesc s (s.setDisabled h b) ∧ (s.setDisabled h b).drivers = s.drivers ∧
      (s.setDisabled h b).heap = s.heap := by
  unfold IntrAlloc.setDisabled
  split
  · refine ⟨Within.update s _ fun _ => ?_, rfl, rfl⟩
    rfl
  · exact ⟨Within.refl _ s, rfl, rfl⟩

theorem setDisabled_find {s : IntrAlloc} {n addr : Nat} (b : Bool) :
    (s.setDisabled ⟨IntrAlloc.lineKey n, some addr⟩ b).findDescForInt n xPortGetCoreID =
      (s.findDescForInt n xPortGetCoreID).map fun d =>
        { d with sharedVecInfo :=
            d.sharedVecInfo.map fun v => if v.addr = addr then { v with disabled := b } else v } := by
  refine FirstMatch.find_update_self ?_ _ s.vectorDescHead
  exact fun _ => rfl

/-- A line after an allocation of it was enabled or disabled. -/
theorem LineServed.switch {s : IntrAlloc} {n : Nat} {as : List Allocation} {d : Option VectorDesc}
    {e : Handler} (h : LineServed n as d e) (hon : ∀ a ∈ as, a.intno = n)
    (hd : s.findDescForInt n xPortGetCoreID = d) {a : Allocation} (ha : a ∈ as) (b : Bool) :
    LineServed n (Allocation.setEnabled a.handle b as)
      ((s.setDisabled a.handle (!b)).findDescForInt n xPortGetCoreID) e := by
  have hintno := hon a ha
  cases h with
  | untouched => cases ha
  | free => cases ha
  | own d a' hs hn hl hentry hsource =>
    obtain rfl := List.mem_singleton.mp ha
    have hsame : (s.setDisabled a.handle (!b)) = s := by
      unfold IntrAlloc.setDisabled Allocation.handle
      simp only [hentry]
    have has : Allocation.setEnabled a.handle b [a] = [{ a with enabled := b }] := by
      unfold Allocation.setEnabled
      rw [List.map_singleton, if_pos rfl]
    rw [hsame, hd, has]
    exact .own d { a with enabled := b } hs hn hl hentry hsource
  | shared d as hs hn hne hl =>
    -- every user of a shared line has an entry
    have hmem : Allocation.attached a ∈ d.sharedVecInfo.map some := hl ▸ List.mem_map_of_mem ha
    obtain ⟨v, _, hv⟩ := List.mem_map.mp hmem
    obtain ⟨addr, hentry, _⟩ := Option.map_eq_some_iff.mp hv.symm
    have hhandle : a.handle = ⟨IntrAlloc.lineKey n, some addr⟩ := by
      unfold Allocation.handle
      rw [hentry, hintno]
    rw [hhandle, setDisabled_find, hd]
    refine .shared _ _ hs hn ?_ ?_
    · unfold Allocation.setEnabled
      simpa using hne
    · exact attached_setEnabled hon hl

/-- **Enabling and disabling**, apart from the interrupt matrix. -/
theorem Serves.switch (h : w.Serves) {a : Allocation} (ha : a ∈ w.live) (b : Bool) :
    Serves { w with
      alloc := w.alloc.setDisabled a.handle (!b)
      live := Allocation.setEnabled a.handle b w.live } := by
  obtain ⟨hwithin, hdrivers, hheap⟩ := setDisabled_within w.alloc a.handle (!b)
  refine h.change a.intno h.alive hwithin ?_ ?_ ?_ ?_ ?_
  · intro m hm
    dsimp only
    rw [Allocation.on_setEnabled]
    exact Allocation.setEnabled_of_notMem (Allocation.ne_of_line rfl hm)
  · dsimp only
    rw [Allocation.on_setEnabled, hdrivers]
    exact (h.line a.intno).switch (fun _ ha' => (Allocation.mem_on.mp ha').2) rfl
      (Allocation.mem_on.mpr ⟨ha, rfl⟩) b
  · rw [Allocation.handle_setEnabled]
    exact h.handles
  · intro a' ha' addr hentry
    obtain ⟨old, hold, _, hsame, _⟩ := Allocation.mem_setEnabled ha'
    dsimp only
    rw [hheap]
    exact h.addrs old hold addr (hsame ▸ hentry)
  · intro a' ha'
    obtain ⟨old, hold, _, hsame, hreq, _⟩ := Allocation.mem_setEnabled ha'
    rw [hsame, hreq]
    exact h.reqs old hold

/-- What is left of `esp_intr_enable` and `esp_intr_disable` goes to the interrupt matrix and the mask. -/
theorem espIntrEnable_same (s : IntrAlloc) (h : IntrHandleData) :
    (s.espIntrEnable (some h)).2.vectorDescHead = (s.setDisabled h false).vectorDescHead ∧
      (s.espIntrEnable (some h)).2.drivers = (s.setDisabled h false).drivers ∧
      (s.espIntrEnable (some h)).2.heap = (s.setDisabled h false).heap := by
  unfold IntrAlloc.espIntrEnable
  dsimp only
  split
  · exact ⟨rfl, rfl, rfl⟩
  · split <;> exact ⟨rfl, rfl, rfl⟩

theorem espIntrDisable_same {s s' : IntrAlloc} {h : IntrHandleData} {e : EspErr}
    (hs : s.espIntrDisable (some h) = some (e, s')) :
    s'.vectorDescHead = (s.setDisabled h true).vectorDescHead ∧
      s'.drivers = (s.setDisabled h true).drivers ∧ s'.heap = (s.setDisabled h true).heap := by
  unfold IntrAlloc.espIntrDisable at hs
  dsimp only at hs
  split at hs
  · cases hs
  · split at hs
    · split at hs
      · obtain ⟨rfl, rfl⟩ := Prod.mk.inj (Option.some.inj hs)
        exact ⟨rfl, rfl, rfl⟩
      · obtain ⟨rfl, rfl⟩ := Prod.mk.inj (Option.some.inj hs)
        exact ⟨rfl, rfl, rfl⟩
    · split at hs
      · obtain ⟨rfl, rfl⟩ := Prod.mk.inj (Option.some.inj hs)
        exact ⟨rfl, rfl, rfl⟩
      · obtain ⟨rfl, rfl⟩ := Prod.mk.inj (Option.some.inj hs)
        exact ⟨rfl, rfl, rfl⟩

/-- The line of an allocation that has an entry has one in its list. -/
theorem LineServed.shared_of_mem {n : Nat} {as : List Allocation} {d : Option VectorDesc} {e : Handler}
    (h : LineServed n as d e) {a : Allocation} (ha : a ∈ as) (hentry : a.entry.isSome = true) :
    ∃ d', d = some d' ∧ d'.flags.shared = true := by
  cases h with
  | untouched => cases ha
  | free => cases ha
  | own d a' _ _ _ hnone =>
    obtain rfl := List.mem_singleton.mp ha
    rw [hnone] at hentry
    cases hentry
  | shared d _ hs => exact ⟨d, rfl, hs⟩

theorem Serves.entries_ne_nil (h : w.Serves) {a : Allocation} (ha : a ∈ w.live)
    (hentry : a.entry.isSome = true) : (w.alloc.descOf a.handle).sharedVecInfo ≠ [] := by
  obtain ⟨d, hd, hs⟩ := (h.line a.intno).shared_of_mem (Allocation.mem_on.mpr ⟨ha, rfl⟩) hentry
  rw [IntrAlloc.descOf_eq (h := a.handle) rfl hd]
  exact (h.lineOf hd).entries hs

/-- **`esp_intr_disable`** on a handle that is alive. -/
theorem Serves.disable (h : w.Serves) {a : Allocation} (ha : a ∈ w.live) :
    ∃ e s', w.alloc.espIntrDisable (some a.handle) = some (e, s') ∧
      Serves { w with alloc := s', live := Allocation.setEnabled a.handle false w.live } := by
  have hswitch := h.switch ha false
  have hsome : w.alloc.espIntrDisable (some a.handle) ≠ none := by
    -- the assertion is about the list after the entry was marked
    have hlist : ¬ (a.handle.sharedVectorDesc.isSome = true ∧
        ((w.alloc.setDisabled a.handle true).descOf a.handle).sharedVecInfo = []) := by
      rintro ⟨hentry, hempty⟩
      have hmem : ({ a with enabled := false } : Allocation) ∈
          Allocation.setEnabled a.handle false w.live := by
        refine List.mem_map.mpr ⟨a, ha, ?_⟩
        rw [if_pos rfl]
      exact hswitch.entries_ne_nil hmem hentry hempty
    unfold IntrAlloc.espIntrDisable
    dsimp only
    rw [if_neg hlist]
    split
    · split <;> exact nofun
    · split <;> exact nofun
  obtain ⟨⟨e, s'⟩, hs⟩ := Option.ne_none_iff_exists'.mp hsome
  obtain ⟨hlist, hdrivers, hheap⟩ := espIntrDisable_same hs
  refine ⟨e, s', hs, hswitch.frame hlist ?_ hheap⟩
  rw [hdrivers]
  rfl

/-- **`esp_intr_enable`**. -/
theorem Serves.enable (h : w.Serves) {a : Allocation} (ha : a ∈ w.live) :
    Serves { w with
      alloc := (w.alloc.espIntrEnable (some a.handle)).2
      live := Allocation.setEnabled a.handle true w.live } := by
  obtain ⟨hlist, hdrivers, hheap⟩ := espIntrEnable_same w.alloc a.handle
  refine (h.switch ha true).frame hlist ?_ hheap
  rw [hdrivers]
  rfl

end Served

end Espmod.Intr
