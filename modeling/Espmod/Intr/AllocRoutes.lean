/-
# Espmod.Intr.AllocRoutes — where the sources of the allocations lead

The interrupt matrix has one line for each source. Allocating and enabling send the source to the line of
the allocation; disabling and freeing send it to line 6, which nobody has, unless another handler of the
line still wants it.

So a source leads to its enabled allocations as long as these are all on one line, and that is what the
allocator means to see to: it looks for the line that the source has. But a line that was given up keeps
the source it had, and when it has been a shared line of another source in between, the source can be
granted anew there while it is held elsewhere.
-/
import Espmod.Intr.AllocRuns

namespace Espmod.Intr

open Espmod.Lib

/-- A source that goes through the matrix. -/
def Muxed (source : Int) : Prop := 0 ≤ source ∧ source < espmIntrTable

instance (source : Int) : Decidable (Muxed source) := inferInstanceAs (Decidable (_ ∧ _))

namespace Served

variable {w : Served}

/-! ## §1 — the specification -/

/-- **Routed**: the source of every enabled allocation leads to its line. -/
def Routed (w : Served) : Prop :=
  ∀ a ∈ w.live, a.enabled = true → Muxed a.req.source → w.alloc.intr.tableApp a.req.source = a.intno

instance (w : Served) : Decidable w.Routed :=
  inferInstanceAs (Decidable (∀ a ∈ w.live, _ → _ → _))

/-- The enabled allocations of a source are all on a line. -/
def Together (w : Served) (source : Int) (n : Nat) : Prop :=
  Muxed source → ∀ a ∈ w.live, a.enabled = true → a.req.source = source → a.intno = n

/-- A call on an allocation of a source finds the other ones on the same line. -/
def TogetherAt (w : Served) (h : Option IntrHandleData) : Prop :=
  ∀ a ∈ w.live, some a.handle = h → w.Together a.req.source a.intno

/-- **The condition**: what is granted, enabled, disabled or freed is on the line of the other enabled
allocations of its source. -/
def OneLine (w : Served) : AllocCall → Prop
  | .alloc fails r _ =>
    ∀ h, (w.alloc.espIntrAllocIntrstatus fails r).bind (fun res => res.2.1) = some h →
      w.Together r.source h.vectorDesc.2
  | .free h => w.TogetherAt h
  | .enable h => w.TogetherAt h
  | .disable h => w.TogetherAt h
  | _ => True

/-! ## §2 — the matrix -/

/-- One entry of the matrix. -/
theorem table_set (s : IntrAlloc) (source t : Int) (n : Nat) :
    (s.intrMatrixSet xPortGetCoreID source n).intr.tableApp t =
      if t = source ∧ Muxed source then (n : Int) else s.intr.tableApp t := by
  unfold IntrAlloc.intrMatrixSet EspIntr.alloc
  dsimp only
  by_cases hmux : Muxed source
  · have hgood : ¬ EspIntr.BadEntry (xPortGetCoreID : Nat) source := by
      unfold EspIntr.BadEntry xPortGetCoreID
      unfold Muxed at hmux
      omega
    have hother : ¬ ((xPortGetCoreID : Nat) : Int) = 0 := by decide
    rw [if_neg hgood]
    unfold EspIntr.setTable
    rw [if_neg hother]
    by_cases ht : t = source
    · rw [if_pos ⟨ht, hmux⟩]
      exact if_pos ht
    · rw [if_neg fun h => ht h.1]
      exact if_neg ht
  · have hbad : EspIntr.BadEntry (xPortGetCoreID : Nat) source := by
      unfold EspIntr.BadEntry
      unfold Muxed at hmux
      omega
    rw [if_pos hbad, if_neg fun h => hmux h.2]

theorem storeSource_of_lt {source : Int} (h : -128 ≤ source ∧ source < 128) :
    storeSource source = source := by
  unfold storeSource
  rw [Int.bmod_def]
  split <;> omega

/-- The descriptor of an allocation's line. -/
theorem Serves.lineOf_live (h : w.Serves) {a : Allocation} (ha : a ∈ w.live) :
    ∃ d, w.alloc.findDescForInt a.intno xPortGetCoreID = some d ∧ w.alloc.descOf a.handle = d := by
  have hline := h.line a.intno
  have hmem := Allocation.mem_on.mpr ⟨ha, rfl⟩
  cases hd : w.alloc.findDescForInt a.intno xPortGetCoreID with
  | none =>
    rw [hd] at hline
    generalize Allocation.on a.intno w.live = as at hline hmem
    generalize w.alloc.drivers.handlerApp a.intno = e at hline
    cases hline
    cases hmem
  | some d => exact ⟨d, rfl, IntrAlloc.descOf_eq rfl hd⟩

/-- Two allocations with one handle are one. -/
theorem Serves.eq_of_handle (h : w.Serves) {a b : Allocation} (ha : a ∈ w.live) (hb : b ∈ w.live)
    (hh : a.handle = b.handle) : a = b :=
  List.inj_on_of_nodup_map h.handles ha hb hh

/-- The entries of a line are those of its allocations. -/
theorem LineServed.mem_entries {n : Nat} {as : List Allocation} {d : VectorDesc} {e : Handler}
    (h : LineServed n as (some d) e) (v : SharedVectorDesc) :
    v ∈ d.sharedVecInfo ↔ ∃ a ∈ as, a.attached = some v := by
  cases h with
  | free _ _ _ hl => simp [hl]
  | own d a _ _ hl hentry => simp [hl, Allocation.attached, hentry]
  | shared d as _ _ _ hl =>
    constructor
    · intro hv
      have hmem : some v ∈ as.map Allocation.attached := hl ▸ List.mem_map_of_mem hv
      obtain ⟨a, ha, hav⟩ := List.mem_map.mp hmem
      exact ⟨a, ha, hav⟩
    · rintro ⟨a, ha, hav⟩
      have hmem : some v ∈ d.sharedVecInfo.map some := by
        rw [← hl, ← hav]
        exact List.mem_map_of_mem ha
      obtain ⟨v', hv', heq⟩ := List.mem_map.mp hmem
      rwa [← Option.some.inj heq]

/-- **The source of a handle** is that of its allocation. -/
theorem Serves.sourceOf (h : w.Serves) {a : Allocation} (ha : a ∈ w.live) :
    w.alloc.sourceOf a.handle = a.req.source := by
  obtain ⟨d, hd, hdesc⟩ := h.lineOf_live ha
  have hline := h.lineOf hd
  have hstore := storeSource_of_lt (h.reqs a ha).2.1
  have hmem := Allocation.mem_on.mpr ⟨ha, rfl⟩
  unfold IntrAlloc.sourceOf
  rw [hdesc]
  rcases hline.entry_of_mem hmem with ⟨_, hnone, _, d', hd', _, hsource⟩ | hentry
  · have hshared : a.handle.sharedVectorDesc = none := hnone
    rw [hshared, Option.some.inj hd']
    exact hsource.trans hstore
  · obtain ⟨addr, haddr⟩ := Option.isSome_iff_exists.mp hentry
    have hshared : a.handle.sharedVectorDesc = some addr := haddr
    rw [hshared]
    dsimp only
    have hattached : ∃ v, a.attached = some v ∧ v.addr = addr := by
      unfold Allocation.attached
      rw [haddr]
      exact ⟨_, rfl, rfl⟩
    obtain ⟨v, hv, hvaddr⟩ := hattached
    have hvmem := (hline.mem_entries v).mpr ⟨a, hmem, hv⟩
    -- what the walk finds at the address is the allocation's own entry
    have hsome : (d.sharedVecInfo.find? fun v => v.addr = addr) ≠ none := by
      intro hno
      exact List.find?_eq_none.mp hno v hvmem (decide_eq_true hvaddr)
    obtain ⟨u, hu⟩ := Option.ne_none_iff_exists'.mp hsome
    have huaddr : u.addr = addr := by simpa using List.find?_some hu
    obtain ⟨b, hb, hbu⟩ := (hline.mem_entries u).mp (List.mem_of_find?_eq_some hu)
    obtain ⟨hblive, hbline⟩ := Allocation.mem_on.mp hb
    obtain ⟨baddr, hbentry, rfl⟩ := Option.map_eq_some_iff.mp hbu
    have hsame : b = a := by
      apply h.eq_of_handle hblive ha
      unfold Allocation.handle
      rw [hbline, hbentry, haddr, ← huaddr]
    rw [hu, hsame]
    exact hstore

/-- Another enabled handler of the line has the source. -/
def Wanted (w : Served) (a : Allocation) : Prop :=
  a.entry.isSome = true ∧
    ∃ b ∈ w.live, b.intno = a.intno ∧ b.enabled = true ∧ b.req.source = a.req.source

theorem Serves.stillWanted (h : w.Serves) {a : Allocation} (ha : a ∈ w.live) :
    w.alloc.stillWanted a.handle = true ↔ w.Wanted a := by
  obtain ⟨d, hd, hdesc⟩ := h.lineOf_live ha
  have hline := h.lineOf hd
  unfold IntrAlloc.stillWanted Wanted
  rw [h.sourceOf ha, hdesc, Bool.and_eq_true, List.any_eq_true]
  have hshared : a.handle.sharedVectorDesc.isSome = a.entry.isSome := rfl
  rw [hshared]
  refine and_congr_right fun hentry => ⟨?_, ?_⟩
  · rintro ⟨v, hv, hgood⟩
    obtain ⟨hsource, henabled⟩ := of_decide_eq_true hgood
    obtain ⟨b, hb, hbv⟩ := (hline.mem_entries v).mp hv
    obtain ⟨hblive, hbline⟩ := Allocation.mem_on.mp hb
    obtain ⟨_, _, rfl⟩ := Option.map_eq_some_iff.mp hbv
    refine ⟨b, hblive, hbline, by simpa using henabled, ?_⟩
    rw [← storeSource_of_lt (h.reqs b hblive).2.1]
    exact hsource
  · rintro ⟨b, hb, hbline, henabled, hsource⟩
    have hon := Allocation.mem_on.mpr ⟨hb, hbline⟩
    have hbentry : b.entry.isSome = true := by
      rcases hline.entry_of_mem hon with ⟨hone, hnone, _⟩ | hbentry
      · -- one user only, and this one has an entry
        have hmem := Allocation.mem_on.mpr ⟨ha, rfl⟩
        rw [hone] at hmem
        rw [List.mem_singleton.mp hmem, hnone] at hentry
        cases hentry
      · exact hbentry
    obtain ⟨addr, haddr⟩ := Option.isSome_iff_exists.mp hbentry
    refine ⟨⟨addr, !b.enabled, storeSource b.req.source, b.req.intrstatusreg, b.req.intrstatusmask,
      b.req.handler, b.req.arg⟩, (hline.mem_entries _).mpr ⟨b, hon, ?_⟩, decide_eq_true ⟨?_, ?_⟩⟩
    · unfold Allocation.attached
      rw [haddr]
      rfl
    · exact (storeSource_of_lt (h.reqs b hb).2.1).trans hsource
    · simp [henabled]

/-! ## §3 — what the calls do to it -/

/-- Marking an entry leaves the matrix. -/
theorem setDisabled_intr (s : IntrAlloc) (h : IntrHandleData) (b : Bool) :
    (s.setDisabled h b).intr = s.intr := by
  unfold IntrAlloc.setDisabled
  split <;> rfl

/-- The allocation after it was switched. -/
theorem mem_switched {a : Allocation} (ha : a ∈ w.live) (b : Bool) :
    ({ a with enabled := b } : Allocation) ∈ Allocation.setEnabled a.handle b w.live := by
  refine List.mem_map.mpr ⟨a, ha, ?_⟩
  rw [if_pos rfl]

/-- **Enabling** sends the source to the line. -/
theorem Serves.enable_table (h : w.Serves) {a : Allocation} (ha : a ∈ w.live) (t : Int) :
    (w.alloc.espIntrEnable (some a.handle)).2.intr.tableApp t =
      if t = a.req.source ∧ Muxed a.req.source then (a.intno : Int) else w.alloc.intr.tableApp t := by
  have hsource : (w.alloc.setDisabled a.handle false).sourceOf a.handle = a.req.source :=
    (h.switch ha true).sourceOf (a := { a with enabled := true }) (mem_switched ha true)
  unfold IntrAlloc.espIntrEnable
  dsimp only
  rw [hsource]
  split
  · show (IntrAlloc.intrMatrixSet _ xPortGetCoreID a.req.source a.intno).intr.tableApp t = _
    rw [table_set, setDisabled_intr]
  · next hneg =>
    have hmux : ¬ Muxed a.req.source := fun hm => hneg hm.1
    have hcpu : ¬ a.handle.vectorDesc.1 ≠ xPortGetCoreID := fun hne => hne rfl
    rw [if_neg hcpu, if_neg fun hm => hmux hm.2]
    exact congrFun (congrArg EspIntr.tableApp (setDisabled_intr _ _ _)) t

/-- **Disabling** sends it to line 6, unless it is still wanted. -/
theorem Serves.disable_table (h : w.Serves) {a : Allocation} (ha : a ∈ w.live) {e : EspErr}
    {s' : IntrAlloc} (hs : w.alloc.espIntrDisable (some a.handle) = some (e, s')) (t : Int) :
    (Wanted { w with live := Allocation.setEnabled a.handle false w.live } a →
        s'.intr.tableApp t = w.alloc.intr.tableApp t) ∧
      (¬ Wanted { w with live := Allocation.setEnabled a.handle false w.live } a →
        s'.intr.tableApp t = if t = a.req.source ∧ Muxed a.req.source then
          (IntrAlloc.intMuxDisabledIntno : Int) else w.alloc.intr.tableApp t) := by
  have hswitch := h.switch ha false
  have hmem := mem_switched ha false
  have hsource : (w.alloc.setDisabled a.handle true).sourceOf a.handle = a.req.source :=
    hswitch.sourceOf (a := { a with enabled := false }) hmem
  have hwanted : (w.alloc.setDisabled a.handle true).stillWanted a.handle = true ↔
      Wanted { w with live := Allocation.setEnabled a.handle false w.live } a :=
    hswitch.stillWanted (a := { a with enabled := false }) hmem
  have hintr : (w.alloc.setDisabled a.handle true).intr.tableApp t = w.alloc.intr.tableApp t :=
    congrFun (congrArg EspIntr.tableApp (setDisabled_intr _ _ _)) t
  unfold IntrAlloc.espIntrDisable at hs
  dsimp only at hs
  rw [hsource] at hs
  split at hs
  · cases hs
  split at hs
  · split at hs
    · next hstill =>
      obtain ⟨_, rfl⟩ := Prod.mk.inj (Option.some.inj hs)
      exact ⟨fun _ => hintr, fun hno => absurd (hwanted.mp hstill) hno⟩
    · next hstill =>
      obtain ⟨_, rfl⟩ := Prod.mk.inj (Option.some.inj hs)
      refine ⟨fun hyes => absurd (hwanted.mpr hyes) hstill, fun _ => ?_⟩
      show (IntrAlloc.intrMatrixSet _ xPortGetCoreID a.req.source 6).intr.tableApp t = _
      rw [table_set, hintr]
      rfl
  · next hneg =>
    have hmux : ¬ Muxed a.req.source := fun hm => hneg hm.1
    have hcpu : ¬ a.handle.vectorDesc.1 ≠ xPortGetCoreID := fun hne => hne rfl
    rw [if_neg hcpu] at hs
    obtain ⟨_, rfl⟩ := Prod.mk.inj (Option.some.inj hs)
    exact ⟨fun _ => hintr, fun _ => by rw [if_neg fun hm => hmux hm.2]; exact hintr⟩

/-- A connection sends the source to the line. -/
theorem connect_table (s : IntrAlloc) (r : Request) (n : Nat) (t : Int) :
    (s.connect r (IntrAlloc.lineKey n)).intr.tableApp t =
      if t = r.source ∧ Muxed r.source then (n : Int) else s.intr.tableApp t := by
  have hplace : (if r.has espIntrFlagShared then s.attach r (IntrAlloc.lineKey n)
      else s.take r (IntrAlloc.lineKey n)).intr = s.intr := by
    split
    · rfl
    · unfold IntrAlloc.take
      split <;> split <;> rfl
  have hrest : ∀ u : IntrAlloc, (if r.source ≥ 0 then u.intrMatrixSet xPortGetCoreID r.source n else
      u).intr.tableApp t = if t = r.source ∧ Muxed r.source then (n : Int) else u.intr.tableApp t := by
    intro u
    by_cases hsource : r.source ≥ 0
    · rw [if_pos hsource, table_set]
    · rw [if_neg hsource, if_neg fun hm => hsource hm.2.1]
  unfold IntrAlloc.connect
  refine (hrest _).trans ?_
  rw [← hplace]
  rfl

/-! ## §4 — one call -/

theorem mem_setEnabled_iff {h : IntrHandleData} {v : Bool} {as : List Allocation} {b : Allocation} :
    b ∈ Allocation.setEnabled h v as ↔
      b ∈ as ∧ b.handle ≠ h ∨ ∃ a ∈ as, a.handle = h ∧ b = { a with enabled := v } := by
  unfold Allocation.setEnabled
  rw [List.mem_map]
  constructor
  · rintro ⟨a, ha, rfl⟩
    by_cases hh : a.handle = h
    · rw [if_pos hh]
      exact Or.inr ⟨a, ha, hh, rfl⟩
    · rw [if_neg hh]
      exact Or.inl ⟨ha, hh⟩
  · rintro (⟨hb, hh⟩ | ⟨a, ha, hh, rfl⟩)
    · exact ⟨b, hb, if_neg hh⟩
    · exact ⟨a, ha, if_pos hh⟩

/-- Of two allocations on one line each has an entry. -/
theorem Serves.entry_of_two (h : w.Serves) {a b : Allocation} (ha : a ∈ w.live) (hb : b ∈ w.live)
    (hintno : b.intno = a.intno) (hne : b.handle ≠ a.handle) : a.entry.isSome = true := by
  rcases (h.line a.intno).entry_of_mem (Allocation.mem_on.mpr ⟨ha, rfl⟩) with ⟨hone, _⟩ | hentry
  · have hmem := Allocation.mem_on.mpr ⟨hb, hintno⟩
    rw [hone] at hmem
    exact absurd (congrArg Allocation.handle (List.mem_singleton.mp hmem)) hne
  · exact hentry

/-- **The invariant**: the lines are served, the sources are routed, and nobody has line 6. -/
structure Tracked (w : Served) : Prop where
  serves : w.Serves
  routed : w.Routed
  apart : ∀ a ∈ w.live, a.intno ≠ IntrAlloc.intMuxDisabledIntno

theorem Tracked.enable (h : w.Tracked) {a : Allocation} (ha : a ∈ w.live) :
    Routed { w with
        alloc := (w.alloc.espIntrEnable (some a.handle)).2
        live := Allocation.setEnabled a.handle true w.live } ↔ w.Together a.req.source a.intno := by
  have htable := fun t => h.serves.enable_table ha t
  constructor
  · intro hrouted hmux b hb henabled hsource
    by_cases hh : b.handle = a.handle
    · rw [h.serves.eq_of_handle hb ha hh]
    · have hline := hrouted b (mem_setEnabled_iff.mpr (Or.inl ⟨hb, hh⟩)) henabled (hsource ▸ hmux)
      dsimp only at hline
      rw [htable, if_pos ⟨hsource, hmux⟩] at hline
      omega
  · intro htogether b hb henabled hmux
    dsimp only
    rw [htable]
    rcases mem_setEnabled_iff.mp hb with ⟨hb, _⟩ | ⟨b', hb', hh, rfl⟩
    · by_cases hsource : b.req.source = a.req.source
      · have hline := htogether (hsource ▸ hmux) b hb henabled hsource
        rw [if_pos ⟨hsource, hsource ▸ hmux⟩, hline]
      · rw [if_neg fun hm => hsource hm.1]
        exact h.routed b hb henabled hmux
    · obtain rfl := h.serves.eq_of_handle hb' ha hh
      rw [if_pos ⟨rfl, hmux⟩]

theorem Tracked.disable (h : w.Tracked) {a : Allocation} (ha : a ∈ w.live) {e : EspErr} {s' : IntrAlloc}
    (hs : w.alloc.espIntrDisable (some a.handle) = some (e, s')) :
    Routed { w with alloc := s', live := Allocation.setEnabled a.handle false w.live } ↔
      w.Together a.req.source a.intno := by
  have htable := fun t => h.serves.disable_table ha hs t
  constructor
  · intro hrouted hmux b hb henabled hsource
    by_cases hh : b.handle = a.handle
    · rw [h.serves.eq_of_handle hb ha hh]
    have hline := hrouted b (mem_setEnabled_iff.mpr (Or.inl ⟨hb, hh⟩)) henabled (hsource ▸ hmux)
    dsimp only at hline
    by_cases hwanted : Wanted { w with live := Allocation.setEnabled a.handle false w.live } a
    · -- another one on the line has the source too, so that both were routed
      obtain ⟨_, c, hc, hcline, hcenabled, hcsource⟩ := hwanted
      rcases mem_setEnabled_iff.mp hc with ⟨hc, _⟩ | ⟨_, _, _, rfl⟩
      · have hcrouted := h.routed c hc hcenabled (hcsource ▸ hmux)
        have hbrouted := h.routed b hb henabled (hsource ▸ hmux)
        rw [hcsource] at hcrouted
        rw [hsource] at hbrouted
        omega
      · cases hcenabled
    · rw [(htable _).2 hwanted, if_pos ⟨hsource, hmux⟩] at hline
      exact absurd (by omega) (h.apart b hb)
  · intro htogether b hb henabled hmux
    dsimp only
    rcases mem_setEnabled_iff.mp hb with ⟨hb', hh⟩ | ⟨_, _, _, rfl⟩
    · by_cases hwanted : Wanted { w with live := Allocation.setEnabled a.handle false w.live } a
      · rw [(htable _).1 hwanted]
        exact h.routed b hb' henabled hmux
      · rw [(htable _).2 hwanted]
        by_cases hsource : b.req.source = a.req.source
        · -- it is on the same line, and wants the source
          have hline := htogether (hsource ▸ hmux) b hb' henabled hsource
          exact absurd ⟨h.serves.entry_of_two ha hb' hline hh, b, hb, hline, henabled, hsource⟩ hwanted
        · rw [if_neg fun hm => hsource hm.1]
          exact h.routed b hb' henabled hmux
    · cases henabled

/-- Freeing takes the allocation away after disabling it. -/
theorem freeRest_intr {s s' : IntrAlloc} {h : IntrHandleData} {e : EspErr}
    (hs : Served.freeRest s h = some (e, s')) : s'.intr = s.intr := by
  unfold Served.freeRest at hs
  split at hs
  · split at hs
    · cases hs
    · split at hs
      · rw [← (Prod.mk.inj (Option.some.inj hs)).2]
        rfl
      · rw [← (Prod.mk.inj (Option.some.inj hs)).2]
        rfl
  · split at hs
    · rw [← (Prod.mk.inj (Option.some.inj hs)).2]
      rfl
    · rw [← (Prod.mk.inj (Option.some.inj hs)).2]

theorem Tracked.free (h : w.Tracked) {a : Allocation} (ha : a ∈ w.live) {e : EspErr} {s' : IntrAlloc}
    (hs : w.alloc.espIntrFree (some a.handle) = some (e, s')) :
    Routed { w with alloc := s', live := Allocation.drop a.handle w.live } ↔
      w.Together a.req.source a.intno := by
  obtain ⟨e', s, hdisable, _⟩ := h.serves.disable ha
  rw [espIntrFree_eq rfl hdisable] at hs
  rw [← h.disable ha hdisable]
  have hintr := freeRest_intr hs
  constructor
  · intro hrouted b hb henabled hmux
    rcases mem_setEnabled_iff.mp hb with ⟨hb, hh⟩ | ⟨_, _, _, rfl⟩
    · have hmem : b ∈ Allocation.drop a.handle w.live := List.mem_filter.mpr ⟨hb, decide_eq_true hh⟩
      have hline := hrouted b hmem henabled hmux
      dsimp only at hline ⊢
      rwa [hintr] at hline
    · cases henabled
  · intro hrouted b hb henabled hmux
    obtain ⟨hmem, hh⟩ := List.mem_filter.mp hb
    have hline := hrouted b (mem_setEnabled_iff.mpr (Or.inl ⟨hmem, of_decide_eq_true hh⟩)) henabled hmux
    dsimp only at hline ⊢
    rwa [hintr]

/-- The connection alone. -/
theorem Tracked.connect (h : w.Tracked) {r : Request} {keep : Bool} {n : Nat} {s s' : IntrAlloc}
    (hconnects : Connects w r keep n s s') :
    Routed { w with
        alloc := s.connect r (IntrAlloc.lineKey n), live := connectedAs s r n keep :: w.live } ↔
      w.Together r.source n := by
  have htable : ∀ t, (s.connect r (IntrAlloc.lineKey n)).intr.tableApp t =
      if t = r.source ∧ Muxed r.source then (n : Int) else w.alloc.intr.tableApp t := by
    intro t
    rw [connect_table, hconnects.intr]
  constructor
  · intro hrouted hmux b hb henabled hsource
    have hline := hrouted b (List.mem_cons_of_mem _ hb) henabled (hsource ▸ hmux)
    dsimp only at hline
    rw [htable, if_pos ⟨hsource, hmux⟩] at hline
    omega
  · intro htogether b hb henabled hmux
    dsimp only
    rw [htable]
    rcases List.mem_cons.mp hb with rfl | hb
    · exact if_pos ⟨rfl, hmux⟩
    · by_cases hsource : b.req.source = r.source
      · rw [if_pos ⟨hsource, hsource ▸ hmux⟩, htogether (hsource ▸ hmux) b hb henabled hsource]
      · rw [if_neg fun hm => hsource hm.1]
        exact h.routed b hb henabled hmux

/-- An allocation that is granted. -/
theorem Tracked.grant (h : w.Tracked) {r : Request} {keep : Bool} {n : Nat} {s s' : IntrAlloc}
    (hconnects : Connects w r keep n s s') :
    Routed { w with
        alloc := s'
        live := { connectedAs s r n keep with enabled := !r.has espIntrFlagIntrdisabled } :: w.live } ↔
      w.Together r.source n := by
  have hconnected := h.connect hconnects
  rcases hconnects.result with ⟨hdis, rfl⟩ | ⟨hdis, e, hdisable⟩
  · rw [hdis]
    exact hconnected
  · rw [hdis]
    have hlist := setEnabled_head false hconnects.serves.handles
    have hmem : connectedAs s r n keep ∈ connectedAs s r n keep :: w.live := List.mem_cons_self
    constructor
    · intro hrouted hmux b hb henabled hsource
      have hline := hrouted b (List.mem_cons_of_mem _ hb) henabled (hsource ▸ hmux)
      have htable := hconnects.serves.disable_table hmem hdisable b.req.source
      dsimp only at hline htable
      rw [connect_table] at htable
      by_contra hne
      -- the source leads to the new line or to line 6
      by_cases hwanted : Wanted { w with
          alloc := s.connect r (IntrAlloc.lineKey n)
          live := Allocation.setEnabled (connectedAs s r n keep).handle false
            (connectedAs s r n keep :: w.live) } (connectedAs s r n keep)
      · rw [htable.1 hwanted, if_pos ⟨hsource, hmux⟩] at hline
        omega
      · rw [htable.2 hwanted, if_pos ⟨hsource, hmux⟩] at hline
        exact absurd (by omega) (h.apart b hb)
    · intro htogether
      have hrouted := hconnected.mpr htogether
      have htracked : Tracked { w with
          alloc := s.connect r (IntrAlloc.lineKey n), live := connectedAs s r n keep :: w.live } := by
        refine ⟨hconnects.serves, hrouted, fun b hb => ?_⟩
        rcases List.mem_cons.mp hb with rfl | hb
        · exact hconnects.line
        · exact h.apart b hb
      have hall := (htracked.disable hmem hdisable).mpr ?_
      · rw [hlist] at hall
        exact hall
      · intro hmux b hb henabled hsource
        rcases List.mem_cons.mp hb with rfl | hb
        · rfl
        · exact htogether hmux b hb henabled hsource

/-! ## §5 — runs -/

/-- A handle that stands for one allocation. -/
theorem Serves.togetherAt (h : w.Serves) {a : Allocation} (ha : a ∈ w.live) :
    w.TogetherAt (some a.handle) ↔ w.Together a.req.source a.intno := by
  constructor
  · intro htogether
    exact htogether a ha rfl
  · intro htogether b hb hh
    rw [h.eq_of_handle hb ha (Option.some.inj hh)]
    exact htogether

theorem togetherAt_none (w : Served) : w.TogetherAt none := fun _ _ hh => nomatch hh

/-- Flags of descriptors and the masks of the CPU are not the matrix. -/
theorem Routed.frame (h : w.Routed) {s : IntrAlloc} (hintr : s.intr.tableApp = w.alloc.intr.tableApp) :
    Routed { w with alloc := s } := by
  intro a ha henabled hmux
  dsimp only
  rw [hintr]
  exact h a ha henabled hmux

theorem setFlags_intr (s : IntrAlloc) (fails : Malloc → Bool) (n cpu : Nat) (flags : VecFlags) :
    (s.setFlags fails n cpu flags).2.intr = s.intr := by
  unfold IntrAlloc.setFlags
  split
  · rfl
  · split
    · rfl
    · cases hget : s.getDescForInt fails n cpu with
      | none => rfl
      | some t =>
        show t.intr = s.intr
        exact intr_getDesc hget

/-- **One call**: the sources are routed after it exactly if it was on the line of the others. -/
theorem Tracked.step_iff (h : w.Tracked) {c : AllocCall} (hc : w.Proper c) :
    Routed (w.step c) ↔ w.OneLine c := by
  have hnext : w.step c = w.next c := if_neg (ne_true_of_eq_false h.serves.alive)
  rw [hnext]
  cases c with
  | alloc fails r keep =>
    show Routed (w.after (w.alloc.espIntrAllocIntrstatus fails r) _) ↔
      ∀ h, (w.alloc.espIntrAllocIntrstatus fails r).bind (fun res => res.2.1) = some h →
        w.Together r.source h.vectorDesc.2
    rcases h.serves.alloc_cases hc with ⟨e, s', hs, _, hintr⟩ | ⟨n, s, s', hs, hconnects⟩
    · rw [hs]
      refine ⟨fun _ hd hsome => ?_, fun _ => h.routed.frame (congrArg EspIntr.tableApp hintr)⟩
      cases hsome
    · have hsome : ((w.alloc.espIntrAllocIntrstatus fails r).bind fun res => res.2.1) =
          some (connectedAs s r.withLevels n keep).handle := by
        rw [hs]
        rfl
      rw [hsome, hs]
      show Routed { w with alloc := s', live := granted r keep _ :: w.live } ↔ _
      rw [granted_eq, h.grant hconnects, (withLevels_fields r).2]
      constructor
      · intro htogether hd hhd
        rw [← Option.some.inj hhd]
        exact htogether
      · exact fun hall => hall _ rfl
  | free ho =>
    cases ho with
    | none => exact ⟨fun _ => togetherAt_none w, fun _ => h.routed⟩
    | some hd =>
      obtain ⟨a, ha, _, rfl⟩ := hc
      obtain ⟨s', hs, _⟩ := h.serves.free ha
      show Routed (w.after (w.alloc.espIntrFree (some a.handle)) _) ↔ w.TogetherAt (some a.handle)
      rw [hs, h.serves.togetherAt ha]
      exact h.free ha hs
  | enable ho =>
    cases ho with
    | none => exact ⟨fun _ => togetherAt_none w, fun _ => h.routed⟩
    | some hd =>
      obtain ⟨a, ha, _, rfl⟩ := hc
      show Routed _ ↔ w.TogetherAt (some a.handle)
      rw [h.serves.togetherAt ha]
      exact h.enable ha
  | disable ho =>
    cases ho with
    | none => exact ⟨fun _ => togetherAt_none w, fun _ => h.routed⟩
    | some hd =>
      obtain ⟨a, ha, _, rfl⟩ := hc
      obtain ⟨e, s', hs, _⟩ := h.serves.disable ha
      show Routed (w.after (w.alloc.espIntrDisable (some a.handle)) _) ↔ w.TogetherAt (some a.handle)
      rw [hs, h.serves.togetherAt ha]
      exact h.disable ha hs
  | markShared fails n cpu iram =>
    refine ⟨fun _ => trivial, fun _ => h.routed.frame ?_⟩
    exact congrArg EspIntr.tableApp (setFlags_intr w.alloc fails n cpu _)
  | reserve fails n cpu =>
    refine ⟨fun _ => trivial, fun _ => h.routed.frame ?_⟩
    exact congrArg EspIntr.tableApp (setFlags_intr w.alloc fails n cpu _)
  | noniramDisable =>
    refine ⟨fun _ => trivial, fun _ => ?_⟩
    show Routed (w.after w.alloc.espIntrNoniramDisable _)
    unfold IntrAlloc.espIntrNoniramDisable
    dsimp only
    split
    · exact h.routed
    · exact h.routed.frame rfl
  | noniramEnable =>
    refine ⟨fun _ => trivial, fun _ => ?_⟩
    show Routed (w.after w.alloc.espIntrNoniramEnable _)
    unfold IntrAlloc.espIntrNoniramEnable
    dsimp only
    split
    · exact h.routed
    · exact h.routed.frame rfl

/-- Nobody gets line 6. -/
theorem Tracked.apart_step (h : w.Tracked) {c : AllocCall} (hc : w.Proper c) :
    ∀ a ∈ (w.step c).live, a.intno ≠ IntrAlloc.intMuxDisabledIntno := by
  have hnext : w.step c = w.next c := if_neg (ne_true_of_eq_false h.serves.alive)
  have hset : ∀ hd v, ∀ a ∈ Allocation.setEnabled hd v w.live,
      a.intno ≠ IntrAlloc.intMuxDisabledIntno := by
    intro hd v a ha
    obtain ⟨old, hold, hintno, _⟩ := Allocation.mem_setEnabled ha
    rw [hintno]
    exact h.apart old hold
  rw [hnext]
  cases c with
  | alloc fails r keep =>
    show ∀ a ∈ (w.after (w.alloc.espIntrAllocIntrstatus fails r) _).live, _
    rcases h.serves.alloc_cases hc with ⟨e, s', hs, _, _⟩ | ⟨n, s, s', hs, hconnects⟩
    · rw [hs]
      exact h.apart
    · rw [hs]
      intro a ha
      rcases List.mem_cons.mp ha with rfl | ha
      · exact hconnects.line
      · exact h.apart a ha
  | free ho =>
    cases ho with
    | none => exact h.apart
    | some hd =>
      obtain ⟨a, ha, _, rfl⟩ := hc
      obtain ⟨s', hs, _⟩ := h.serves.free ha
      show ∀ b ∈ (w.after (w.alloc.espIntrFree (some a.handle)) _).live, _
      rw [hs]
      exact fun b hb => h.apart b (List.mem_of_mem_filter hb)
  | enable ho =>
    cases ho with
    | none => exact h.apart
    | some hd => exact hset hd true
  | disable ho =>
    cases ho with
    | none => exact h.apart
    | some hd =>
      obtain ⟨a, ha, _, rfl⟩ := hc
      obtain ⟨e, s', hs, _⟩ := h.serves.disable ha
      show ∀ b ∈ (w.after (w.alloc.espIntrDisable (some a.handle)) _).live, _
      rw [hs]
      exact hset a.handle false
  | markShared => exact h.apart
  | reserve => exact h.apart
  | noniramDisable =>
    show ∀ a ∈ (w.after w.alloc.espIntrNoniramDisable _).live, _
    unfold IntrAlloc.espIntrNoniramDisable
    dsimp only
    split <;> exact h.apart
  | noniramEnable =>
    show ∀ a ∈ (w.after w.alloc.espIntrNoniramEnable _).live, _
    unfold IntrAlloc.espIntrNoniramEnable
    dsimp only
    split <;> exact h.apart

/-- **The sources lead to their allocations exactly as long as every call on a source is on the line of
its other enabled allocations**, in every proper run. -/
theorem sources_routed (mask : BitVec 32) (cs : List AllocCall)
    (h : Throughout Proper Served.step (new mask) cs) :
    Always (fun _ w => w.Routed) Served.step [] (new mask) cs ↔
      Throughout OneLine Served.step (new mask) cs := by
  refine always_iff_throughout (I := fun _ (w : Served) => w.Tracked) ?_ ?_ ?_ cs [] _ ?_ h
  · intro _ w hw
    exact hw.routed
  · intro _ w c hw hc hok
    exact ⟨hw.serves.step hc, (hw.step_iff hc).mpr hok, hw.apart_step hc⟩
  · intro _ w c hw hc hno hrouted
    exact hno ((hw.step_iff hc).mp hrouted)
  · refine ⟨serves_new mask, ?_, ?_⟩
    · exact fun _ ha => nomatch ha
    · exact fun _ ha => nomatch ha

/-- A source for one handler, freed; its line shared by another source; the first source again, and again
when the shared line is free. -/
def grantedTwice : List AllocCall :=
  [.alloc (fun _ => false) ⟨43, 0x2, 0, 0, 20, 1⟩ true,
    .free (some ⟨(1, 2), none⟩),
    .alloc (fun _ => false) ⟨48, 0x102, 0, 0, 21, 2⟩ true,
    .alloc (fun _ => false) ⟨43, 0x2, 0, 0, 22, 3⟩ true,
    .free (some ⟨(1, 2), some 0⟩),
    .alloc (fun _ => false) ⟨43, 0x2, 0, 0, 23, 4⟩ true]

/-- The source is then granted on two lines, for one handler each, and leads to the second. -/
theorem grantedTwice_not_routed :
    ¬ Throughout OneLine Served.step (new 0) grantedTwice ∧
      (grantedTwice.foldl Served.step (new 0)).live.map (fun a => (a.req.source, a.intno)) =
        [(43, 2), (43, 3)] ∧
      (grantedTwice.foldl Served.step (new 0)).alloc.intr.tableApp 43 = 2 := by
  refine ⟨fun h => ?_, by decide +kernel, by decide +kernel⟩
  have hrouted := ((sources_routed 0 grantedTwice (by decide +kernel)).mpr h).last
  exact absurd hrouted (by decide +kernel)

end Served

end Espmod.Intr
