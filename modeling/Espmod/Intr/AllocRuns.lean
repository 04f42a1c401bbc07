/-
# Espmod.Intr.AllocRuns — who holds which interrupt line

Every call of the allocator keeps the lines and their users together as long as handles are given back
that were handed out and not freed, only shared lines are marked as shared, and no line in use is
reserved. In such a run no assertion fails, a line has two users only if both asked for a shared one, and
an interrupt calls what is alive and enabled.
-/
import Espmod.Intr.AllocLines
import Espmod.Lib.Run

namespace Espmod.Intr

open Espmod.Lib

namespace Served

variable {w : Served}

/-! ## §1 — allocating -/

/-- What the caller gets is the allocation that was connected. -/
theorem granted_eq (s : IntrAlloc) (r : Request) (n : Nat) (keep : Bool) :
    granted r keep (connectedAs s r.withLevels n keep).handle =
      { connectedAs s r.withLevels n keep with
        enabled := !r.withLevels.has espIntrFlagIntrdisabled } := rfl

/-- Disabling the newest allocation touches no other. -/
theorem setEnabled_head {a : Allocation} {as : List Allocation} (b : Bool)
    (hnodup : ((a :: as).map Allocation.handle).Nodup) :
    Allocation.setEnabled a.handle b (a :: as) = { a with enabled := b } :: as := by
  rw [List.map_cons, List.nodup_cons] at hnodup
  have hrest : Allocation.setEnabled a.handle b as = as := by
    apply Allocation.setEnabled_of_notMem
    intro a' ha' heq
    exact hnodup.1 (heq ▸ List.mem_map_of_mem ha')
  have hcons : Allocation.setEnabled a.handle b (a :: as) =
      (if a.handle = a.handle then { a with enabled := b } else a) ::
        Allocation.setEnabled a.handle b as := rfl
  rw [hcons, hrest, if_pos rfl]

theorem intr_getDesc {s s' : IntrAlloc} {fails : Malloc → Bool} {n cpu : Nat}
    (h : s.getDescForInt fails n cpu = some s') : s'.intr = s.intr := by
  unfold IntrAlloc.getDescForInt at h
  split at h
  · rw [Option.some.inj h]
  · split at h
    · cases h
    · rw [← Option.some.inj h]
      rfl

/-- Giving a request its levels leaves its handler and its source. -/
theorem withLevels_fields (r : Request) :
    r.withLevels.handler = r.handler ∧ r.withLevels.source = r.source := by
  unfold Request.withLevels
  split
  · split <;> exact ⟨rfl, rfl⟩
  · exact ⟨rfl, rfl⟩

/-- An allocation that was connected, with what is left to do. -/
structure Connects (w : Served) (r : Request) (keep : Bool) (n : Nat) (s s' : IntrAlloc) : Prop where
  line : n ≠ IntrAlloc.intMuxDisabledIntno
  intr : s.intr = w.alloc.intr
  serves : Serves { w with
    alloc := s.connect r (IntrAlloc.lineKey n), live := connectedAs s r n keep :: w.live }
  result : r.has espIntrFlagIntrdisabled = false ∧ s' = s.connect r (IntrAlloc.lineKey n) ∨
    r.has espIntrFlagIntrdisabled = true ∧ ∃ e,
      (s.connect r (IntrAlloc.lineKey n)).espIntrDisable (some (connectedAs s r n keep).handle) =
        some (e, s')

/-- **`esp_intr_alloc`**: no assertion fails; either nothing is granted, or an allocation is connected and,
if it is asked for, disabled. -/
theorem Serves.alloc_cases (h : w.Serves) {fails : Malloc → Bool} {r : Request} {keep : Bool}
    (hproper : w.Proper (.alloc fails r keep)) :
    (∃ e s', w.alloc.espIntrAllocIntrstatus fails r = some (e, none, s') ∧
        Serves { w with alloc := s' } ∧ s'.intr = w.alloc.intr) ∨
      ∃ n s s', w.alloc.espIntrAllocIntrstatus fails r =
          some (.ok, some (connectedAs s r.withLevels n keep).handle, s') ∧
        Connects w r.withLevels keep n s s' := by
  obtain ⟨hfn, hsource, hlen⟩ := hproper
  unfold IntrAlloc.espIntrAllocIntrstatus
  split
  · exact Or.inl ⟨_, _, rfl, h, rfl⟩
  split
  · exact Or.inl ⟨_, _, rfl, h, rfl⟩
  dsimp only
  obtain ⟨res, hres, _, hmeets⟩ := h.chosen hlen r (Request.forced r.withLevels.source)
  rw [hres]
  cases res with
  | none => exact Or.inl ⟨_, _, rfl, h, rfl⟩
  | some n =>
    obtain ⟨hn, hmeets⟩ := hmeets n rfl
    dsimp only
    cases hget : w.alloc.getDescForInt fails n xPortGetCoreID with
    | none => exact Or.inl ⟨_, _, rfl, h, rfl⟩
    | some s =>
      dsimp only
      have hs := h.getDesc hn hget
      split
      · exact Or.inl ⟨_, _, rfl, hs, intr_getDesc hget⟩
      · obtain ⟨hhandler, hsrc⟩ := withLevels_fields r
        obtain ⟨hconnect, hhandle⟩ := hs.connect keep hn (getDescForInt_some hn hget).1
          hmeets.available.2 (fun hshared => (hmeets.sharing hshared).1) (hhandler ▸ hfn) (hsrc ▸ hsource)
        have hline : n ≠ IntrAlloc.intMuxDisabledIntno := by
          rintro rfl
          have hunreserved := hmeets.unreserved
          rw [IntrAlloc.descOrEmpty_intno] at hunreserved
          exact hunreserved rfl
        refine Or.inr ⟨n, s, ?_⟩
        rw [hhandle]
        split
        · next hdis =>
          obtain ⟨e, s', hdisable, _⟩ := hconnect.disable List.mem_cons_self
          rw [hdisable]
          exact ⟨s', rfl, hline, intr_getDesc hget, hconnect, Or.inr ⟨hdis, e, hdisable⟩⟩
        · next hdis =>
          exact ⟨_, rfl, hline, intr_getDesc hget, hconnect, Or.inl ⟨Bool.eq_false_iff.mpr hdis, rfl⟩⟩

/-- What is granted is served. -/
theorem Serves.allocate (h : w.Serves) {fails : Malloc → Bool} {r : Request} {keep : Bool}
    (hproper : w.Proper (.alloc fails r keep)) :
    ∃ e ho s', w.alloc.espIntrAllocIntrstatus fails r = some (e, ho, s') ∧
      Serves { w with alloc := s', live := (ho.map (granted r keep)).toList ++ w.live } := by
  rcases h.alloc_cases hproper with ⟨e, s', hs, hserves, _⟩ | ⟨n, s, s', hs, _, _, hconnect, hresult⟩
  · exact ⟨e, none, s', hs, hserves⟩
  · refine ⟨_, some _, s', hs, ?_⟩
    rw [Option.map_some, granted_eq]
    rcases hresult with ⟨hdis, rfl⟩ | ⟨hdis, e, hdisable⟩
    · rw [hdis]
      exact hconnect
    · obtain ⟨e', s'', hagain, hserves⟩ := hconnect.disable List.mem_cons_self
      obtain rfl : s'' = s' := congrArg Prod.snd (Option.some.inj (hagain.symm.trans hdisable))
      rw [setEnabled_head false hconnect.handles] at hserves
      rw [hdis]
      exact hserves

/-! ## §2 — freeing -/

/-- The first entry at an address taken out, and the allocation of its handle. -/
theorem attached_drop {n addr : Nat} {as : List Allocation} {vs : List SharedVectorDesc}
    (hon : ∀ a ∈ as, a.intno = n) (hnodup : (as.map Allocation.handle).Nodup)
    (hvs : as.map Allocation.attached = vs.map some) :
    (Allocation.drop ⟨IntrAlloc.lineKey n, some addr⟩ as).map Allocation.attached =
      (vs.eraseP fun v => some v.addr = some addr).map some := by
  induction as generalizing vs with
  | nil =>
    obtain rfl : vs = [] := List.map_eq_nil_iff.mp hvs.symm
    rfl
  | cons a as ih =>
    cases vs with
    | nil => cases hvs
    | cons v vs =>
      rw [List.map_cons, List.map_cons] at hvs
      obtain ⟨hhead, htail⟩ := List.cons.inj hvs
      rw [List.map_cons, List.nodup_cons] at hnodup
      obtain ⟨entry, hentry, hv⟩ := Option.map_eq_some_iff.mp hhead
      have haddrOf : v.addr = entry := by rw [← hv]
      have hintno := hon a List.mem_cons_self
      have hhandle : a.handle = ⟨IntrAlloc.lineKey n, some entry⟩ := by
        unfold Allocation.handle
        rw [hentry, hintno]
      by_cases haddr : entry = addr
      · -- the rest is on the line under other handles
        rw [haddr] at hhandle
        have hrest : Allocation.drop ⟨IntrAlloc.lineKey n, some addr⟩ as = as := by
          apply Allocation.drop_of_notMem
          rintro a' ha' heq
          exact hnodup.1 (hhandle.trans heq.symm ▸ List.mem_map_of_mem ha')
        have hdrop : Allocation.drop ⟨IntrAlloc.lineKey n, some addr⟩ (a :: as) =
            Allocation.drop ⟨IntrAlloc.lineKey n, some addr⟩ as :=
          List.filter_cons_of_neg (by simp [hhandle])
        rw [hdrop, hrest, List.eraseP_cons_of_pos (by simp [haddrOf, haddr])]
        exact htail
      · have hne : a.handle ≠ ⟨IntrAlloc.lineKey n, some addr⟩ := by
          rw [hhandle]
          intro heq
          exact haddr (Option.some.inj (congrArg IntrHandleData.sharedVectorDesc heq))
        have hdrop : Allocation.drop ⟨IntrAlloc.lineKey n, some addr⟩ (a :: as) =
            a :: Allocation.drop ⟨IntrAlloc.lineKey n, some addr⟩ as :=
          List.filter_cons_of_pos (by simpa using hne)
        rw [hdrop, List.eraseP_cons_of_neg (by simp [haddrOf, haddr]), List.map_cons, List.map_cons, hhead,
          ih (fun a' ha' => hon a' (List.mem_cons_of_mem a ha')) hnodup.2 htail]

section Free

variable {s : IntrAlloc} {n : Nat}

theorem release_within (hn : n < 32) :
    Within (IntrAlloc.lineKey n) s (s.release (IntrAlloc.lineKey n)) ∧
      (s.release (IntrAlloc.lineKey n)).drivers.handlerApp n = .null ∧
      (s.release (IntrAlloc.lineKey n)).heap = s.heap := by
  have happ : (s.deassignfn xPortGetCoreID n).drivers.handlerApp =
      Function.update s.drivers.handlerApp n .null := IntrAlloc.handlerApp_setEntry hn _ _
  have hentry : Within (IntrAlloc.lineKey n) s (s.deassignfn xPortGetCoreID n) := Within.entry rfl happ
  have hflags : Within (IntrAlloc.lineKey n) (s.deassignfn xPortGetCoreID n)
      ((s.deassignfn xPortGetCoreID n).update (IntrAlloc.lineKey n) fun d => { d with flags := .none }) :=
    Within.update _ _ fun _ => rfl
  have hmask : Within (IntrAlloc.lineKey n)
      ((s.deassignfn xPortGetCoreID n).update (IntrAlloc.lineKey n) fun d => { d with flags := .none })
      (s.release (IntrAlloc.lineKey n)) := Within.same rfl rfl
  refine ⟨(hentry.trans hflags).trans hmask, ?_, rfl⟩
  · show (s.deassignfn xPortGetCoreID n).drivers.handlerApp n = .null
    rw [happ, Function.update_self]

theorem release_find : (s.release (IntrAlloc.lineKey n)).findDescForInt n xPortGetCoreID =
    (s.findDescForInt n xPortGetCoreID).map fun d => { d with flags := .none } := by
  refine FirstMatch.find_update_self ?_ _ s.vectorDescHead
  exact fun _ => rfl

theorem detach_within (k : Nat × Nat) (addr : Option Nat) : Within k s (s.detach k addr) := by
  refine Within.update s k fun _ => ?_
  rfl

theorem detach_find (addr : Option Nat) :
    (s.detach (IntrAlloc.lineKey n) addr).findDescForInt n xPortGetCoreID =
      (s.findDescForInt n xPortGetCoreID).map fun d =>
        { d with sharedVecInfo := d.sharedVecInfo.eraseP fun v => some v.addr = addr } := by
  refine FirstMatch.find_update_self ?_ _ s.vectorDescHead
  exact fun _ => rfl

end Free

/-- What giving up an allocation owes: its line as it is without it. -/
theorem Serves.dropped (h : w.Serves) {a : Allocation} {s : IntrAlloc}
    (hwithin : Within (IntrAlloc.lineKey a.intno) w.alloc s) (hheap : s.heap = w.alloc.heap)
    (hline : LineServed a.intno (Allocation.drop a.handle (Allocation.on a.intno w.live))
      (s.findDescForInt a.intno xPortGetCoreID) (s.drivers.handlerApp a.intno)) :
    Serves { w with alloc := s, live := Allocation.drop a.handle w.live } := by
  refine h.change a.intno h.alive hwithin ?_ ?_ ?_ ?_ ?_
  · intro m hm
    dsimp only
    rw [Allocation.on_drop]
    exact Allocation.drop_of_notMem (Allocation.ne_of_line rfl hm)
  · dsimp only
    rw [Allocation.on_drop]
    exact hline
  · exact h.handles.sublist (List.filter_sublist.map _)
  · intro b hb
    dsimp only
    rw [hheap]
    exact h.addrs b (List.mem_of_mem_filter hb)
  · exact fun b hb => h.reqs b (List.mem_of_mem_filter hb)

/-- The second half of `esp_intr_free`, after the handle was disabled. -/
def freeRest (s : IntrAlloc) (h : IntrHandleData) : Option (EspErr × IntrAlloc) :=
  if (s.descOf h).flags.shared then
    if (s.descOf h).sharedVecInfo = [] then none
    else
      if ((s.detach h.vectorDesc h.sharedVectorDesc).descOf h).flags.nonShared = true ∨
          ((s.detach h.vectorDesc h.sharedVectorDesc).descOf h).sharedVecInfo = [] then
        some (.ok, (s.detach h.vectorDesc h.sharedVectorDesc).release h.vectorDesc)
      else some (.ok, s.detach h.vectorDesc h.sharedVectorDesc)
  else if (s.descOf h).flags.nonShared then some (.ok, s.release h.vectorDesc)
  else some (.ok, s)

theorem espIntrFree_eq {s s' : IntrAlloc} {h : IntrHandleData} {e : EspErr}
    (hcpu : h.vectorDesc.1 = xPortGetCoreID) (hs : s.espIntrDisable (some h) = some (e, s')) :
    s.espIntrFree (some h) = freeRest s' h := by
  unfold IntrAlloc.espIntrFree
  dsimp only
  rw [if_neg (not_not.mpr hcpu), hs]
  rfl

/-- **The line of an allocation that is freed.** The drivers keep its handler for the other allocations. -/
theorem Serves.freeRest (h : w.Serves) {a : Allocation} (ha : a ∈ w.live) :
    ∃ s', Served.freeRest w.alloc a.handle = some (.ok, s') ∧
      Serves { w with alloc := s', live := Allocation.drop a.handle w.live } ∧
      ((∃ b ∈ w.live, b.intno = a.intno ∧ b.handle ≠ a.handle) → s'.drivers = w.alloc.drivers) := by
  have hmem : a ∈ Allocation.on a.intno w.live := Allocation.mem_on.mpr ⟨ha, rfl⟩
  have hnodup : ((Allocation.on a.intno w.live).map Allocation.handle).Nodup :=
    h.handles.sublist (List.filter_sublist.map _)
  have hon : ∀ b ∈ Allocation.on a.intno w.live, b.intno = a.intno := fun b hb =>
    (Allocation.mem_on.mp hb).2
  have hother : (∃ b ∈ w.live, b.intno = a.intno ∧ b.handle ≠ a.handle) →
      ∃ b ∈ Allocation.on a.intno w.live, b.handle ≠ a.handle := by
    rintro ⟨b, hb, hintno, hne⟩
    exact ⟨b, Allocation.mem_on.mpr ⟨hb, hintno⟩, hne⟩
  have hdropped := fun s => h.dropped (a := a) (s := s)
  have hline := h.line a.intno
  have hn : ∀ d, w.alloc.findDescForInt a.intno xPortGetCoreID = some d → a.intno < 32 := by
    intro d hd
    have hkey := IntrAlloc.find_key hd
    have hlt := h.ordered.lines d.key (List.mem_map_of_mem hkey.1)
    rw [hkey.2] at hlt
    exact hlt
  generalize hd : w.alloc.findDescForInt a.intno xPortGetCoreID = d at hline hn
  generalize happ : w.alloc.drivers.handlerApp a.intno = e at hline
  generalize Allocation.on a.intno w.live = as at hline hmem hnodup hon hother hdropped
  have hfound := fun d' (hd' : d = some d') =>
    IntrAlloc.descOf_eq (s := w.alloc) (h := a.handle) (n := a.intno) rfl (hd.trans hd')
  unfold Served.freeRest
  cases hline with
  | untouched => cases hmem
  | free => cases hmem
  | own d a' hs hnon hl hentry =>
    obtain rfl := List.mem_singleton.mp hmem
    have hlt := hn d rfl
    rw [hfound d rfl, hs, hnon, if_neg Bool.false_ne_true, if_pos rfl]
    refine ⟨_, rfl, hdropped _ (release_within hlt).1 (release_within hlt).2.2 ?_, fun hb => ?_⟩
    swap
    · obtain ⟨b, hmem, hne⟩ := hother hb
      exact absurd (congrArg Allocation.handle (List.mem_singleton.mp hmem)) hne
    have hnone : Allocation.drop a.handle [a] = [] := List.filter_cons_of_neg (by simp)
    rw [hnone]
    show LineServed a.intno [] ((w.alloc.release (IntrAlloc.lineKey a.intno)).findDescForInt a.intno _)
      ((w.alloc.release (IntrAlloc.lineKey a.intno)).drivers.handlerApp a.intno)
    rw [release_find, hd, (release_within hlt).2.1]
    exact .free _ rfl rfl hl
  | shared d as hs hnon hne hl =>
    have hlt := hn d rfl
    -- the freed allocation has an entry
    have hattached : Allocation.attached a ∈ d.sharedVecInfo.map some := hl ▸ List.mem_map_of_mem hmem
    obtain ⟨v, hv, heq⟩ := List.mem_map.mp hattached
    obtain ⟨addr, hentry, _⟩ := Option.map_eq_some_iff.mp heq.symm
    have hhandle : a.handle = ⟨IntrAlloc.lineKey a.intno, some addr⟩ := by
      unfold Allocation.handle
      rw [hentry]
    have hdrop := @attached_drop a.intno addr _ _ hon hnodup hl
    rw [← hhandle] at hdrop
    have hlist : d.sharedVecInfo ≠ [] := List.ne_nil_of_mem hv
    have hdet : (w.alloc.detach (IntrAlloc.lineKey a.intno) (some addr)).findDescForInt a.intno
        xPortGetCoreID =
        some { d with sharedVecInfo := d.sharedVecInfo.eraseP fun v => some v.addr = some addr } := by
      rw [detach_find, hd]
      rfl
    have hdetOf := IntrAlloc.descOf_eq (h := ⟨IntrAlloc.lineKey a.intno, some addr⟩) rfl hdet
    rw [hfound d rfl, hs, if_pos rfl, if_neg hlist, hhandle]
    dsimp only
    rw [hdetOf, hnon]
    by_cases hempty : (d.sharedVecInfo.eraseP fun v => some v.addr = some addr) = []
    · -- the last user has gone
      rw [if_pos (Or.inr hempty), ← hhandle]
      rw [hempty, List.map_nil, List.map_eq_nil_iff] at hdrop
      refine ⟨_, rfl, hdropped _ ((detach_within _ _).trans (release_within hlt).1) rfl ?_, fun hb => ?_⟩
      swap
      · obtain ⟨b, hmem, hne⟩ := hother hb
        have hleft : b ∈ Allocation.drop a.handle as := List.mem_filter.mpr ⟨hmem, decide_eq_true hne⟩
        rw [hdrop] at hleft
        cases hleft
      rw [hdrop, release_find, hdet, (release_within hlt).2.1]
      exact .free _ rfl rfl hempty
    · rw [if_neg (by simpa using hempty), ← hhandle]
      refine ⟨_, rfl, hdropped _ (detach_within _ _) rfl ?_, fun _ => rfl⟩
      rw [hdet]
      show LineServed a.intno (Allocation.drop a.handle as) _ (w.alloc.drivers.handlerApp a.intno)
      rw [happ]
      refine .shared _ _ hs hnon (fun hgone => hempty ?_) hdrop
      rw [hgone] at hdrop
      exact List.map_eq_nil_iff.mp hdrop.symm

theorem drop_setEnabled (h : IntrHandleData) (b : Bool) (as : List Allocation) :
    Allocation.drop h (Allocation.setEnabled h b as) = Allocation.drop h as := by
  unfold Allocation.drop Allocation.setEnabled
  induction as with
  | nil => rfl
  | cons a as ih =>
    rw [List.map_cons]
    by_cases ha : a.handle = h
    · have hset : Allocation.handle { a with enabled := b } = h := ha
      rw [if_pos ha, List.filter_cons_of_neg (by simp [hset]), List.filter_cons_of_neg (by simp [ha]), ih]
    · rw [if_neg ha, List.filter_cons_of_pos (by simp [ha]), List.filter_cons_of_pos (by simp [ha]), ih]

/-- `esp_intr_disable` leaves the drivers alone. -/
theorem drivers_disable {s s' : IntrAlloc} {h : Option IntrHandleData} {e : EspErr}
    (hs : s.espIntrDisable h = some (e, s')) : s'.drivers = s.drivers := by
  cases h with
  | none =>
    obtain ⟨_, rfl⟩ := Prod.mk.inj (Option.some.inj hs)
    rfl
  | some h =>
    rw [(espIntrDisable_same hs).2.1]
    exact (setDisabled_within s h true).2.1

/-- **`esp_intr_free`** on a handle that is alive. -/
theorem Serves.free (h : w.Serves) {a : Allocation} (ha : a ∈ w.live) :
    ∃ s', w.alloc.espIntrFree (some a.handle) = some (.ok, s') ∧
      Serves { w with alloc := s', live := Allocation.drop a.handle w.live } ∧
      ((∃ b ∈ w.live, b.intno = a.intno ∧ b.handle ≠ a.handle) → s'.drivers = w.alloc.drivers) := by
  obtain ⟨e, s, hdisable, hserves⟩ := h.disable ha
  have hmem : ({ a with enabled := false } : Allocation) ∈
      Allocation.setEnabled a.handle false w.live := by
    refine List.mem_map.mpr ⟨a, ha, ?_⟩
    rw [if_pos rfl]
  obtain ⟨s', hrest, hfreed, hkeeps⟩ := hserves.freeRest hmem
  refine ⟨s', (espIntrFree_eq rfl hdisable).trans hrest, ?_, ?_⟩
  · dsimp only at hfreed
    rw [show Allocation.handle { a with enabled := false } = a.handle from rfl, drop_setEnabled] at hfreed
    exact hfreed
  · rintro ⟨b, hb, hintno, hne⟩
    have hstill : b ∈ Allocation.setEnabled a.handle false w.live :=
      List.mem_map.mpr ⟨b, hb, if_neg hne⟩
    exact (hkeeps ⟨b, hstill, hintno, hne⟩).trans (drivers_disable hdisable)

/-! ## §3 — marking and reserving -/

/-- A line in shared use that is marked as shared. -/
theorem LineServed.mark {n : Nat} {as : List Allocation} {d : VectorDesc} {e : Handler}
    (h : LineServed n as (some d) e) {a : Allocation} (ha : a ∈ as) (hentry : a.entry.isSome = true)
    (iram : Bool) :
    LineServed n as (some { d with flags := { VecFlags.none with shared := true, inIram := iram } }) e := by
  cases h with
  | free => cases ha
  | own d a' _ _ _ hnone =>
    obtain rfl := List.mem_singleton.mp ha
    rw [hnone] at hentry
    cases hentry
  | shared d as _ _ hne hl => exact .shared _ as rfl rfl hne hl

/-- A line without users that is reserved. -/
theorem LineServed.reserve {n : Nat} {as : List Allocation} {d : VectorDesc} {e : Handler}
    (h : LineServed n as (some d) e) (hfree : as = []) :
    LineServed n as (some { d with flags := { VecFlags.none with reserved := true } }) e := by
  cases h with
  | free d _ _ hl => exact .free _ rfl rfl hl
  | own => cases hfree
  | shared _ _ _ _ hne => exact absurd hfree hne

/-- Flags that suit the line. -/
theorem Serves.setFlags (h : w.Serves) (fails : Malloc → Bool) (n cpu : Nat) (flags : VecFlags)
    (hsuits : cpu = xPortGetCoreID → n < 32 → ∀ d e, LineServed n (Allocation.on n w.live) (some d) e →
      LineServed n (Allocation.on n w.live) (some { d with flags := flags }) e) :
    Serves { w with alloc := (w.alloc.setFlags fails n cpu flags).2 } := by
  unfold IntrAlloc.setFlags
  split
  · exact h
  · next hlt =>
    split
    · exact h
    · cases hget : w.alloc.getDescForInt fails n cpu with
      | none => exact h
      | some s =>
        have hn : n < 32 := by omega
        have hwithin : Within (cpu, n) s (s.update (cpu, n) fun d => { d with flags := flags }) :=
          Within.update s _ fun _ => rfl
        obtain ⟨hfind, hget', hdrivers, hheap⟩ := getDescForInt_some hn hget
        dsimp only
        by_cases hcpu : cpu = xPortGetCoreID
        · subst hcpu
          have hs := h.getDesc hn hget
          refine hs.change n h.alive hwithin (fun _ _ => rfl) ?_ h.handles hs.addrs h.reqs
          show LineServed n (Allocation.on n w.live)
            ((s.update (IntrAlloc.lineKey n) _).findDescForInt n xPortGetCoreID) (s.drivers.handlerApp n)
          have hline := hs.line n
          rw [show ({ w with alloc := s } : Served).alloc = s from rfl, hfind] at hline
          have hupdate : (s.update (IntrAlloc.lineKey n) fun d => { d with flags := flags }).findDescForInt n
              xPortGetCoreID = (s.findDescForInt n xPortGetCoreID).map fun d => { d with flags := flags } :=
            IntrAlloc.find_update fun _ => rfl
          rw [hupdate, hfind]
          exact hsuits rfl hn _ _ hline
        · -- the lines of the other CPU are nobody's
          have hall := hget'.trans hwithin
          have hkey : ∀ m, IntrAlloc.lineKey m ≠ (cpu, n) := fun m heq => hcpu (congrArg Prod.fst heq).symm
          refine ⟨h.alive, hall.ordered h.ordered, fun m => ?_, h.handles, ?_, h.reqs⟩
          · dsimp only
            rw [hall.find m (hkey m), hall.app m (hkey m)]
            exact h.line m
          · show ∀ a ∈ w.live, ∀ addr, a.entry = some addr → addr < s.heap
            rw [hheap]
            exact h.addrs

/-! ## §4 — runs -/

/-- **One call.** -/
theorem Serves.next (h : w.Serves) {c : AllocCall} (hc : w.Proper c) : Serves (w.next c) := by
  cases c with
  | alloc fails r keep =>
    obtain ⟨e, ho, s', hs, hserves⟩ := h.allocate hc
    show Serves (w.after (w.alloc.espIntrAllocIntrstatus fails r) _)
    rw [hs]
    exact hserves
  | free ho =>
    cases ho with
    | none => exact h
    | some hd =>
      obtain ⟨a, ha, _, rfl⟩ := hc
      obtain ⟨s', hs, hserves, _⟩ := h.free ha
      show Serves (w.after (w.alloc.espIntrFree (some a.handle)) _)
      rw [hs]
      exact hserves
  | enable ho =>
    cases ho with
    | none => exact h
    | some hd =>
      obtain ⟨a, ha, _, rfl⟩ := hc
      exact h.enable ha
  | disable ho =>
    cases ho with
    | none => exact h
    | some hd =>
      obtain ⟨a, ha, _, rfl⟩ := hc
      obtain ⟨e, s', hs, hserves⟩ := h.disable ha
      show Serves (w.after (w.alloc.espIntrDisable (some a.handle)) _)
      rw [hs]
      exact hserves
  | markShared fails n cpu iram =>
    refine h.setFlags fails n cpu _ fun hcpu hn d e hline => ?_
    rcases hc with hout | hother | ⟨a, ha, hintno, hentry⟩
    · omega
    · exact absurd hcpu hother
    · exact hline.mark (Allocation.mem_on.mpr ⟨ha, hintno⟩) (Option.isSome_iff_ne_none.mpr hentry) iram
  | reserve fails n cpu =>
    refine h.setFlags fails n cpu _ fun hcpu _ d e hline => ?_
    rcases hc with hother | hfree
    · exact absurd hcpu hother
    · apply hline.reserve
      exact List.filter_eq_nil_iff.mpr fun a ha => by simpa using hfree a ha
  | noniramDisable =>
    have hflag : w.alloc.nonIramIntDisabledFlag xPortGetCoreID = false := hc
    show Serves (w.after w.alloc.espIntrNoniramDisable _)
    unfold IntrAlloc.espIntrNoniramDisable
    dsimp only
    rw [hflag, if_neg Bool.false_ne_true]
    exact Serves.frame h rfl rfl rfl
  | noniramEnable =>
    have hflag : w.alloc.nonIramIntDisabledFlag xPortGetCoreID = true := hc
    show Serves (w.after w.alloc.espIntrNoniramEnable _)
    unfold IntrAlloc.espIntrNoniramEnable
    dsimp only
    rw [hflag, if_neg (by simp)]
    exact Serves.frame h rfl rfl rfl

theorem Serves.step (h : w.Serves) {c : AllocCall} (hc : w.Proper c) : Serves (w.step c) := by
  have hnext : w.step c = w.next c := if_neg (ne_true_of_eq_false h.alive)
  rw [hnext]
  exact h.next hc

/-- **What the callers can rely on.** -/
structure Lawful (w : Served) : Prop where
  alive : w.aborted = false
  sorted : w.alloc.keys.Pairwise KeyLt
  /-- two allocations on one line are both shared, with an entry each -/
  exclusive : w.live.Pairwise fun a b => a.intno = b.intno →
    (a.req.has espIntrFlagShared = true ∧ b.req.has espIntrFlagShared = true) ∧ a.entry ≠ b.entry
  /-- an allocation that is not shared has its line marked as held, and its handler in the table -/
  own : ∀ a ∈ w.live, a.req.has espIntrFlagShared = false →
    w.alloc.drivers.handlerApp a.intno = a.own ∧
      ∃ d, w.alloc.findDescForInt a.intno xPortGetCoreID = some d ∧ d.flags.nonShared = true
  /-- the entries of a shared line are those of its allocations, newest first -/
  chain : ∀ n d, w.alloc.findDescForInt n xPortGetCoreID = some d → d.flags.shared = true →
    d.sharedVecInfo.map some = (Allocation.on n w.live).map Allocation.attached ∧
      w.alloc.drivers.handlerApp n = ⟨sharedIntrIsrFn, descAddr (xPortGetCoreID, n)⟩
  /-- a line without allocations has no handler -/
  idle : ∀ n, (∀ a ∈ w.live, a.intno ≠ n) → w.alloc.drivers.handlerApp n = .null

theorem LineServed.entry_of_mem {n : Nat} {as : List Allocation} {d : Option VectorDesc} {e : Handler}
    (h : LineServed n as d e) {a : Allocation} (ha : a ∈ as) :
    as = [a] ∧ a.entry = none ∧ e = a.own ∧
        (∃ d', d = some d' ∧ d'.flags.nonShared = true ∧ d'.source = storeSource a.req.source) ∨
      a.entry.isSome = true := by
  cases h with
  | untouched => cases ha
  | free => cases ha
  | own d a' _ hn _ hnone hsource =>
    obtain rfl := List.mem_singleton.mp ha
    exact Or.inl ⟨rfl, hnone, rfl, d, rfl, hn, hsource⟩
  | shared d as _ _ _ hl =>
    have hmem : Allocation.attached a ∈ d.sharedVecInfo.map some := hl ▸ List.mem_map_of_mem ha
    obtain ⟨v, _, hv⟩ := List.mem_map.mp hmem
    obtain ⟨addr, hentry, _⟩ := Option.map_eq_some_iff.mp hv.symm
    exact Or.inr (by rw [hentry]; rfl)

theorem LineServed.chain {n : Nat} {as : List Allocation} {d : VectorDesc} {e : Handler}
    (h : LineServed n as (some d) e) (hs : d.flags.shared = true) :
    d.sharedVecInfo.map some = as.map Allocation.attached ∧
      e = ⟨sharedIntrIsrFn, descAddr (xPortGetCoreID, n)⟩ := by
  cases h with
  | free _ hs' => rw [hs'] at hs; cases hs
  | own _ _ hs' => rw [hs'] at hs; cases hs
  | shared _ _ _ _ _ hl => exact ⟨hl.symm, rfl⟩

theorem LineServed.idle {n : Nat} {as : List Allocation} {d : Option VectorDesc} {e : Handler}
    (h : LineServed n as d e) (hnil : as = []) : e = .null := by
  cases h with
  | untouched => rfl
  | free => rfl
  | own => cases hnil
  | shared _ _ _ _ hne => exact absurd hnil hne

theorem Serves.lawful (h : w.Serves) : w.Lawful where
  alive := h.alive
  sorted := h.ordered.sorted
  exclusive := by
    have hhandles := List.pairwise_map.mp h.handles
    refine hhandles.imp_of_mem ?_
    intro a b ha hb hne hintno
    have hona := Allocation.mem_on.mpr ⟨ha, rfl⟩
    have honb := Allocation.mem_on.mpr ⟨hb, hintno.symm⟩
    have hshared : ∀ c ∈ Allocation.on a.intno w.live, c.entry.isSome = true := by
      intro c hc
      rcases (h.line a.intno).entry_of_mem hc with ⟨hone, _⟩ | hentry
      · -- one user only: the two would be the same
        rw [hone] at hona honb
        have heq := (List.mem_singleton.mp hona).trans (List.mem_singleton.mp honb).symm
        exact absurd (congrArg Allocation.handle heq) hne
      · exact hentry
    refine ⟨⟨?_, ?_⟩, fun hentry => hne ?_⟩
    · rw [← (h.reqs a ha).2.2]
      exact hshared a hona
    · rw [← (h.reqs b hb).2.2]
      exact hshared b honb
    · unfold Allocation.handle
      rw [hintno, hentry]
  own := by
    intro a ha hreq
    rcases (h.line a.intno).entry_of_mem (Allocation.mem_on.mpr ⟨ha, rfl⟩) with
      ⟨_, _, hown, d, hd, hnon, _⟩ | hentry
    · exact ⟨hown, d, hd, hnon⟩
    · rw [(h.reqs a ha).2.2, hreq] at hentry
      cases hentry
  chain := fun _ _ hd hs => (h.lineOf hd).chain hs
  idle := by
    intro n hn
    apply (h.line n).idle
    exact List.filter_eq_nil_iff.mpr fun a ha => by simpa using hn a ha

/-- Two handlers on one line, of which one is disabled and freed; a line of its own, and a reserved one. -/
def someCalls : List AllocCall :=
  [.alloc (fun _ => false) ⟨43, 0x100, 0, 0, 20, 1⟩ true,
    .alloc (fun _ => false) ⟨48, 0x100, 0x3ff57000, 1, 21, 2⟩ true,
    .disable (some ⟨(1, 2), some 0⟩),
    .alloc (fun _ => false) ⟨22, 0, 0, 0, 22, 3⟩ true,
    .reserve (fun _ => false) 9 1,
    .free (some ⟨(1, 2), some 0⟩)]

/-! ## §5 — the line that is granted -/

/-- The results of `esp_intr_alloc_intrstatus`. -/
theorem alloc_result {s : IntrAlloc} {fails : Malloc → Bool} {r : Request}
    {res : EspErr × Option IntrHandleData × IntrAlloc}
    (h : s.espIntrAllocIntrstatus fails r = some res) :
    (res.1 = .ok → ∃ n, s.getAvailableInt r.withLevels xPortGetCoreID
        (Request.forced r.withLevels.source) = some (some n) ∧
        res.2.1.map IntrHandleData.vectorDesc = some (IntrAlloc.lineKey n)) ∧
      (res.1 = .notFound → s.getAvailableInt r.withLevels xPortGetCoreID
        (Request.forced r.withLevels.source) = some none) := by
  unfold IntrAlloc.espIntrAllocIntrstatus at h
  split at h
  · obtain rfl := Option.some.inj h
    exact ⟨nofun, nofun⟩
  split at h
  · obtain rfl := Option.some.inj h
    exact ⟨nofun, nofun⟩
  dsimp only at h
  split at h
  · cases h
  · next hnone =>
    obtain rfl := Option.some.inj h
    exact ⟨nofun, fun _ => hnone⟩
  next n hn =>
  split at h
  · obtain rfl := Option.some.inj h
    exact ⟨nofun, nofun⟩
  split at h
  · obtain rfl := Option.some.inj h
    exact ⟨nofun, nofun⟩
  split at h
  · split at h
    · cases h
    · obtain rfl := Option.some.inj h
      exact ⟨fun _ => ⟨n, hn, rfl⟩, nofun⟩
  · obtain rfl := Option.some.inj h
    exact ⟨fun _ => ⟨n, hn, rfl⟩, nofun⟩

/-- **What a granted line is**: the line of the source if it has one, else the best. -/
structure Granted (s : IntrAlloc) (r : Request) (n : Nat) : Prop where
  /-- it has one of the levels asked for, the kind asked for, is not reserved, nobody's, or shared by those
  who asked for that -/
  meets : IntrAlloc.Meets s r xPortGetCoreID (Request.forced r.source) (s.descOrEmpty n xPortGetCoreID)
  tied : ∀ x, Request.forced r.source = some x → n = x
  found : ∀ d, IntrAlloc.findDescForSource r.source xPortGetCoreID s.vectorDescHead = some (some d) →
    n = d.intno
  /-- of the lines that can be used none has fewer handlers to share with, and of those with as many none
  has a lower level -/
  best : IntrAlloc.findDescForSource r.source xPortGetCoreID s.vectorDescHead = some none →
    Request.forced r.source = none → ∀ x, IntrAlloc.Usable s r x →
      IntrAlloc.rank r (s.descOrEmpty n xPortGetCoreID) ≤ IntrAlloc.rank r (s.descOrEmpty x xPortGetCoreID) ∧
        (IntrAlloc.rank r (s.descOrEmpty x xPortGetCoreID) ≤
            IntrAlloc.rank r (s.descOrEmpty n xPortGetCoreID) →
          n ≤ x ∧ (intDesc n).level ≤ (intDesc x).level)

theorem Serves.granted (h : w.Serves) {fails : Malloc → Bool} {r : Request} {keep : Bool}
    (hproper : w.Proper (.alloc fails r keep)) {res : EspErr × Option IntrHandleData × IntrAlloc}
    (hres : w.alloc.espIntrAllocIntrstatus fails r = some res) :
    (res.1 = .ok → ∃ n, res.2.1.map IntrHandleData.vectorDesc = some (IntrAlloc.lineKey n) ∧
        Granted w.alloc r.withLevels n) ∧
      (res.1 = .notFound →
        IntrAlloc.findDescForSource r.withLevels.source xPortGetCoreID w.alloc.vectorDescHead = some none →
        Request.forced r.withLevels.source = none → ∀ x, ¬ IntrAlloc.Usable w.alloc r.withLevels x) := by
  obtain ⟨hok, hnot⟩ := alloc_result hres
  obtain ⟨got, hgot, hchosen, hmeets⟩ := h.chosen hproper.2.2 r (Request.forced r.withLevels.source)
  constructor
  · intro hres
    obtain ⟨n, hn, hhandle⟩ := hok hres
    obtain rfl := Option.some.inj (hgot.symm.trans hn)
    refine ⟨n, hhandle, (hmeets n rfl).2, fun x hx => ?_, fun d hd => ?_, fun hnone hforce x hx => ?_⟩
    · -- a source that is tied to a line gets it or nothing
      obtain ⟨found, hfound, _⟩ := IntrAlloc.findDescForSource_some (h.carries_ne_none r.withLevels.source)
      cases found with
      | some d =>
        obtain ⟨_, hf | hf, _⟩ := (hchosen.found d hfound n).mp rfl
        · rw [hx] at hf
          cases hf
        · exact Option.some.inj (hf.symm.trans hx)
      | none => exact ((hchosen.forced hfound x hx n).mp rfl).1
    · exact ((hchosen.found d hd n).mp rfl).1
    · obtain ⟨husable, _, hleast⟩ := (hchosen.walked hnone hforce).least n rfl
      obtain ⟨hle, hfirst⟩ := hleast x hx.lt hx
      refine ⟨hle, fun hback => ⟨hfirst hback, ?_⟩⟩
      rcases Nat.eq_or_lt_of_le (hfirst hback) with rfl | hlt
      · exact Nat.le_refl _
      · exact husable.normal.level_le hx.normal hx.lt hlt
  · intro hres hnone hforce x hx
    obtain rfl := Option.some.inj (hgot.symm.trans (hnot hres))
    exact (hchosen.walked hnone hforce).empty rfl x hx.lt hx

/-- The state that a proper run reaches. -/
theorem serves_run {mask : BitVec 32} {cs : List AllocCall}
    (h : Throughout Proper Served.step (new mask) cs) : Serves (cs.foldl Served.step (new mask)) :=
  (always_of_throughout (P := fun _ (w : Served) => w.Serves) (I := fun _ (w : Served) => w.Serves)
    (fun _ _ hw => hw) (fun _ _ _ hw hc => hw.step hc) cs [] _ (serves_new mask) h).last

/-- **What is granted is what was asked for**, in every state of every proper run: a line that fits the
request, the best of them when the source has no line yet; and when nothing is found for such a source,
no line fits. -/
theorem granted_lines (mask : BitVec 32) (cs : List AllocCall)
    (h : Throughout Proper Served.step (new mask) cs) (fails : Malloc → Bool) (r : Request) (keep : Bool)
    (hproper : (cs.foldl Served.step (new mask)).Proper (.alloc fails r keep))
    (res : EspErr × Option IntrHandleData × IntrAlloc)
    (hres : (cs.foldl Served.step (new mask)).alloc.espIntrAllocIntrstatus fails r = some res) :
    (res.1 = .ok → ∃ n, res.2.1.map IntrHandleData.vectorDesc = some (IntrAlloc.lineKey n) ∧
        Granted (cs.foldl Served.step (new mask)).alloc r.withLevels n) ∧
      (res.1 = .notFound →
        IntrAlloc.findDescForSource r.withLevels.source xPortGetCoreID
          (cs.foldl Served.step (new mask)).alloc.vectorDescHead = some none →
        Request.forced r.withLevels.source = none →
          ∀ x, ¬ IntrAlloc.Usable (cs.foldl Served.step (new mask)).alloc r.withLevels x) :=
  (serves_run h).granted hproper hres

/-- A third handler joins the line that is shared already. -/
theorem someCalls_granted :
    ∃ res, (someCalls.foldl Served.step (new 0)).alloc.espIntrAllocIntrstatus (fun _ => false)
        ⟨49, 0x100, 0, 0, 23, 4⟩ = some res ∧
      ∃ n, res.2.1.map IntrHandleData.vectorDesc = some (IntrAlloc.lineKey n) ∧
        Granted (someCalls.foldl Served.step (new 0)).alloc (Request.withLevels ⟨49, 0x100, 0, 0, 23, 4⟩)
          n := by
  have hok : ((someCalls.foldl Served.step (new 0)).alloc.espIntrAllocIntrstatus (fun _ => false)
      ⟨49, 0x100, 0, 0, 23, 4⟩).map Prod.fst = some .ok := by decide +kernel
  obtain ⟨res, hres, hfst⟩ := Option.map_eq_some_iff.mp hok
  exact ⟨res, hres, (granted_lines 0 someCalls (by decide +kernel) (fun _ => false) _ true
    (by decide +kernel) res hres).1 hfst⟩

/-! ## §6 — marking a line that nobody shares -/

/-- A search over a list in which one descriptor fails the assertion. -/
theorem findDescForSource_none {source : Int} {l : List VectorDesc} {bad : VectorDesc}
    (hsorted : (l.map VectorDesc.key).Pairwise KeyLt) (hbad : bad ∈ l)
    (hnone : IntrAlloc.carries source xPortGetCoreID bad = none)
    (hgood : ∀ d ∈ l, d.key ≠ bad.key → IntrAlloc.carries source xPortGetCoreID d ≠ none) :
    IntrAlloc.findDescForSource source xPortGetCoreID l = none ↔
      ∀ d ∈ l, KeyLt d.key bad.key → IntrAlloc.carries source xPortGetCoreID d ≠ some true := by
  induction l with
  | nil => cases hbad
  | cons d l ih =>
    rw [List.map_cons, List.pairwise_cons] at hsorted
    unfold IntrAlloc.findDescForSource
    rcases List.mem_cons.mp hbad with rfl | hmem
    · -- it comes first, and nothing before it
      rw [hnone]
      refine ⟨fun _ e he hlt => ?_, fun _ => rfl⟩
      rcases List.mem_cons.mp he with rfl | he
      · unfold KeyLt at hlt
        omega
      · have hback := hsorted.1 e.key (List.mem_map_of_mem he)
        unfold KeyLt at hlt hback
        omega
    · have hlt := hsorted.1 bad.key (List.mem_map_of_mem hmem)
      have hne : d.key ≠ bad.key := by
        intro heq
        rw [heq] at hlt
        unfold KeyLt at hlt
        omega
      obtain ⟨b, hb⟩ := Option.ne_none_iff_exists'.mp (hgood d List.mem_cons_self hne)
      have hrest := ih hsorted.2 hmem fun e he => hgood e (List.mem_cons_of_mem d he)
      rw [hb]
      cases b with
      | true =>
        constructor
        · intro h
          cases h
        · intro hall
          exact absurd hb (hall d List.mem_cons_self hlt)
      | false =>
        show IntrAlloc.findDescForSource source xPortGetCoreID l = none ↔ _
        rw [hrest]
        constructor
        · intro hall e he hlt
          rcases List.mem_cons.mp he with rfl | he
          · rw [hb]
            intro h
            cases h
          · exact hall e he hlt
        · exact fun hall e he => hall e (List.mem_cons_of_mem d he)

/-- A descriptor of the CPU is in a list of the right order exactly if it is found. -/
theorem mem_iff_find {s : IntrAlloc} (ho : Ordered s.keys) {d : VectorDesc}
    (hcpu : d.cpu = xPortGetCoreID) :
    d ∈ s.vectorDescHead ↔ s.findDescForInt d.intno xPortGetCoreID = some d := by
  refine ⟨fun hd => ?_, fun hd => (IntrAlloc.find_key hd).1⟩
  have hfind := FirstMatch.find_of_mem ho.nodup hd
  rw [show d.key = (xPortGetCoreID, d.intno) from Prod.ext hcpu rfl] at hfind
  exact hfind

/-- A line without a shared user has no entries. -/
theorem LineServed.no_entries {n : Nat} {as : List Allocation} {d : Option VectorDesc} {e : Handler}
    (h : LineServed n as d e) (hnone : ∀ a ∈ as, a.entry = none) :
    (d.getD (.empty xPortGetCoreID n)).sharedVecInfo = [] := by
  cases h with
  | untouched => rfl
  | free _ _ _ hl => exact hl
  | own _ _ _ _ hl => exact hl
  | shared d as _ _ hne hl =>
    obtain ⟨a, ha⟩ := List.exists_mem_of_ne_nil as hne
    have hmem : Allocation.attached a ∈ d.sharedVecInfo.map some := hl ▸ List.mem_map_of_mem ha
    obtain ⟨v, _, hv⟩ := List.mem_map.mp hmem
    unfold Allocation.attached at hv
    rw [hnone a ha] at hv
    cases hv

/-- What a search from such a state does. -/
theorem Serves.search_marked (h : w.Serves) {fails : Malloc → Bool} {n : Nat} (iram : Bool) (hn : n < 32)
    (hmalloc : fails .vectorDesc = false) (hfree : ∀ a ∈ w.live, a.intno = n → a.entry = none)
    (source : Int) :
    IntrAlloc.findDescForSource source xPortGetCoreID
        (w.alloc.espIntrMarkShared fails n xPortGetCoreID iram).2.vectorDescHead = none ↔
      ∀ d ∈ w.alloc.vectorDescHead, KeyLt d.key (IntrAlloc.lineKey n) →
        IntrAlloc.carries source xPortGetCoreID d ≠ some true := by
  have hget : ∃ s, w.alloc.getDescForInt fails n xPortGetCoreID = some s := by
    unfold IntrAlloc.getDescForInt
    split
    · exact ⟨_, rfl⟩
    · rw [hmalloc]
      exact ⟨_, rfl⟩
  obtain ⟨s, hs⟩ := hget
  obtain ⟨hfind, hwithin, _⟩ := getDescForInt_some hn hs
  have hmark : (w.alloc.espIntrMarkShared fails n xPortGetCoreID iram).2 =
      s.update (IntrAlloc.lineKey n) fun d =>
        { d with flags := { VecFlags.none with shared := true, inIram := iram } } := by
    unfold IntrAlloc.espIntrMarkShared IntrAlloc.setFlags
    rw [if_neg (by omega), if_neg (by decide), hs]
  rw [hmark]
  generalize hflags : ({ VecFlags.none with shared := true, inIram := iram } : VecFlags) = flags
  have hshared : flags.shared = true := by rw [← hflags]
  have hupdate : Within (IntrAlloc.lineKey n) s
      (s.update (IntrAlloc.lineKey n) fun d => { d with flags := flags }) :=
    Within.update s _ fun _ => rfl
  have hall := hwithin.trans hupdate
  have hbadFind : (s.update (IntrAlloc.lineKey n) fun d => { d with flags := flags }).findDescForInt n
      xPortGetCoreID = some { w.alloc.descOrEmpty n xPortGetCoreID with flags := flags } := by
    refine (IntrAlloc.find_update ?_).trans ?_
    · exact fun _ => rfl
    · rw [hfind]
      rfl
  obtain ⟨hbadMem, hbadKey⟩ := IntrAlloc.find_key hbadFind
  have hentries : (w.alloc.descOrEmpty n xPortGetCoreID).sharedVecInfo = [] :=
    (h.line n).no_entries fun a ha => hfree a (Allocation.mem_on.mp ha).1 (Allocation.mem_on.mp ha).2
  have hbad : IntrAlloc.carries source xPortGetCoreID
      { w.alloc.descOrEmpty n xPortGetCoreID with flags := flags } = none := by
    unfold IntrAlloc.carries
    rw [if_neg (by simp [hshared])]
    have hcpu : (w.alloc.descOrEmpty n xPortGetCoreID).cpu = xPortGetCoreID := congrArg Prod.fst hbadKey
    rw [if_pos hcpu, if_pos hentries]
  -- the other descriptors of this CPU are those there were
  have hother : ∀ d : VectorDesc, d.cpu = xPortGetCoreID → d.key ≠ IntrAlloc.lineKey n →
      (d ∈ (s.update (IntrAlloc.lineKey n) fun d => { d with flags := flags }).vectorDescHead ↔
        d ∈ w.alloc.vectorDescHead) := by
    intro d hcpu hne
    have hkey : IntrAlloc.lineKey d.intno ≠ IntrAlloc.lineKey n := fun heq =>
      hne (Prod.ext hcpu (show d.intno = n from congrArg Prod.snd heq))
    rw [mem_iff_find (hall.ordered h.ordered) hcpu, hall.find _ hkey, mem_iff_find h.ordered hcpu]
  have hsearch := findDescForSource_none (hall.ordered h.ordered).sorted hbadMem hbad ?_
  · rw [hsearch, hbadKey]
    constructor
    · intro hno d hd hlt hcarries
      have hne : d.key ≠ IntrAlloc.lineKey n := by
        intro heq
        rw [heq] at hlt
        unfold KeyLt at hlt
        omega
      exact hno d ((hother d (IntrAlloc.cpu_of_carries hcarries) hne).mpr hd) hlt hcarries
    · intro hno d hd hlt hcarries
      have hne : d.key ≠ IntrAlloc.lineKey n := by
        intro heq
        rw [heq] at hlt
        unfold KeyLt at hlt
        omega
      exact hno d ((hother d (IntrAlloc.cpu_of_carries hcarries) hne).mp hd) hlt hcarries
  · intro d hd hne
    rw [hbadKey] at hne
    by_cases hcpu : d.cpu = xPortGetCoreID
    · exact h.carries_ne_none source d ((hother d hcpu hne).mp hd)
    · unfold IntrAlloc.carries
      split
      · exact nofun
      · exact nofun

/-- **Marking a line that nobody shares**: after any proper run, the next search for a source fails the
assertion exactly if no line before the marked one has the source, and with it the allocation aborts. -/
theorem marked_line_aborts (mask : BitVec 32) (cs : List AllocCall)
    (h : Throughout Proper Served.step (new mask) cs) (n : Nat) (hn : n < 32)
    (hfree : ∀ a ∈ (cs.foldl Served.step (new mask)).live, a.intno = n → a.entry = none) (iram : Bool)
    (r : Request) (hargs : ¬ r.BadArgs) :
    (IntrAlloc.findDescForSource r.source xPortGetCoreID
          ((cs.foldl Served.step (new mask)).alloc.espIntrMarkShared (fun _ => false) n xPortGetCoreID
            iram).2.vectorDescHead = none ↔
        ∀ d ∈ (cs.foldl Served.step (new mask)).alloc.vectorDescHead,
          KeyLt d.key (IntrAlloc.lineKey n) →
            IntrAlloc.carries r.source xPortGetCoreID d ≠ some true) ∧
      ((∀ d ∈ (cs.foldl Served.step (new mask)).alloc.vectorDescHead,
          KeyLt d.key (IntrAlloc.lineKey n) →
            IntrAlloc.carries r.source xPortGetCoreID d ≠ some true) →
        ((cs.foldl Served.step (new mask)).alloc.espIntrMarkShared (fun _ => false) n xPortGetCoreID
          iram).2.espIntrAllocIntrstatus (fun _ => false) r = none) := by
  have hsearch := @Serves.search_marked _ (serves_run h) (fun _ => false) n iram hn rfl hfree r.source
  refine ⟨hsearch, fun hno => ?_⟩
  have hnone := hsearch.mpr hno
  unfold IntrAlloc.espIntrAllocIntrstatus
  rw [if_neg hargs, if_neg Bool.false_ne_true]
  dsimp only
  have hget : ∀ force, IntrAlloc.getAvailableInt
      ((cs.foldl Served.step (new mask)).alloc.espIntrMarkShared (fun _ => false) n xPortGetCoreID iram).2
      r.withLevels xPortGetCoreID force = none := by
    intro force
    unfold IntrAlloc.getAvailableInt
    simp only [if_neg r.withLevels_levels, (withLevels_fields r).2, hnone]
    rfl
  rw [hget]

/-- A line nobody has, marked as shared after some calls, and a source that has no line. -/
theorem someCalls_marked :
    ((someCalls.foldl Served.step (new 0)).alloc.espIntrMarkShared (fun _ => false) 12 xPortGetCoreID
      false).2.espIntrAllocIntrstatus (fun _ => false) ⟨50, 0, 0, 0, 24, 5⟩ = none :=
  (marked_line_aborts 0 someCalls (by decide +kernel) 12 (by decide) (by decide +kernel) false
    ⟨50, 0, 0, 0, 24, 5⟩ (by decide +kernel)).2 (by decide +kernel)

end Served

end Espmod.Intr
