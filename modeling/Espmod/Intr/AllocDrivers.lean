/-
# Espmod.Intr.AllocDrivers — what the allocator does to the driver threads

The allocator runs on CPU 1. Of what the driver threads look at, its calls change the table of CPU 1 and
the edge words, and nothing else as long as a line that loses an allocation keeps another one: for the last
one `esp_intr_free` goes through `deassignfn`, which does not return the number it should.

In the runs without that, everything the allocator promises holds.
-/
import Espmod.Intr.AllocRuns

namespace Espmod.Intr

open Espmod.Lib

/-! ## §1 — the operations -/

/-- The second state of the drivers is the first, apart from the table of CPU 1 and the edge words. -/
structure EspIntrDrivers.OwnTable (t t' : EspIntrDrivers) : Prop where
  pro : t'.handlerPro = t.handlerPro
  undefined : t'.undefined = t.undefined

namespace IntrAlloc

open EspIntrDrivers (OwnTable)

variable {s s' : IntrAlloc}

theorem ownTable_refl (t : EspIntrDrivers) : OwnTable t t := ⟨rfl, rfl⟩

theorem ownTable_trans {t t' t'' : EspIntrDrivers} (h : OwnTable t t') (h' : OwnTable t' t'') :
    OwnTable t t'' := ⟨h'.pro.trans h.pro, h'.undefined.trans h.undefined⟩

theorem ownTable_setEntry (n : Int) (e : Handler) (t : EspIntrDrivers) :
    OwnTable t (t.setEntry xPortGetCoreID n e) := by
  unfold EspIntrDrivers.setEntry
  split
  · exact ownTable_refl t
  · rw [if_neg (by decide)]
    exact ⟨rfl, rfl⟩

theorem ownTable_setEdge (s : IntrAlloc) (w : BitVec 32) (cpu : Nat) :
    OwnTable s.drivers (s.setEdge w cpu).drivers := by
  unfold setEdge
  by_cases hcpu : cpu = 0
  · simp only [hcpu, if_true]
    exact ⟨rfl, rfl⟩
  · simp only [hcpu, if_false]
    exact ⟨rfl, rfl⟩

theorem ownTable_connect (s : IntrAlloc) (r : Request) (n : Nat) :
    OwnTable s.drivers (s.connect r (lineKey n)).drivers := by
  cases hs : r.has espIntrFlagShared with
  | true =>
    rw [(Served.connect_shared hs _).2.1]
    exact ownTable_setEntry _ _ _
  | false =>
    rw [(Served.connect_own hs _).2.1]
    have hfn : ∀ t : IntrAlloc, OwnTable t.drivers (if r.handler = 0 then t else
        t.assignfn xPortGetCoreID n r.handler r.arg).drivers := by
      intro t
      split
      · exact ownTable_refl _
      · exact ownTable_setEntry _ _ _
    have hedge : ∀ t : IntrAlloc, OwnTable t.drivers (if r.has espIntrFlagEdge then
        t.setEdge ((1 : BitVec 32) <<< n) xPortGetCoreID else t).drivers := by
      intro t
      split
      · exact ownTable_setEdge _ _ _
      · exact ownTable_refl _
    exact ownTable_trans (hfn s) (hedge _)

theorem drivers_getDesc {fails : Malloc → Bool} {n cpu : Nat}
    (h : s.getDescForInt fails n cpu = some s') : s'.drivers = s.drivers := by
  unfold getDescForInt at h
  split at h
  · rw [Option.some.inj h]
  · split at h
    · cases h
    · rw [← Option.some.inj h]
      rfl

theorem ownTable_alloc {fails : Malloc → Bool} {r : Request}
    {res : EspErr × Option IntrHandleData × IntrAlloc} (h : s.espIntrAllocIntrstatus fails r = some res) :
    OwnTable s.drivers res.2.2.drivers := by
  unfold espIntrAllocIntrstatus at h
  -- up to the descriptor nothing is set
  split at h
  · rw [← Option.some.inj h]
    exact ownTable_refl _
  split at h
  · rw [← Option.some.inj h]
    exact ownTable_refl _
  dsimp only at h
  split at h
  · cases h
  · rw [← Option.some.inj h]
    exact ownTable_refl _
  split at h
  · rw [← Option.some.inj h]
    exact ownTable_refl _
  next s' hget =>
  have hdrivers := drivers_getDesc hget
  split at h
  · rw [← Option.some.inj h, ← hdrivers]
    exact ownTable_refl _
  -- granted: the line is connected, and switched off again where the flags ask for it
  split at h
  · split at h
    · cases h
    · next hdisable =>
      rw [← Option.some.inj h, Served.drivers_disable hdisable, ← hdrivers]
      exact ownTable_connect _ _ _
  · rw [← Option.some.inj h, ← hdrivers]
    exact ownTable_connect _ _ _

theorem handlerPro_free {h : Option IntrHandleData} {e : EspErr}
    (hs : s.espIntrFree h = some (e, s')) : s'.drivers.handlerPro = s.drivers.handlerPro := by
  cases h with
  | none =>
    obtain ⟨_, rfl⟩ := Prod.mk.inj (Option.some.inj hs)
    rfl
  | some h =>
    by_cases hcpu : h.vectorDesc.1 = xPortGetCoreID
    · have hrelease : ∀ t : IntrAlloc, (t.release h.vectorDesc).drivers.handlerPro =
          t.drivers.handlerPro := by
        intro t
        show (t.drivers.setEntry h.vectorDesc.1 h.vectorDesc.2 .null).handlerPro = _
        rw [hcpu]
        exact (ownTable_setEntry _ _ _).pro
      cases hd : s.espIntrDisable (some h) with
      | none =>
        unfold espIntrFree at hs
        simp [hcpu, hd] at hs
      | some res =>
        obtain ⟨e', t⟩ := res
        rw [Served.espIntrFree_eq hcpu hd] at hs
        rw [← Served.drivers_disable hd]
        unfold Served.freeRest at hs
        split at hs
        · split at hs
          · cases hs
          · split at hs
            · obtain ⟨_, rfl⟩ := Prod.mk.inj (Option.some.inj hs)
              exact hrelease _
            · obtain ⟨_, rfl⟩ := Prod.mk.inj (Option.some.inj hs)
              rfl
        · split at hs
          · obtain ⟨_, rfl⟩ := Prod.mk.inj (Option.some.inj hs)
            exact hrelease _
          · obtain ⟨_, rfl⟩ := Prod.mk.inj (Option.some.inj hs)
            rfl
    · unfold espIntrFree at hs
      simp only [ne_eq, hcpu, not_false_eq_true, if_true, Option.some.injEq, Prod.mk.injEq] at hs
      rw [hs.2]

theorem drivers_setFlags (s : IntrAlloc) (fails : Malloc → Bool) (n cpu : Nat) (flags : VecFlags) :
    (s.setFlags fails n cpu flags).2.drivers = s.drivers := by
  unfold setFlags
  split
  · rfl
  · split
    · rfl
    · cases hget : s.getDescForInt fails n cpu with
      | none => rfl
      | some t =>
        show t.drivers = s.drivers
        exact drivers_getDesc hget

end IntrAlloc

/-! ## §2 — the calls -/

namespace Served

open EspIntrDrivers (OwnTable)

variable {w : Served}

/-- A call that frees nothing. -/
theorem ownTable_next (w : Served) (c : AllocCall) (hfree : ∀ h, c ≠ .free h) :
    OwnTable w.alloc.drivers (w.next c).alloc.drivers := by
  cases c with
  | alloc fails r keep =>
    show OwnTable _ (w.after (w.alloc.espIntrAllocIntrstatus fails r) _).alloc.drivers
    cases h : w.alloc.espIntrAllocIntrstatus fails r with
    | none => exact ⟨rfl, rfl⟩
    | some res => exact IntrAlloc.ownTable_alloc h
  | free h => exact absurd rfl (hfree h)
  | enable h =>
    cases h with
    | none => exact ⟨rfl, rfl⟩
    | some h =>
      show OwnTable _ (w.alloc.espIntrEnable (some h)).2.drivers
      rw [(espIntrEnable_same w.alloc h).2.1, (setDisabled_within w.alloc h false).2.1]
      exact ⟨rfl, rfl⟩
  | disable h =>
    show OwnTable _ (w.after (w.alloc.espIntrDisable h) _).alloc.drivers
    cases hs : w.alloc.espIntrDisable h with
    | none => exact ⟨rfl, rfl⟩
    | some res =>
      show OwnTable _ res.2.drivers
      rw [drivers_disable hs]
      exact ⟨rfl, rfl⟩
  | markShared fails n cpu iram =>
    show OwnTable _ (w.alloc.setFlags fails n cpu _).2.drivers
    rw [IntrAlloc.drivers_setFlags]
    exact ⟨rfl, rfl⟩
  | reserve fails n cpu =>
    show OwnTable _ (w.alloc.setFlags fails n cpu _).2.drivers
    rw [IntrAlloc.drivers_setFlags]
    exact ⟨rfl, rfl⟩
  | noniramDisable =>
    show OwnTable _ (w.after w.alloc.espIntrNoniramDisable _).alloc.drivers
    unfold IntrAlloc.espIntrNoniramDisable
    dsimp only
    split <;> exact ⟨rfl, rfl⟩
  | noniramEnable =>
    show OwnTable _ (w.after w.alloc.espIntrNoniramEnable _).alloc.drivers
    unfold IntrAlloc.espIntrNoniramEnable
    dsimp only
    split <;> exact ⟨rfl, rfl⟩

/-- No call touches the table of CPU 0. -/
theorem handlerPro_step (w : Served) (c : AllocCall) :
    (w.step c).alloc.drivers.handlerPro = w.alloc.drivers.handlerPro := by
  unfold Served.step
  split
  · rfl
  by_cases hfree : ∃ h, c = .free h
  · obtain ⟨h, rfl⟩ := hfree
    show (w.after (w.alloc.espIntrFree h) _).alloc.drivers.handlerPro = _
    cases hs : w.alloc.espIntrFree h with
    | none => rfl
    | some res => exact IntrAlloc.handlerPro_free hs
  · exact (ownTable_next w c fun h heq => hfree ⟨h, heq⟩).pro

/-- The call leaves each line that has allocations with one, so that `deassignfn` is not called. -/
def Stays (w : Served) : AllocCall → Prop
  | .free (some h) => ∀ a ∈ w.live, a.handle = h → ∃ b ∈ w.live, b.intno = a.intno ∧ b.handle ≠ h
  | _ => True

instance (w : Served) (c : AllocCall) : Decidable (w.Stays c) := by
  unfold Stays
  split
  · exact inferInstance
  · exact inferInstance

/-- **One call** that leaves no line without allocations comes to its end. -/
theorem Serves.undefined_step (h : w.Serves) {c : AllocCall} (hc : w.Proper c) (hstays : w.Stays c) :
    (w.step c).alloc.drivers.undefined = w.alloc.drivers.undefined := by
  have hnext : w.step c = w.next c := if_neg (ne_true_of_eq_false h.alive)
  rw [hnext]
  by_cases hfree : ∃ ho, c = .free ho
  · obtain ⟨ho, rfl⟩ := hfree
    cases ho with
    | none => rfl
    | some hd =>
      -- another allocation stays on the line, so its handler is not taken away
      obtain ⟨a, ha, _, rfl⟩ := hc
      obtain ⟨s', hs, _, hkeeps⟩ := h.free ha
      show (w.after (w.alloc.espIntrFree (some a.handle)) _).alloc.drivers.undefined = _
      rw [hs]
      exact congrArg EspIntrDrivers.undefined (hkeeps (hstays a ha rfl))
  · exact (ownTable_next w c fun ho heq => hfree ⟨ho, heq⟩).undefined

/-! ## §3 — runs -/

/-- **The allocator over every run of proper calls that leave no line without allocations**: no assertion
fails and every function returns, the list stays in order, a line has two users only if both share it, and
the handlers in the table are those of what is alive. -/
theorem allocations_lawful (mask : BitVec 32) (cs : List AllocCall)
    (h : Throughout (fun w c => w.Proper c ∧ w.Stays c) Served.step (new mask) cs) :
    Always (fun _ w => w.alloc.drivers.undefined = false ∧ w.Lawful) Served.step [] (new mask) cs := by
  refine always_of_throughout (I := fun _ (w : Served) => w.alloc.drivers.undefined = false ∧ w.Serves)
    ?_ ?_ cs [] _ ⟨rfl, serves_new mask⟩ h
  · rintro _ w ⟨hdefined, hw⟩
    exact ⟨hdefined, hw.lawful⟩
  · rintro _ w c ⟨hdefined, hw⟩ ⟨hproper, hstays⟩
    exact ⟨(hw.undefined_step hproper hstays).trans hdefined, hw.step hproper⟩

theorem someCalls_lawful :
    Always (fun _ w => w.alloc.drivers.undefined = false ∧ w.Lawful) Served.step [] (new 0) someCalls :=
  allocations_lawful 0 someCalls (by decide +kernel)

end Served

end Espmod.Intr
