/-
# Espmod.Intr.AllocChoice — which line an allocation gets

`get_available_int` takes the line that the source has already, or the one that the source is tied to;
otherwise it walks over all lines with three accumulators. Among the lines that can be used at all the
levels never fall from one line to the next, so that the accumulator for the level decides nothing but the
start: the walk ends at the first of the lines with the least rank, where an unshared line ranks behind
every shared one.
-/
import Espmod.Intr.Alloc
import Mathlib.Algebra.Group.Nat.Defs

namespace Espmod.Intr

open Espmod.Lib

/-! ## §1 — a descriptor that can be used -/

namespace IntrAlloc

variable {s : IntrAlloc} {r : Request} {d : VectorDesc} {cpu : Nat} {force : Option Nat}

/-- **What a usable descriptor is.** -/
structure Meets (s : IntrAlloc) (r : Request) (cpu : Nat) (force : Option Nat) (d : VectorDesc) : Prop where
  unreserved : (intDesc d.intno).cpuflag cpu ≠ .resvd
  special : (intDesc d.intno).cpuflag cpu = .special → force ≠ none
  level : r.has (intDesc d.intno).level = true
  type : r.has espIntrFlagEdge = true ∧ (intDesc d.intno).type ≠ .level ∨
    r.has espIntrFlagEdge = false ∧ (intDesc d.intno).type ≠ .edge
  available : d.flags.reserved = false ∧ d.flags.nonShared = false
  sharing : d.flags.shared = true → r.has espIntrFlagShared = true ∧
    d.flags.inIram = r.has espIntrFlagIram
  handler : d.flags.shared = false → s.intHasHandler d.intno cpu = false

/-- `is_vect_desc_usable` asserts that a line is not both shared and held, and then decides this. -/
theorem usable_iff (hflags : ¬ (d.flags.shared = true ∧ d.flags.nonShared = true)) :
    (s.isVectDescUsable d r cpu force = some true ↔ Meets s r cpu force d) ∧
      s.isVectDescUsable d r cpu force ≠ none := by
  unfold isVectDescUsable
  dsimp only
  split
  · next hc => exact ⟨⟨nofun, fun h => absurd hc h.unreserved⟩, nofun⟩
  split
  · next hc => exact ⟨⟨nofun, fun h => absurd hc.2 (h.special hc.1)⟩, nofun⟩
  split
  · next hc => exact ⟨⟨nofun, fun h => by rw [h.level] at hc; cases hc⟩, nofun⟩
  split
  · next hc =>
    refine ⟨⟨nofun, fun h => ?_⟩, nofun⟩
    rcases h.type with ⟨hedge, htype⟩ | ⟨hedge, htype⟩ <;> simp [hedge, htype] at hc
  split
  · next hc => exact ⟨⟨nofun, fun h => by rw [h.available.1] at hc; cases hc⟩, nofun⟩
  split
  · next hc => exact ⟨⟨nofun, fun h => by rw [h.available.2] at hc; cases hc⟩, nofun⟩
  next hresvd hspecial hlevel htype hreserved hnon =>
  have htypes : r.has espIntrFlagEdge = true ∧ (intDesc d.intno).type ≠ .level ∨
      r.has espIntrFlagEdge = false ∧ (intDesc d.intno).type ≠ .edge := by
    by_cases hedge : r.has espIntrFlagEdge = true
    · exact Or.inl ⟨hedge, fun ht => htype (Or.inl ⟨hedge, ht⟩)⟩
    · have hoff := Bool.eq_false_iff.mpr hedge
      exact Or.inr ⟨hoff, fun ht => htype (Or.inr ⟨hoff, ht⟩)⟩
  have hmeets : (d.flags.shared = true → r.has espIntrFlagShared = true ∧
      d.flags.inIram = r.has espIntrFlagIram) →
      (d.flags.shared = false → s.intHasHandler d.intno cpu = false) → Meets s r cpu force d :=
    fun hshare hhandler => ⟨hresvd, fun hs hf => hspecial ⟨hs, hf⟩, Bool.not_eq_false _ ▸ hlevel,
      htypes, ⟨Bool.eq_false_iff.mpr hreserved, Bool.eq_false_iff.mpr hnon⟩, hshare, hhandler⟩
  split
  · next hshared =>
    refine ⟨⟨fun h => hmeets (fun _ => ?_) fun hs => ?_, fun h => ?_⟩, nofun⟩
    · simpa using Option.some.inj h
    · rw [hshared] at hs
      cases hs
    · obtain ⟨hshare, hiram⟩ := h.sharing hshared
      simp [hshare, hiram]
  · next hshared =>
    have hoff := Bool.eq_false_iff.mpr hshared
    refine ⟨⟨fun h => hmeets (fun hs => absurd hs hshared) fun _ => ?_, fun h => ?_⟩, nofun⟩
    · simpa using Option.some.inj h
    · simp [h.handler hoff]

/-! ## §2 — the search for a source -/

/-- A search that asserts nothing false ends at a descriptor of the list that has the source. -/
theorem findDescForSource_some {source : Int} :
    ∀ {l : List VectorDesc}, (∀ d ∈ l, carries source cpu d ≠ none) →
      ∃ res, findDescForSource source cpu l = some res ∧
        ∀ d, res = some d → d ∈ l ∧ carries source cpu d = some true := by
  intro l hl
  induction l with
  | nil => exact ⟨none, rfl, fun _ hd => nomatch hd⟩
  | cons d l ih =>
    obtain ⟨b, hb⟩ := Option.ne_none_iff_exists'.mp (hl d List.mem_cons_self)
    unfold findDescForSource
    rw [hb]
    cases b with
    | true =>
      refine ⟨some d, rfl, ?_⟩
      rintro e ⟨⟩
      exact ⟨List.mem_cons_self, hb⟩
    | false =>
      obtain ⟨res, hres, hspec⟩ := ih fun e he => hl e (List.mem_cons_of_mem d he)
      exact ⟨res, hres, fun e he => ⟨List.mem_cons_of_mem d (hspec e he).1, (hspec e he).2⟩⟩

theorem cpu_of_carries {source : Int} (h : carries source cpu d = some true) : d.cpu = cpu := by
  unfold carries at h
  split at h
  · simp only [Option.some.injEq, decide_eq_true_eq] at h
    exact h.2.symm
  · split at h
    · next hcpu => exact hcpu
    · cases h

/-! ## §3 — the levels -/

/-- A line that can be allocated without being forced, for edges or for levels. -/
def Normal (edge : Bool) (x : Nat) : Prop :=
  (intDesc x).cpuflag xPortGetCoreID = .normal ∧ (intDesc x).type = if edge then .edge else .level

instance (edge : Bool) (x : Nat) : Decidable (Normal edge x) := inferInstanceAs (Decidable (_ ∧ _))

/-- Lines of one kind stand in the order of their levels. -/
theorem levels_sorted (edge : Bool) : (List.range 32).Pairwise fun x y =>
    Normal edge x → Normal edge y → (intDesc x).level ≤ (intDesc y).level := by
  revert edge
  decide

theorem type_of_normal :
    ∀ x < 32, (intDesc x).cpuflag xPortGetCoreID = .normal → (intDesc x).type ≠ .na := by
  decide

theorem intDesc_of_ge {x : Nat} (hx : ¬ x < 32) : intDesc x = .both 0 .na .resvd := by
  unfold intDesc
  rw [List.getD_eq_getElem?_getD, List.getElem?_eq_none (Nat.le_of_not_lt hx)]
  rfl

theorem level_lt (x : Nat) : (intDesc x).level < 9 := by
  by_cases hx : x < 32
  · have hall : ∀ x < 32, (intDesc x).level < 9 := by decide
    exact hall x hx
  · rw [intDesc_of_ge hx]
    decide

theorem Meets.lt (h : Meets s r xPortGetCoreID force d) : d.intno < 32 := by
  by_contra hge
  apply h.unreserved
  rw [intDesc_of_ge hge]
  rfl

theorem Meets.normal (h : Meets s r xPortGetCoreID none d) : Normal (r.has espIntrFlagEdge) d.intno := by
  have hflag : (intDesc d.intno).cpuflag xPortGetCoreID = .normal := by
    cases hf : (intDesc d.intno).cpuflag xPortGetCoreID with
    | normal => rfl
    | resvd => exact absurd hf h.unreserved
    | special => exact absurd rfl (h.special hf)
  have hna := type_of_normal d.intno h.lt hflag
  refine ⟨hflag, ?_⟩
  rcases h.type with ⟨hedge, hlevel⟩ | ⟨hedge, htype⟩
  · rw [hedge]
    cases ht : (intDesc d.intno).type with
    | level => exact absurd ht hlevel
    | edge => rfl
    | na => exact absurd ht hna
  · rw [hedge]
    cases ht : (intDesc d.intno).type with
    | level => rfl
    | edge => exact absurd ht htype
    | na => exact absurd ht hna

theorem Normal.level_le {edge : Bool} {x y : Nat} (hx : Normal edge x) (hy : Normal edge y)
    (hlt : y < 32) (hxy : x < y) : (intDesc x).level ≤ (intDesc y).level := by
  have hsorted := List.pairwise_iff_getElem.mp (levels_sorted edge) x y (by simp; omega)
    (by simpa using hlt) hxy
  simp only [List.getElem_range] at hsorted
  exact hsorted hx hy

/-! ## §4 — the walk over the lines -/

/-- The order among usable lines: a shared one by its entries, every other one behind. -/
def rank (r : Request) (d : VectorDesc) : Nat :=
  if r.has espIntrFlagShared = true ∧ d.flags.shared = true then d.sharedVecInfo.length else 2147483647

/-- **The first of the least**, among the numbers below `n` that meet a condition. -/
structure Least (P : Nat → Prop) (rank : Nat → Nat) (n : Nat) (best : Option Nat) : Prop where
  empty : best = none → ∀ x < n, ¬ P x
  least : ∀ x, best = some x → P x ∧ x < n ∧
    ∀ y < n, P y → rank x ≤ rank y ∧ (rank y ≤ rank x → x ≤ y)

/-- A number that does not meet it. -/
theorem Least.skip {P : Nat → Prop} {rank : Nat → Nat} {n : Nat} {best : Option Nat}
    (h : Least P rank n best) (hn : ¬ P n) : Least P rank (n + 1) best := by
  refine ⟨fun hnone x hx hp => ?_, fun x hbest => ?_⟩
  · rcases Nat.lt_succ_iff_lt_or_eq.mp hx with hx | rfl
    · exact h.empty hnone x hx hp
    · exact hn hp
  · obtain ⟨hpx, hlt, hleast⟩ := h.least x hbest
    refine ⟨hpx, Nat.lt_succ_of_lt hlt, fun y hy hp => ?_⟩
    rcases Nat.lt_succ_iff_lt_or_eq.mp hy with hy | rfl
    · exact hleast y hy hp
    · exact absurd hp hn

/-- A number that meets it: it is taken when it comes first or ranks strictly lower. -/
theorem Least.next {P : Nat → Prop} {rank : Nat → Nat} {n : Nat} {best : Option Nat}
    (h : Least P rank n best) (hn : P n) :
    Least P rank (n + 1)
      (match best with
        | none => some n
        | some x => if rank n < rank x then some n else some x) := by
  cases best with
  | none =>
    refine ⟨nofun, ?_⟩
    rintro _ ⟨⟩
    refine ⟨hn, Nat.lt_succ_self n, fun y hy hp => ?_⟩
    rcases Nat.lt_succ_iff_lt_or_eq.mp hy with hy | rfl
    · exact absurd hp (h.empty rfl y hy)
    · exact ⟨Nat.le_refl _, fun _ => Nat.le_refl _⟩
  | some x =>
    obtain ⟨hpx, hlt, hleast⟩ := h.least x rfl
    by_cases hrank : rank n < rank x
    · dsimp only
      rw [if_pos hrank]
      refine ⟨nofun, ?_⟩
      rintro _ ⟨⟩
      refine ⟨hn, Nat.lt_succ_self n, fun y hy hp => ?_⟩
      rcases Nat.lt_succ_iff_lt_or_eq.mp hy with hy | rfl
      · have hxy := (hleast y hy hp).1
        exact ⟨by omega, fun hle => by omega⟩
      · exact ⟨Nat.le_refl _, fun _ => Nat.le_refl _⟩
    · dsimp only
      rw [if_neg hrank]
      refine ⟨nofun, ?_⟩
      rintro _ ⟨⟩
      refine ⟨hpx, Nat.lt_succ_of_lt hlt, fun y hy hp => ?_⟩
      rcases Nat.lt_succ_iff_lt_or_eq.mp hy with hy | rfl
      · exact hleast y hy hp
      · exact ⟨Nat.le_of_not_lt hrank, fun _ => Nat.le_of_lt hlt⟩

/-- A line that can be used without being forced. -/
def Usable (s : IntrAlloc) (r : Request) (x : Nat) : Prop :=
  Meets s r xPortGetCoreID none (s.descOrEmpty x xPortGetCoreID)

/-- The accumulators belong to the best line so far. -/
structure Tracks (s : IntrAlloc) (r : Request) (b : Best) : Prop where
  none : b.best = none → b.level = 9 ∧ b.sharedCt = 2147483647
  some : ∀ x, b.best = some x →
    b.level = (intDesc x).level ∧ b.sharedCt = rank r (s.descOrEmpty x xPortGetCoreID)

theorem descOrEmpty_intno (x cpu : Nat) : (s.descOrEmpty x cpu).intno = x := by
  unfold descOrEmpty
  cases h : s.findDescForInt x cpu with
  | none => rfl
  | some d => exact congrArg Prod.snd (FirstMatch.mem_of_find h).2

theorem Usable.normal {x : Nat} (h : Usable s r x) : Normal (r.has espIntrFlagEdge) x := by
  have hnormal := Meets.normal h
  rwa [descOrEmpty_intno] at hnormal

theorem Usable.lt {x : Nat} (h : Usable s r x) : x < 32 := by
  have hlt := Meets.lt h
  rwa [descOrEmpty_intno] at hlt

/-- No line has more entries than an `int` counts. -/
def Counted (s : IntrAlloc) : Prop :=
  ∀ x, (s.descOrEmpty x xPortGetCoreID).sharedVecInfo.length ≤ 2147483647

theorem rank_le (hcount : Counted s) (x : Nat) :
    rank r (s.descOrEmpty x xPortGetCoreID) ≤ 2147483647 := by
  unfold rank
  split
  · exact hcount x
  · exact Nat.le_refl _

/-- The first line that can be used is taken. -/
theorem consider_first {b : Best} {x : Nat} (htracks : Tracks s r b) (hnone : b.best = none) :
    (b.consider r x (s.descOrEmpty x xPortGetCoreID)).best = some x ∧
      Tracks s r (b.consider r x (s.descOrEmpty x xPortGetCoreID)) := by
  obtain ⟨hlevel, hct⟩ := htracks.none hnone
  have hlt := level_lt x
  have hbetter : b.level > (intDesc x).level := by omega
  unfold Best.consider
  dsimp only
  split
  · next hshared =>
    split
    · next hd =>
      rw [if_pos (Or.inr hbetter)]
      refine ⟨rfl, nofun, ?_⟩
      rintro _ ⟨⟩
      exact ⟨rfl, (if_pos ⟨hshared, hd⟩).symm⟩
    · next hd =>
      refine ⟨rfl, nofun, ?_⟩
      rintro _ ⟨⟩
      exact ⟨rfl, hct.trans (if_neg fun h => hd h.2).symm⟩
  · next hshared =>
    refine ⟨rfl, nofun, ?_⟩
    rintro _ ⟨⟩
    exact ⟨rfl, hct.trans (if_neg fun h => hshared h.1).symm⟩

/-- A later one is taken if its rank is lower: its level is not. -/
theorem consider_later {b : Best} {x y : Nat} (hcount : Counted s) (htracks : Tracks s r b)
    (hy : b.best = some y) (hlevel : (intDesc y).level ≤ (intDesc x).level) :
    (b.consider r x (s.descOrEmpty x xPortGetCoreID)).best =
        (if rank r (s.descOrEmpty x xPortGetCoreID) < rank r (s.descOrEmpty y xPortGetCoreID)
          then some x else some y) ∧
      Tracks s r (b.consider r x (s.descOrEmpty x xPortGetCoreID)) := by
  obtain ⟨hbl, hct⟩ := htracks.some y hy
  have hworse : ¬ b.level > (intDesc x).level := by omega
  have hsome : b.best ≠ none := by
    rw [hy]
    exact nofun
  unfold Best.consider
  dsimp only
  split
  · next hshared =>
    split
    · next hd =>
      have hrank : rank r (s.descOrEmpty x xPortGetCoreID) =
          (s.descOrEmpty x xPortGetCoreID).sharedVecInfo.length := if_pos ⟨hshared, hd⟩
      rw [hrank, ← hct]
      by_cases hless : (s.descOrEmpty x xPortGetCoreID).sharedVecInfo.length < b.sharedCt
      · rw [if_pos (Or.inl hless), if_pos hless]
        refine ⟨rfl, nofun, ?_⟩
        rintro _ ⟨⟩
        exact ⟨rfl, hrank.symm⟩
      · rw [if_neg (not_or.mpr ⟨hless, hworse⟩), if_neg hless]
        exact ⟨hy, htracks⟩
    · next hd =>
      have hrank : rank r (s.descOrEmpty x xPortGetCoreID) = 2147483647 := if_neg fun h => hd h.2
      rw [hrank, if_neg (Nat.not_lt.mpr (rank_le hcount y))]
      exact ⟨hy, htracks⟩
  · next hshared =>
    have hrank : ∀ z, rank r (s.descOrEmpty z xPortGetCoreID) = 2147483647 :=
      fun z => if_neg fun h => hshared h.1
    rw [hrank, hrank, if_neg (Nat.lt_irrefl _)]
    exact ⟨hy, htracks⟩

/-- **The walk**: when no assertion fails, it ends at the first usable line of the least rank. -/
theorem walk_least (hflags : ∀ x, ¬ ((s.descOrEmpty x xPortGetCoreID).flags.shared = true ∧
      (s.descOrEmpty x xPortGetCoreID).flags.nonShared = true)) (hcount : Counted s) (n : Nat) (hn : n ≤ 32) :
    ∃ b, (List.range n).foldlM (s.tryLine r xPortGetCoreID) .start = some b ∧ Tracks s r b ∧
      Least (Usable s r) (fun x => rank r (s.descOrEmpty x xPortGetCoreID)) n b.best := by
  induction n with
  | zero =>
    refine ⟨.start, rfl, ⟨fun _ => ⟨rfl, rfl⟩, nofun⟩, ⟨fun _ x hx => ?_, nofun⟩⟩
    exact absurd hx (Nat.not_lt_zero x)
  | succ n ih =>
    obtain ⟨b, hb, htracks, hleast⟩ := ih (Nat.le_of_succ_le hn)
    have hloop : (List.range (n + 1)).foldlM (s.tryLine r xPortGetCoreID) .start =
        s.tryLine r xPortGetCoreID b n := by
      rw [List.range_succ, List.foldlM_append, hb]
      simp
    rw [hloop]
    obtain ⟨husable, hassert⟩ := @usable_iff s r _ xPortGetCoreID none (hflags n)
    obtain ⟨u, hu⟩ := Option.ne_none_iff_exists'.mp hassert
    unfold tryLine
    dsimp only
    rw [hu]
    cases u with
    | false =>
      have hnot : ¬ Usable s r n := fun hn => by
        rw [husable.mpr hn] at hu
        cases hu
      exact ⟨b, rfl, htracks, hleast.skip hnot⟩
    | true =>
      have hyes : Usable s r n := husable.mp hu
      refine ⟨_, rfl, ?_⟩
      cases hbest : b.best with
      | none =>
        obtain ⟨hfirst, hnew⟩ := consider_first (x := n) htracks hbest
        rw [hfirst]
        rw [hbest] at hleast
        exact ⟨hnew, hleast.next hyes⟩
      | some y =>
        obtain ⟨hy, hlt, _⟩ := hleast.least y hbest
        obtain ⟨hlater, hnew⟩ := consider_later hcount htracks hbest
          (hy.normal.level_le hyes.normal hn hlt)
        rw [hlater]
        rw [hbest] at hleast
        exact ⟨hnew, hleast.next hyes⟩

/-! ## §5 — the choice -/

/-- **What `get_available_int` returns**, given that no assertion fails. -/
structure Chosen (s : IntrAlloc) (r : Request) (force : Option Nat) (res : Option Nat) : Prop where
  /-- the line of the source -/
  found : ∀ d, findDescForSource r.source xPortGetCoreID s.vectorDescHead = some (some d) → ∀ n,
    res = some n ↔ n = d.intno ∧ (force = none ∨ force = some n) ∧ Meets s r xPortGetCoreID force d
  /-- the line to which the source is tied -/
  forced : findDescForSource r.source xPortGetCoreID s.vectorDescHead = some none → ∀ x, force = some x →
    ∀ n, res = some n ↔ n = x ∧ Meets s r xPortGetCoreID force (s.descOrEmpty x xPortGetCoreID)
  /-- the best line -/
  walked : findDescForSource r.source xPortGetCoreID s.vectorDescHead = some none → force = none →
    Least (Usable s r) (fun x => rank r (s.descOrEmpty x xPortGetCoreID)) 32 res

theorem getAvailableInt_chosen (hlevels : r.flags &&& espIntrFlagLevelmask ≠ 0)
    (hflags : ∀ x, ¬ ((s.descOrEmpty x xPortGetCoreID).flags.shared = true ∧
      (s.descOrEmpty x xPortGetCoreID).flags.nonShared = true))
    (hdescs : ∀ d ∈ s.vectorDescHead, d.cpu = xPortGetCoreID →
      s.descOrEmpty d.intno xPortGetCoreID = d)
    (hcarry : ∀ d ∈ s.vectorDescHead, carries r.source xPortGetCoreID d ≠ none) (hcount : Counted s) :
    ∃ res, s.getAvailableInt r xPortGetCoreID force = some res ∧ Chosen s r force res := by
  obtain ⟨res, hres, hspec⟩ := findDescForSource_some hcarry
  unfold getAvailableInt
  simp only [if_neg hlevels, hres, Option.bind_eq_bind, Option.bind_some]
  cases res with
  | some d =>
    dsimp only
    obtain ⟨hmem, hcarries⟩ := hspec d rfl
    have hno := hflags d.intno
    rw [hdescs d hmem (cpu_of_carries hcarries)] at hno
    obtain ⟨husable, hassert⟩ := @usable_iff s r d xPortGetCoreID force hno
    obtain ⟨u, hu⟩ := Option.ne_none_iff_exists'.mp hassert
    have hnone : findDescForSource r.source xPortGetCoreID s.vectorDescHead ≠ some none := by
      rw [hres]
      exact nofun
    by_cases hforce : force ≠ none ∧ force ≠ some d.intno
    · -- another line is forced
      rw [if_pos hforce]
      refine ⟨none, rfl, ⟨fun e he n => ?_, fun h => absurd h hnone, fun h => absurd h hnone⟩⟩
      obtain rfl : d = e := Option.some.inj (Option.some.inj (hres.symm.trans he))
      refine ⟨nofun, ?_⟩
      rintro ⟨rfl, hf | hf, _⟩
      · exact absurd hf hforce.1
      · exact absurd hf hforce.2
    · rw [if_neg hforce, hu]
      have hfits : force = none ∨ force = some d.intno := by
        by_cases hf : force = none
        · exact Or.inl hf
        · exact Or.inr (not_not.mp fun hd => hforce ⟨hf, hd⟩)
      refine ⟨if u then some d.intno else none, by cases u <;> rfl,
        ⟨fun e he n => ?_, fun h => absurd h hnone, fun h => absurd h hnone⟩⟩
      obtain rfl : d = e := Option.some.inj (Option.some.inj (hres.symm.trans he))
      cases u with
      | true =>
        constructor
        · rintro ⟨⟩
          exact ⟨rfl, hfits, husable.mp hu⟩
        · rintro ⟨rfl, _, _⟩
          rfl
      | false =>
        refine ⟨nofun, ?_⟩
        rintro ⟨_, _, hmeets⟩
        rw [husable.mpr hmeets] at hu
        cases hu
  | none =>
    dsimp only
    have hsome : ∀ d, findDescForSource r.source xPortGetCoreID s.vectorDescHead ≠ some (some d) := by
      intro d
      rw [hres]
      exact nofun
    cases force with
    | some x =>
      dsimp only
      obtain ⟨husable, hassert⟩ := @usable_iff s r _ xPortGetCoreID (some x) (hflags x)
      obtain ⟨u, hu⟩ := Option.ne_none_iff_exists'.mp hassert
      rw [hu]
      refine ⟨if u then some x else none, by cases u <;> rfl,
        ⟨fun d hd => absurd hd (hsome d), fun _ y hy n => ?_, fun _ hf => nomatch hf⟩⟩
      obtain rfl : x = y := Option.some.inj hy
      cases u with
      | true =>
        constructor
        · rintro ⟨⟩
          exact ⟨rfl, husable.mp hu⟩
        · rintro ⟨rfl, _⟩
          rfl
      | false =>
        refine ⟨nofun, ?_⟩
        rintro ⟨_, hmeets⟩
        rw [husable.mpr hmeets] at hu
        cases hu
    | none =>
      dsimp only
      obtain ⟨b, hb, _, hleast⟩ := walk_least (r := r) hflags hcount 32 (Nat.le_refl 32)
      rw [hb]
      refine ⟨b.best, rfl, ⟨fun d hd => absurd hd (hsome d), ?_, fun _ _ => hleast⟩⟩
      intro _ x hx
      cases hx

/-- A line that is chosen can be used. -/
theorem Chosen.meets {res : Option Nat} (h : Chosen s r force res)
    (hdescs : ∀ d ∈ s.vectorDescHead, d.cpu = xPortGetCoreID →
      s.descOrEmpty d.intno xPortGetCoreID = d)
    (hcarry : ∀ d ∈ s.vectorDescHead, carries r.source xPortGetCoreID d ≠ none) {n : Nat}
    (hn : res = some n) : Meets s r xPortGetCoreID force (s.descOrEmpty n xPortGetCoreID) := by
  obtain ⟨found, hfound, hspec⟩ := findDescForSource_some hcarry
  cases found with
  | some d =>
    obtain ⟨rfl, _, hmeets⟩ := (h.found d hfound n).mp hn
    obtain ⟨hmem, hcarries⟩ := hspec d rfl
    rw [hdescs d hmem (cpu_of_carries hcarries)]
    exact hmeets
  | none =>
    cases force with
    | some x =>
      obtain ⟨rfl, hmeets⟩ := (h.forced hfound x rfl n).mp hn
      exact hmeets
    | none => exact ((h.walked hfound rfl).least n hn).1

end IntrAlloc

/-- A request that has been given its levels names some. -/
theorem Request.withLevels_levels (r : Request) : r.withLevels.flags &&& espIntrFlagLevelmask ≠ 0 := by
  have hword : ∀ w : BitVec 32, w.getLsbD 1 = true → (r.flags ||| w) &&& espIntrFlagLevelmask ≠ 0 := by
    intro w hw hzero
    have hbit : ((r.flags ||| w) &&& espIntrFlagLevelmask).getLsbD 1 = (0 : BitVec 32).getLsbD 1 :=
      congrArg (fun v => BitVec.getLsbD v 1) hzero
    rw [BitVec.getLsbD_and, BitVec.getLsbD_or, hw, Bool.or_true] at hbit
    cases hbit
  unfold Request.withLevels
  split
  · split
    · exact hword _ rfl
    · exact hword _ rfl
  · next hlevels => exact hlevels

/-- Giving it levels changes no other bit. -/
theorem Request.withLevels_has (r : Request) {bit : Nat} (hbit : 8 ≤ bit) :
    r.withLevels.has bit = r.has bit := by
  have hword : ∀ w : BitVec 32, w.toNat < 256 → (r.flags ||| w).getLsbD bit = r.flags.getLsbD bit := by
    intro w hw
    have hpow : 2 ^ 8 ≤ 2 ^ bit := Nat.pow_le_pow_right Nat.two_pos hbit
    have hclear : w.getLsbD bit = false := Nat.testBit_lt_two_pow (Nat.lt_of_lt_of_le hw hpow)
    rw [BitVec.getLsbD_or, hclear, Bool.or_false]
  unfold Request.withLevels
  split
  · split
    · exact hword _ (by decide)
    · exact hword _ (by decide)
  · rfl

end Espmod.Intr
