/-
# Espmod.Flash.RangeTable — range tables of any alignment and size

`addrange` takes ranges of any start and length. What `getrange` accepts is told by their bounds, but
`rangeinit` counts only whole sectors: the addresses after the last whole sector of a range have the
sector number of the next range, or one past the array. So the table is right exactly when all lengths
are multiples of a sector (`range_table`), and none is the whole address space, whose length is taken
for 0.
-/
import Espmod.Flash.Layout

namespace Espmod.Flash

/-! ## §1 — the table and what is asked of it -/

/-- The table after `addrange` for each of the ranges and `rangeinit`, which allocates no sector where it
reports an error. -/
def rangeTable (cs : List (Nat × Nat)) : Layout :=
  match rangeinit (declare cs) with
  | some L => L
  | none => ⟨(secstarts 0 (declare cs)).1, 0⟩

/-- The addresses of a range. -/
def Covers (c : Nat × Nat) (addr : Nat) : Prop := c.1 ≤ addr ∧ addr ≤ c.2

/-- How many of the ranges start below this one. -/
def rank (cs : List (Nat × Nat)) (c : Nat × Nat) : Nat := cs.countP fun d => d.1 < c.1

/-- The table finds every address, in the order of the ranges, and its sector and page numbers are inside
the arrays and belong to one range and one page. -/
structure Layout.Right (L : Layout) (cs : List (Nat × Nat)) : Prop where
  getrange : ∀ addr r, L.getrange addr = some r ↔ ∃ c ∈ cs, rank cs c = r ∧ Covers c addr
  sector : ∀ addr r, L.getrange addr = some r → L.secaddr r addr < L.seccnt
  page : ∀ addr r, L.getrange addr = some r → L.pageaddr r addr < 16 * L.seccnt
  apart : ∀ a b r r', L.getrange a = some r → L.getrange b = some r' → r ≠ r' →
    L.secaddr r a ≠ L.secaddr r' b
  pages : ∀ a b r, L.getrange a = some r → L.getrange b = some r →
    (L.pageaddr r a = L.pageaddr r b ↔
      (a - (L.row r).rangestart) / 256 = (b - (L.row r).rangestart) / 256)

/-- A length that `rangeinit` counts right. -/
def WholeSectors (c : Nat × Nat) : Prop := (c.2 + 1 - c.1) % 4096 = 0 ∧ c.2 + 1 - c.1 < 2 ^ 32

/-! ## §2 — the loop of `rangeinit` -/

variable {cs rs : List (Nat × Nat)} {n r k : Nat} {R : Range} {a : Nat}

theorem rangeTable_eq (cs : List (Nat × Nat)) :
    rangeTable cs = ⟨(secstarts 0 (declare cs)).1, (secstarts 0 (declare cs)).2⟩ := by
  unfold rangeTable rangeinit
  by_cases hnil : declare cs = []
  · rw [if_pos hnil, hnil]
    rfl
  · rw [if_neg hnil]
    by_cases hzero : (secstarts 0 (declare cs)).2 = 0
    · simp only [hzero, if_true]
    · simp only [hzero, if_false]

/-- The bounds are copied. -/
theorem secstarts_map : ∀ (rs : List (Nat × Nat)) (n : Nat),
    (secstarts n rs).1.map (fun R => (R.rangestart, R.rangeend)) = rs
  | [], _ => rfl
  | (s, e) :: rs, n => by
    simp only [secstarts, List.map_cons, secstarts_map rs (n + thissecsize s e)]

/-- The numbers of the next range begin where those of this one end. -/
theorem secstarts_next : ∀ (rs : List (Nat × Nat)) (n k : Nat) (R : Range),
    (secstarts n rs).1[k]? = some R →
      R.secstart + thissecsize R.rangestart R.rangeend =
        match (secstarts n rs).1[k + 1]? with
        | some R' => R'.secstart
        | none => (secstarts n rs).2 := by
  intro rs
  induction rs with
  | nil => intro n k R h; simp [secstarts] at h
  | cons x rs ih =>
    obtain ⟨s, e⟩ := x
    intro n k R h
    cases k with
    | zero =>
      simp only [secstarts, List.getElem?_cons_zero, Option.some.injEq] at h
      subst h
      cases rs with
      | nil => rfl
      | cons y rs => rfl
    | succ k =>
      simp only [secstarts, List.getElem?_cons_succ] at h ⊢
      exact ih _ k R h

/-- The numbers do not decrease, and the total is past them all. -/
theorem secstarts_mono : ∀ (rs : List (Nat × Nat)) (n : Nat),
    n ≤ (secstarts n rs).2 ∧
      (∀ R ∈ (secstarts n rs).1, n ≤ R.secstart ∧
        R.secstart + thissecsize R.rangestart R.rangeend ≤ (secstarts n rs).2) ∧
      (secstarts n rs).1.Pairwise fun R R' =>
        R.secstart + thissecsize R.rangestart R.rangeend ≤ R'.secstart := by
  intro rs
  induction rs with
  | nil => intro n; simp [secstarts]
  | cons x rs ih =>
    obtain ⟨s, e⟩ := x
    intro n
    obtain ⟨hn, hall, hpair⟩ := ih (n + thissecsize s e)
    simp only [secstarts]
    refine ⟨by omega, ?_, List.pairwise_cons.mpr ⟨fun R hR => (hall R hR).1, hpair⟩⟩
    intro R hR
    rcases List.mem_cons.mp hR with rfl | hR
    · exact ⟨Nat.le_refl n, hn⟩
    · have h := hall R hR
      omega

/-! ## §3 — `getrange` -/

/-- The place of a range in a sorted table is its rank. -/
theorem rank_of_sorted : ∀ {ds : List (Nat × Nat)}, (ds.Pairwise fun y z => y.1 < z.1) →
    ∀ {k : Nat} {c : Nat × Nat}, ds[k]? = some c → rank ds c = k := by
  intro ds
  induction ds with
  | nil => intro _ k c h; simp at h
  | cons d ds ih =>
    intro hs k c h
    obtain ⟨hhead, htail⟩ := List.pairwise_cons.mp hs
    unfold rank at ih ⊢
    cases k with
    | zero =>
      obtain rfl : d = c := by simpa using h
      rw [List.countP_eq_zero]
      intro e he
      rcases List.mem_cons.mp he with rfl | he
      · simp
      · have hlt := hhead e he
        simp only [decide_eq_true_eq]
        omega
    | succ k =>
      have hk : ds[k]? = some c := by simpa using h
      have hlt := hhead c (List.mem_of_getElem? hk)
      rw [List.countP_cons_of_pos (by simpa using hlt), ih htail hk]

/-- What the declarations come to: the table in order. -/
structure Tabled (cs : List (Nat × Nat)) (L : Layout) : Prop where
  perm : (L.ranges.map fun R => (R.rangestart, R.rangeend)).Perm cs
  sorted : L.ranges.Pairwise fun R R' => R.rangeend < R'.rangestart
  bounds : ∀ R ∈ L.ranges, R.rangestart < R.rangeend ∧ R.rangeend < 2 ^ 32
  next : ∀ (k : Nat) (R : Range), L.ranges[k]? = some R →
    R.secstart + thissecsize R.rangestart R.rangeend =
      match L.ranges[k + 1]? with
      | some R' => R'.secstart
      | none => L.seccnt
  fits : ∀ R ∈ L.ranges, R.secstart + thissecsize R.rangestart R.rangeend ≤ L.seccnt
  apart : L.ranges.Pairwise fun R R' =>
    R.secstart + thissecsize R.rangestart R.rangeend ≤ R'.secstart

theorem tabled_rangeTable (hlt : ∀ c ∈ cs, c.1 < c.2 ∧ c.2 < 2 ^ 32) (hd : cs.Pairwise Apart) :
    Tabled cs (rangeTable cs) := by
  obtain ⟨hperm, hsort⟩ := declare_sorted (fun c hc => (hlt c hc).1) hd
  obtain ⟨-, hfits, hapart⟩ := secstarts_mono (declare cs) 0
  have hmap := secstarts_map (declare cs) 0
  rw [rangeTable_eq]
  refine
    { perm := by rw [hmap]; exact hperm
      sorted := ?_
      bounds := fun R hR => ?_
      next := secstarts_next (declare cs) 0
      fits := fun R hR => (hfits R hR).2
      apart := hapart }
  · rw [← hmap, List.pairwise_map] at hsort
    exact hsort
  · refine hlt (R.rangestart, R.rangeend) (hperm.mem_iff.mp ?_)
    rw [← hmap]
    exact List.mem_map_of_mem (f := fun R : Range => (R.rangestart, R.rangeend)) hR

variable {L : Layout}

theorem Tabled.getrange_iff (h : Tabled cs L) :
    L.getrange a = some r ↔
      ∃ R, L.ranges[r]? = some R ∧ L.row r = R ∧ R.rangestart ≤ a ∧ a ≤ R.rangeend := by
  constructor
  · intro hr
    obtain ⟨hrow, hlo, hhi⟩ := Layout.getrange_spec hr
    exact ⟨L.row r, hrow, rfl, hlo, hhi⟩
  · rintro ⟨R, hR, -, hlo, hhi⟩
    have hfind := Layout.getrangeFrom_of_getElem? L.ranges 0 r R h.sorted
      (fun R hR => (h.bounds R hR).1.le) hR hlo hhi
    rwa [Nat.zero_add] at hfind

/-- **`getrange` finds the range of an address**, by its rank among the starts. -/
theorem Tabled.getrange_rank (h : Tabled cs L) (addr r : Nat) :
    L.getrange addr = some r ↔ ∃ c ∈ cs, rank cs c = r ∧ Covers c addr := by
  have hsorted : (L.ranges.map fun R => (R.rangestart, R.rangeend)).Pairwise fun y z => y.1 < z.1 := by
    rw [List.pairwise_map]
    refine h.sorted.imp_of_mem fun {R R'} hR _ hlt => ?_
    have := (h.bounds R hR).1
    dsimp only
    omega
  have hrank (c : Nat × Nat) :
      rank (L.ranges.map fun R => (R.rangestart, R.rangeend)) c = rank cs c := h.perm.countP_eq _
  rw [h.getrange_iff]
  constructor
  · rintro ⟨R, hR, -, hlo, hhi⟩
    have hc : (L.ranges.map fun R => (R.rangestart, R.rangeend))[r]? = some (R.rangestart, R.rangeend) := by
      rw [List.getElem?_map, hR]
      rfl
    refine ⟨(R.rangestart, R.rangeend), h.perm.mem_iff.mp (List.mem_of_getElem? hc), ?_, hlo, hhi⟩
    rw [← hrank]
    exact rank_of_sorted hsorted hc
  · rintro ⟨c, hc, hr, hlo, hhi⟩
    obtain ⟨k, hk⟩ := List.mem_iff_getElem?.mp (h.perm.mem_iff.mpr hc)
    obtain rfl : k = r := by
      rw [← hr, ← hrank]
      exact (rank_of_sorted hsorted hk).symm
    rw [List.getElem?_map, Option.map_eq_some_iff] at hk
    obtain ⟨R, hR, rfl⟩ := hk
    refine ⟨R, hR, ?_, hlo, hhi⟩
    rw [Layout.row, List.getD_eq_getElem?_getD, hR, Option.getD_some]

/-! ## §4 — sector and page numbers -/

/-- The numbers of a table of whole sectors are right. -/
theorem Tabled.right (h : Tabled cs L) (hwhole : ∀ c ∈ cs, WholeSectors c) : L.Right cs := by
  have hsize (R : Range) (hR : R ∈ L.ranges) :
      4096 * thissecsize R.rangestart R.rangeend = R.rangeend + 1 - R.rangestart := by
    have hc : (R.rangestart, R.rangeend) ∈ cs := h.perm.mem_iff.mp
      (List.mem_map_of_mem (f := fun R : Range => (R.rangestart, R.rangeend)) hR)
    obtain ⟨hmod, hlt⟩ := hwhole _ hc
    have hb := h.bounds R hR
    dsimp only at hmod hlt
    unfold thissecsize
    omega
  have hsec (a r : Nat) (R : Range) (hR : L.ranges[r]? = some R) (hrow : L.row r = R)
      (hlo : R.rangestart ≤ a) (hhi : a ≤ R.rangeend) :
      R.secstart ≤ L.secaddr r a ∧
        L.secaddr r a < R.secstart + thissecsize R.rangestart R.rangeend := by
    have hmem := List.mem_of_getElem? hR
    have hs := hsize R hmem
    rw [Layout.secaddr, hrow, Nat.shiftRight_eq_div_pow]
    omega
  have hlater (a b r r' : Nat) (ha : L.getrange a = some r) (hb : L.getrange b = some r')
      (hr : r < r') : L.secaddr r a < L.secaddr r' b := by
    obtain ⟨R, hR, hrow, hlo, hhi⟩ := h.getrange_iff.mp ha
    obtain ⟨R', hR', hrow', hlo', hhi'⟩ := h.getrange_iff.mp hb
    obtain ⟨hk, hget⟩ := List.getElem?_eq_some_iff.mp hR
    obtain ⟨hk', hget'⟩ := List.getElem?_eq_some_iff.mp hR'
    have hpair := List.pairwise_iff_getElem.mp h.apart r r' hk hk' hr
    rw [hget, hget'] at hpair
    have h₁ := hsec a r R hR hrow hlo hhi
    have h₂ := hsec b r' R' hR' hrow' hlo' hhi'
    omega
  have hsector (a r : Nat) (ha : L.getrange a = some r) : L.secaddr r a < L.seccnt := by
    obtain ⟨R, hR, hrow, hlo, hhi⟩ := h.getrange_iff.mp ha
    have h₁ := hsec a r R hR hrow hlo hhi
    have h₂ := h.fits R (List.mem_of_getElem? hR)
    omega
  refine
    { getrange := h.getrange_rank
      sector := hsector
      page := fun a r ha => ?_
      apart := fun a b r r' ha hb hne heq => ?_
      pages := fun a b r ha hb => ?_ }
  · have h₁ := hsector a r ha
    simp only [Layout.secaddr, Layout.pageaddr, Nat.shiftRight_eq_div_pow, Nat.shiftLeft_eq] at h₁ ⊢
    omega
  · rcases Nat.lt_or_gt_of_ne hne with hr | hr
    · have := hlater a b r r' ha hb hr
      omega
    · have := hlater b a r' r hb ha hr
      omega
  · simp only [Layout.pageaddr, Nat.shiftRight_eq_div_pow]
    omega

/-- The last address of a range whose length is not counted right is after its last sector. -/
theorem after_last_sector {c : Nat × Nat} (hlt : c.1 < c.2) (hword : c.2 < 2 ^ 32)
    (hnot : ¬ WholeSectors c) :
    thissecsize c.1 c.2 ≤ (c.2 - c.1) / 4096 ∧
      (c.2 + 1 - c.1 < 2 ^ 32 → (c.2 - c.1) / 4096 = thissecsize c.1 c.2) := by
  obtain ⟨s, e⟩ := c
  unfold WholeSectors at hnot
  unfold thissecsize
  dsimp only at hlt hword hnot ⊢
  omega

/-- A table that is right has counted all lengths right. -/
theorem Tabled.whole (h : Tabled cs L) (hright : L.Right cs) {c : Nat × Nat} (hc : c ∈ cs) :
    WholeSectors c := by
  obtain ⟨R, hmem, rfl⟩ := List.mem_map.mp (h.perm.mem_iff.mpr hc)
  obtain ⟨k, hR⟩ := List.mem_iff_getElem?.mp hmem
  have hrow {j : Nat} {R : Range} (hR : L.ranges[j]? = some R) : L.row j = R := by
    rw [Layout.row, List.getD_eq_getElem?_getD, hR, Option.getD_some]
  obtain ⟨hlt, hword⟩ := h.bounds R hmem
  by_contra hnot
  obtain ⟨hafter, hsmall⟩ := after_last_sector hlt hword hnot
  have hlast := h.getrange_iff.mpr ⟨R, hR, hrow hR, hlt.le, Nat.le_refl _⟩
  have hnumber : L.secaddr k R.rangeend = R.secstart + (R.rangeend - R.rangestart) / 4096 := by
    rw [Layout.secaddr, hrow hR, Nat.shiftRight_eq_div_pow]
  have hsector := hright.sector _ _ hlast
  have hnext := h.next k R hR
  dsimp only at hafter hsmall
  cases hR' : L.ranges[k + 1]? with
  | none =>
    rw [hR'] at hnext
    dsimp only at hnext
    omega
  | some R' =>
    rw [hR'] at hnext
    dsimp only at hnext
    obtain ⟨hk, hget⟩ := List.getElem?_eq_some_iff.mp hR
    obtain ⟨hk', hget'⟩ := List.getElem?_eq_some_iff.mp hR'
    have hgap := List.pairwise_iff_getElem.mp h.sorted k (k + 1) hk hk' (Nat.lt_succ_self k)
    rw [hget, hget'] at hgap
    obtain ⟨hlt', hword'⟩ := h.bounds R' (List.mem_of_getElem? hR')
    have hfirst := h.getrange_iff.mpr ⟨R', hR', hrow hR', Nat.le_refl _, hlt'.le⟩
    have hnumber' : L.secaddr (k + 1) R'.rangestart = R'.secstart := by
      rw [Layout.secaddr, hrow hR', Nat.sub_self, Nat.zero_shiftRight, Nat.add_zero]
    refine hright.apart _ _ _ _ hlast hfirst (Nat.ne_of_lt (Nat.lt_succ_self k)) ?_
    rw [hnumber, hnumber', ← hnext, hsmall (by omega)]

/-- **The range table is right exactly when every length is a number of sectors**, and is not the whole
address space. -/
theorem range_table (cs : List (Nat × Nat)) (hlt : ∀ c ∈ cs, c.1 < c.2 ∧ c.2 < 2 ^ 32)
    (hd : cs.Pairwise Apart) : (rangeTable cs).Right cs ↔ ∀ c ∈ cs, WholeSectors c :=
  ⟨fun hright _ hc => (tabled_rangeTable hlt hd).whole hright hc, (tabled_rangeTable hlt hd).right⟩

/-- Two ranges, the first one declared last, with starts inside a sector. -/
theorem range_table_two :
    (rangeTable [(0x20100, 0x210ff), (0x10, 0x200f)]).Right [(0x20100, 0x210ff), (0x10, 0x200f)] := by
  refine (range_table _ ?_ ?_).mpr ?_
  · decide
  · simp only [List.pairwise_cons, List.mem_singleton, forall_eq, List.not_mem_nil, false_implies,
      implies_true, List.Pairwise.nil, and_true]
    exact Or.inr (by decide)
  · simp only [List.mem_cons, List.not_mem_nil, or_false, forall_eq_or_imp, forall_eq]
    exact ⟨⟨by decide, by decide⟩, ⟨by decide, by decide⟩⟩

/-- A sector and a word more, and a sector behind it: the word is in the sector of the other range. -/
theorem sector_shared :
    (rangeTable [(0, 0x1003), (0x2000, 0x2fff)]).getrange 0x1000 = some 0 ∧
      (rangeTable [(0, 0x1003), (0x2000, 0x2fff)]).getrange 0x2000 = some 1 ∧
      (rangeTable [(0, 0x1003), (0x2000, 0x2fff)]).secaddr 0 0x1000 =
        (rangeTable [(0, 0x1003), (0x2000, 0x2fff)]).secaddr 1 0x2000 ∧
      ¬ (rangeTable [(0, 0x1003), (0x2000, 0x2fff)]).Right [(0, 0x1003), (0x2000, 0x2fff)] := by
  have hfirst : (rangeTable [(0, 0x1003), (0x2000, 0x2fff)]).getrange 0x1000 = some 0 := by decide
  have hsecond : (rangeTable [(0, 0x1003), (0x2000, 0x2fff)]).getrange 0x2000 = some 1 := by decide
  have hshared : (rangeTable [(0, 0x1003), (0x2000, 0x2fff)]).secaddr 0 0x1000 =
      (rangeTable [(0, 0x1003), (0x2000, 0x2fff)]).secaddr 1 0x2000 := by decide
  exact ⟨hfirst, hsecond, hshared, fun h => h.apart _ _ _ _ hfirst hsecond (by decide) hshared⟩

end Espmod.Flash
