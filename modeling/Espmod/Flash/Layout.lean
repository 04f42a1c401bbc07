/-
# Espmod.Flash.Layout — the range table of `cchanflash` and its address maps

`addrange` keeps the declared ranges in address order, `rangeinit` numbers their 4 kB sectors one
after the other, `getrange` finds the range of an address and the macros `SECADDR`, `PAGEADDR` and
`ADDRINPAGE` turn an address into a sector number, a page number and a word offset.

For ranges aligned to sectors the three maps are faithful: two accepted addresses share a sector
number exactly when they lie in the same 4 kB block (`secaddr_eq_iff`), a page number exactly when
they lie in the same 256-byte page (`pageaddr_eq_iff`), and both numbers stay inside the arrays that
`rangeinit` allocates.
-/
import Mathlib.Tactic.Common
import Mathlib.Data.List.Basic
import Mathlib.Data.List.Induction
import Mathlib.Data.List.Pairwise
import Mathlib.Data.Nat.Bitwise

namespace Espmod.Flash

/-! ## §1 — declaring ranges -/

/-- One entry of the parallel vectors `rangestart`, `rangeend` and `secstart`. -/
structure Range where
  rangestart : Nat
  rangeend : Nat
  secstart : Nat
  deriving DecidableEq, Repr, Inhabited

/-- The table after `rangeinit`, with the number of sectors it allocated. -/
structure Layout where
  ranges : List Range
  seccnt : Nat
  deriving DecidableEq, Repr

/-- The insertion of `addrange`: in front of the first range that does not start below. -/
def insertRange (x : Nat × Nat) : List (Nat × Nat) → List (Nat × Nat)
  | [] => [x]
  | y :: ys => if x.1 > y.1 then y :: insertRange x ys else x :: y :: ys

/-- `cchanflash::addrange`. An overlap is reported but the range is inserted all the same. -/
def addrange (rs : List (Nat × Nat)) (rangestart rangeend : Nat) : List (Nat × Nat) :=
  if rangeend ≤ rangestart then rs else insertRange (rangestart, rangeend) rs

/-- `thissecsize`: unsigned 32-bit arithmetic, so the whole address space counts as nothing. -/
def thissecsize (rangestart rangeend : Nat) : Nat := (rangeend + 1 + 2 ^ 32 - rangestart) % 2 ^ 32 / 4096

/-- The loop of `rangeinit` over the declared ranges. -/
def secstarts : Nat → List (Nat × Nat) → List Range × Nat
  | seccnt, [] => ([], seccnt)
  | seccnt, (s, e) :: rs =>
    let (ranges, total) := secstarts (seccnt + thissecsize s e) rs
    (⟨s, e, seccnt⟩ :: ranges, total)

/-- `cchanflash::rangeinit`; `none` where it reports an error and leaves `secs` unallocated. -/
def rangeinit (rs : List (Nat × Nat)) : Option Layout :=
  if rs = [] then none
  else
    let (ranges, seccnt) := secstarts 0 rs
    if seccnt = 0 then none else some ⟨ranges, seccnt⟩

/-! ## §2 — finding an address -/

/-- The scan of `getrange`, from index `r` on. -/
def getrangeFrom (addr : Nat) : Nat → List Range → Option Nat
  | _, [] => none
  | r, R :: rs =>
    if addr < R.rangestart then none
    else if addr ≤ R.rangeend then some r
    else getrangeFrom addr (r + 1) rs

namespace Layout

/-- `cchanflash::getrange`, with `none` for `-1`. -/
def getrange (L : Layout) (addr : Nat) : Option Nat := getrangeFrom addr 0 L.ranges

/-- The vectors' entries at an index. -/
def row (L : Layout) (range : Nat) : Range := L.ranges.getD range default

/-- `SECADDR`. -/
def secaddr (L : Layout) (range addr : Nat) : Nat :=
  (L.row range).secstart + ((addr - (L.row range).rangestart) >>> 12)

/-- `PAGEADDR`. -/
def pageaddr (L : Layout) (range addr : Nat) : Nat :=
  ((L.row range).secstart <<< 4) + ((addr - (L.row range).rangestart) >>> 8)

/-- `ADDRINPAGE`: the subtraction binds tighter than the mask. -/
def addrinpage (L : Layout) (range addr : Nat) : Nat :=
  ((addr - (L.row range).rangestart) &&& 0xfc) >>> 2

end Layout

theorem getrangeFrom_some {addr : Nat} :
    ∀ {rs : List Range} {r r' : Nat}, getrangeFrom addr r rs = some r' →
      ∃ k R, r' = r + k ∧ rs[k]? = some R ∧ R.rangestart ≤ addr ∧ addr ≤ R.rangeend := by
  intro rs
  induction rs with
  | nil => intro r r' h; simp [getrangeFrom] at h
  | cons R rs ih =>
    intro r r' h
    simp only [getrangeFrom] at h
    split at h
    · simp at h
    · rename_i hlo
      split at h
      · rename_i hhi
        exact ⟨0, R, by simpa using h.symm, rfl, by omega, hhi⟩
      · obtain ⟨k, R', rfl, hk, hb⟩ := ih h
        exact ⟨k + 1, R', by omega, by simpa using hk, hb⟩

/-! ## §3 — sector-aligned tables -/

/-- Sectors of a range, by its bounds. -/
def Range.sectors (R : Range) : Nat := (R.rangeend + 1 - R.rangestart) / 4096

/-- A table of disjoint ranges in address order whose bounds are sector bounds and whose sectors are
numbered consecutively inside the allocated arrays. -/
structure Layout.Aligned (L : Layout) : Prop where
  sorted : L.ranges.Pairwise fun R R' =>
    R.rangeend < R'.rangestart ∧ R.secstart + R.sectors ≤ R'.secstart
  start : ∀ R ∈ L.ranges, R.rangestart % 4096 = 0
  stop : ∀ R ∈ L.ranges, (R.rangeend + 1) % 4096 = 0
  bounds : ∀ R ∈ L.ranges, R.rangestart < R.rangeend ∧ R.rangeend < 2 ^ 32
  fits : ∀ R ∈ L.ranges, R.secstart + R.sectors ≤ L.seccnt

namespace Layout

variable {L : Layout} {a b r r' : Nat}

/-- What `getrange` promises about the entry it names. -/
theorem getrange_spec (h : L.getrange a = some r) :
    L.ranges[r]? = some (L.row r) ∧ (L.row r).rangestart ≤ a ∧ a ≤ (L.row r).rangeend := by
  obtain ⟨k, R, hr, hk, hlo, hhi⟩ := getrangeFrom_some h
  have hrk : r = k := by omega
  subst hrk
  have hrow : L.row r = R := by simp [Layout.row, List.getD_eq_getElem?_getD, hk]
  rw [hrow]
  exact ⟨hk, hlo, hhi⟩

theorem row_mem (h : L.getrange a = some r) : L.row r ∈ L.ranges :=
  List.mem_of_getElem? (getrange_spec h).1

/-- The scan stops at the range that holds the address, wherever it stands in a sorted table. -/
theorem getrangeFrom_of_getElem? (rs : List Range) (r k : Nat) (R : Range)
    (hs : rs.Pairwise fun R R' => R.rangeend < R'.rangestart)
    (hb : ∀ R ∈ rs, R.rangestart ≤ R.rangeend)
    (hk : rs[k]? = some R) (hlo : R.rangestart ≤ a) (hhi : a ≤ R.rangeend) :
    getrangeFrom a r rs = some (r + k) := by
  induction rs generalizing r k with
  | nil => simp at hk
  | cons R₀ rs ih =>
    obtain ⟨hhead, htail⟩ := List.pairwise_cons.mp hs
    cases k with
    | zero =>
      simp only [List.getElem?_cons_zero, Option.some.injEq] at hk
      subst hk
      simp [getrangeFrom, Nat.not_lt.mpr hlo, hhi]
    | succ k =>
      simp only [List.getElem?_cons_succ] at hk
      have hmem : R ∈ rs := List.mem_of_getElem? hk
      have hlt := hhead R hmem
      have hR₀ := hb R₀ (by simp)
      have h1 : ¬ a < R₀.rangestart := by omega
      have h2 : ¬ a ≤ R₀.rangeend := by omega
      simp only [getrangeFrom, h1, h2, if_false]
      rw [ih (r + 1) k htail (fun R h => hb R (List.mem_cons_of_mem _ h)) hk]
      congr 1
      omega

variable (hL : L.Aligned)
include hL

theorem Aligned.getrange_of_row (hr : L.ranges[r]? = some (L.row r)) (hlo : (L.row r).rangestart ≤ a)
    (hhi : a ≤ (L.row r).rangeend) : L.getrange a = some r := by
  have hs := hL.sorted.imp (S := fun R R' => R.rangeend < R'.rangestart) fun h => h.1
  have := getrangeFrom_of_getElem? L.ranges 0 r (L.row r) hs
    (fun R hR => (hL.bounds R hR).1.le) hr hlo hhi
  simpa [getrange] using this

/-- The whole sector of an accepted address is accepted, in the same range. -/
theorem Aligned.getrange_sector (ha : L.getrange a = some r) (hab : a / 4096 = b / 4096) :
    L.getrange b = some r := by
  obtain ⟨hr, hlo, hhi⟩ := getrange_spec ha
  have hstart := hL.start _ (row_mem ha)
  have hstop := hL.stop _ (row_mem ha)
  exact hL.getrange_of_row hr (by omega) (by omega)

/-- Different ranges neither share addresses nor sector numbers. -/
theorem Aligned.row_lt_row (hr : L.ranges[r]? = some (L.row r)) (hr' : L.ranges[r']? = some (L.row r'))
    (hlt : r < r') : (L.row r).rangeend < (L.row r').rangestart ∧
      (L.row r).secstart + (L.row r).sectors ≤ (L.row r').secstart := by
  obtain ⟨h1, e1⟩ := List.getElem?_eq_some_iff.mp hr
  obtain ⟨h2, e2⟩ := List.getElem?_eq_some_iff.mp hr'
  have := List.pairwise_iff_getElem.mp hL.sorted r r' h1 h2 hlt
  rwa [e1, e2] at this

theorem Aligned.secaddr_lt (ha : L.getrange a = some r) : L.secaddr r a < L.seccnt := by
  obtain ⟨_, hlo, hhi⟩ := getrange_spec ha
  have hfits := hL.fits _ (row_mem ha)
  have hstart := hL.start _ (row_mem ha)
  have hstop := hL.stop _ (row_mem ha)
  simp only [secaddr, Range.sectors, Nat.shiftRight_eq_div_pow] at *
  omega

/-- A sector owns sixteen consecutive pages. -/
theorem Aligned.pageaddr_eq (ha : L.getrange a = some r) :
    L.pageaddr r a = L.secaddr r a * 16 + a / 256 % 16 := by
  obtain ⟨_, hlo, _⟩ := getrange_spec ha
  have hstart := hL.start _ (row_mem ha)
  simp only [pageaddr, secaddr, Nat.shiftRight_eq_div_pow, Nat.shiftLeft_eq]
  omega

theorem Aligned.pageaddr_lt (ha : L.getrange a = some r) : L.pageaddr r a < L.seccnt * 16 := by
  have hsec := hL.secaddr_lt ha
  have hpage := hL.pageaddr_eq ha
  omega

theorem Aligned.addrinpage_eq (ha : L.getrange a = some r) : L.addrinpage r a = a / 4 % 64 := by
  obtain ⟨_, hlo, _⟩ := getrange_spec ha
  have hstart := hL.start _ (row_mem ha)
  have hmask : ∀ x : Nat, (x &&& 0xfc) >>> 2 = x / 4 % 64 := by
    intro x
    rw [Nat.shiftRight_and_distrib, Nat.shiftRight_eq_div_pow]
    exact Nat.and_two_pow_sub_one_eq_mod (x / 2 ^ 2) 6
  rw [addrinpage, hmask]
  omega

/-- Sector numbers do not decrease along the table. -/
theorem Aligned.secaddr_lt_secaddr (ha : L.getrange a = some r) (hb : L.getrange b = some r')
    (hlt : r < r') : a / 4096 < b / 4096 ∧ L.secaddr r a < L.secaddr r' b := by
  obtain ⟨hr, hlo, hhi⟩ := getrange_spec ha
  obtain ⟨hr', hlo', hhi'⟩ := getrange_spec hb
  obtain ⟨hgap, hnum⟩ := hL.row_lt_row hr hr' hlt
  have hstart := hL.start _ (row_mem ha)
  have hstop := hL.stop _ (row_mem ha)
  have hstart' := hL.start _ (row_mem hb)
  simp only [secaddr, Range.sectors, Nat.shiftRight_eq_div_pow] at *
  omega

/-- **`SECADDR` separates sectors**: equal numbers exactly for addresses of one 4 kB block. -/
theorem Aligned.secaddr_eq_iff (ha : L.getrange a = some r) (hb : L.getrange b = some r') :
    L.secaddr r a = L.secaddr r' b ↔ a / 4096 = b / 4096 := by
  rcases Nat.lt_trichotomy r r' with hlt | rfl | hgt
  · have := hL.secaddr_lt_secaddr ha hb hlt
    omega
  · obtain ⟨_, hlo, _⟩ := getrange_spec ha
    obtain ⟨_, hlo', _⟩ := getrange_spec hb
    have hstart := hL.start _ (row_mem ha)
    simp only [secaddr, Nat.shiftRight_eq_div_pow]
    omega
  · have := hL.secaddr_lt_secaddr hb ha hgt
    omega

/-- **`PAGEADDR` separates pages**: equal numbers exactly for addresses of one 256-byte page. -/
theorem Aligned.pageaddr_eq_iff (ha : L.getrange a = some r) (hb : L.getrange b = some r') :
    L.pageaddr r a = L.pageaddr r' b ↔ a / 256 = b / 256 := by
  have hsec := hL.secaddr_eq_iff ha hb
  have hpa := hL.pageaddr_eq ha
  have hpb := hL.pageaddr_eq hb
  omega

/-- Both numbers follow the order of the addresses. -/
theorem Aligned.secaddr_le_iff (ha : L.getrange a = some r) (hb : L.getrange b = some r') :
    L.secaddr r a ≤ L.secaddr r' b ↔ a / 4096 ≤ b / 4096 := by
  rcases Nat.lt_trichotomy r r' with hlt | rfl | hgt
  · have := hL.secaddr_lt_secaddr ha hb hlt
    omega
  · obtain ⟨_, hlo, _⟩ := getrange_spec ha
    obtain ⟨_, hlo', _⟩ := getrange_spec hb
    have hstart := hL.start _ (row_mem ha)
    simp only [secaddr, Nat.shiftRight_eq_div_pow]
    omega
  · have := hL.secaddr_lt_secaddr hb ha hgt
    omega

theorem Aligned.pageaddr_le_iff (ha : L.getrange a = some r) (hb : L.getrange b = some r') :
    L.pageaddr r a ≤ L.pageaddr r' b ↔ a / 256 ≤ b / 256 := by
  have hsec := hL.secaddr_le_iff ha hb
  have hsec' := hL.secaddr_le_iff hb ha
  have hpa := hL.pageaddr_eq ha
  have hpb := hL.pageaddr_eq hb
  omega

end Layout

/-! ## §4 — `addrange` and `rangeinit` build aligned tables -/

/-- A range whose start and size are multiples of the sector size. -/
def SectorAligned (x : Nat × Nat) : Prop :=
  x.1 % 4096 = 0 ∧ (x.2 + 1) % 4096 = 0 ∧ x.1 < x.2 ∧ x.2 < 2 ^ 32

instance (x : Nat × Nat) : Decidable (SectorAligned x) := inferInstanceAs (Decidable (_ ∧ _))

/-- Two ranges without a common address. -/
def Apart (x y : Nat × Nat) : Prop := x.2 < y.1 ∨ y.2 < x.1

/-- The declaration phase: one `addrange` call per range. -/
def declare (cs : List (Nat × Nat)) : List (Nat × Nat) :=
  cs.foldl (fun rs c => addrange rs c.1 c.2) []

theorem insertRange_perm (x : Nat × Nat) (rs : List (Nat × Nat)) :
    (insertRange x rs).Perm (x :: rs) := by
  induction rs with
  | nil => exact List.Perm.refl _
  | cons z rs ih =>
    simp only [insertRange]
    split
    · exact (ih.cons z).trans (List.Perm.swap x z rs)
    · exact List.Perm.refl _

theorem mem_insertRange {x y : Nat × Nat} {rs : List (Nat × Nat)} :
    y ∈ insertRange x rs ↔ y = x ∨ y ∈ rs := by
  rw [(insertRange_perm x rs).mem_iff, List.mem_cons]

theorem insertRange_sorted {x : Nat × Nat} {rs : List (Nat × Nat)} (hx : x.1 < x.2)
    (hb : ∀ y ∈ rs, y.1 < y.2) (hapart : ∀ y ∈ rs, Apart x y)
    (hs : rs.Pairwise fun y z => y.2 < z.1) :
    (insertRange x rs).Pairwise fun y z => y.2 < z.1 := by
  induction rs with
  | nil => simp [insertRange]
  | cons z rs ih =>
    obtain ⟨hhead, htail⟩ := List.pairwise_cons.mp hs
    have hz := hb z (by simp)
    have hxz := hapart z (by simp)
    simp only [insertRange]
    split
    · rename_i hgt
      refine List.pairwise_cons.mpr ⟨fun y hy => ?_, ih (fun y h => hb y (by simp [h]))
        (fun y h => hapart y (by simp [h])) htail⟩
      rcases mem_insertRange.mp hy with rfl | hy
      · rcases hxz with h | h <;> omega
      · exact hhead y hy
    · rename_i hle
      have hxz' : x.2 < z.1 := by rcases hxz with h | h <;> omega
      refine List.pairwise_cons.mpr ⟨fun y hy => ?_, hs⟩
      rcases List.mem_cons.mp hy with rfl | hy
      · exact hxz'
      · have := hhead y hy; omega

/-- Declared ranges: the table holds exactly the given ranges, in address order. -/
theorem declare_sorted {cs : List (Nat × Nat)} (hlt : ∀ c ∈ cs, c.1 < c.2) (hd : cs.Pairwise Apart) :
    (declare cs).Perm cs ∧ (declare cs).Pairwise fun y z => y.2 < z.1 := by
  induction cs using List.reverseRecOn with
  | nil => simp [declare]
  | append_singleton cs c ih =>
    obtain ⟨hd, _, hnew⟩ := List.pairwise_append.mp hd
    obtain ⟨hperm, hsort⟩ := ih (fun c h => hlt c (by simp [h])) hd
    have hc := hlt c (by simp)
    have heq : declare (cs ++ [c]) = insertRange c (declare cs) := by
      simp [declare, addrange, Nat.not_le.mpr hc]
    rw [heq]
    refine ⟨?_, insertRange_sorted hc (fun y hy => ?_) (fun y hy => ?_) hsort⟩
    · exact (insertRange_perm c _).trans ((hperm.cons c).trans (List.perm_append_singleton c cs).symm)
    · exact hlt y (by simp [hperm.mem_iff.mp hy])
    · exact (hnew y (hperm.mem_iff.mp hy) c (by simp)).symm

/-- Below the full address space the sector count is the true one. -/
theorem thissecsize_eq {s e : Nat} (h : SectorAligned (s, e)) (hw : ¬ (s = 0 ∧ e + 1 = 2 ^ 32)) :
    thissecsize s e = (e + 1 - s) / 4096 := by
  obtain ⟨hs, he, hlt, hb⟩ := h
  simp only [thissecsize] at *
  omega

/-- The numbering loop: bounds are copied, numbers are consecutive, and the total is reached. -/
theorem secstarts_spec {rs : List (Nat × Nat)} :
    ∀ n, (∀ x ∈ rs, SectorAligned x ∧ ¬ (x.1 = 0 ∧ x.2 + 1 = 2 ^ 32)) →
      (rs.Pairwise fun y z => y.2 < z.1) →
      let p := secstarts n rs
      n ≤ p.2 ∧ (p.1.map fun R => (R.rangestart, R.rangeend)) = rs ∧
      (∀ R ∈ p.1, n ≤ R.secstart ∧ R.secstart + R.sectors ≤ p.2) ∧
      p.1.Pairwise fun R R' =>
        R.rangeend < R'.rangestart ∧ R.secstart + R.sectors ≤ R'.secstart := by
  induction rs with
  | nil => intro n _ _; simp [secstarts]
  | cons x rs ih =>
    intro n hx hs
    obtain ⟨s, e⟩ := x
    obtain ⟨hhead, htail⟩ := List.pairwise_cons.mp hs
    obtain ⟨hn, hmap, hnum, hpair⟩ := ih (n + thissecsize s e) (fun y h => hx y (by simp [h])) htail
    have hsize := thissecsize_eq (hx (s, e) (by simp)).1 (hx (s, e) (by simp)).2
    simp only [secstarts]
    refine ⟨by omega, by simp [hmap], ?_, List.pairwise_cons.mpr ⟨?_, hpair⟩⟩
    · intro R hR
      rcases List.mem_cons.mp hR with rfl | hR
      · simp only [Range.sectors]; omega
      · have := hnum R hR; omega
    · intro R hR
      have hR' : (R.rangestart, R.rangeend) ∈ rs := by
        rw [← hmap]; exact List.mem_map_of_mem (f := fun R : Range => (R.rangestart, R.rangeend)) hR
      have h1 := hhead _ hR'
      have h2 := hnum R hR
      simp only [Range.sectors] at *
      omega

/-- Next to a range that covers the full address space there is no other. -/
theorem eq_of_full {cs : List (Nat × Nat)} (hd : cs.Pairwise Apart)
    (ha : ∀ c ∈ cs, SectorAligned c) {x y : Nat × Nat} (hx : x ∈ cs)
    (hfull : x.1 = 0 ∧ x.2 + 1 = 2 ^ 32) (hy : y ∈ cs) : y = x := by
  by_contra hne
  have : Std.Symm Apart := ⟨fun a b h => h.symm⟩
  have hyx : Apart y x := hd.forall hy hx hne
  obtain ⟨_, _, hlt, hb⟩ := ha y hy
  rcases hyx with h | h <;> omega

theorem declare_eq_singleton {rs : List (Nat × Nat)} {x : Nat × Nat}
    (hs : rs.Pairwise fun y z => y.2 < z.1) (hx : x ∈ rs) (hxa : SectorAligned x)
    (honly : ∀ y ∈ rs, y = x) : rs = [x] := by
  match rs, hs, hx, honly with
  | [y], _, _, honly => rw [honly y (by simp)]
  | y :: z :: rs, hs, _, honly =>
    have hyz : y.2 < z.1 := (List.pairwise_cons.mp hs).1 z (by simp)
    have hy := honly y (by simp)
    have hz := honly z (by simp)
    subst hy hz
    have := hxa.2.2.1
    omega

theorem rangeinit_full {x : Nat × Nat} (hfull : x.1 = 0 ∧ x.2 + 1 = 2 ^ 32) :
    rangeinit [x] = none := by
  obtain ⟨s, e⟩ := x
  obtain ⟨rfl, he⟩ := hfull
  simp only at he
  simp [rangeinit, secstarts, thissecsize, he]

/-- **`rangeinit` after any sequence of disjoint sector-aligned `addrange` calls yields an aligned
table** (or reports that there is no sector, which only the full address space provokes). -/
theorem rangeinit_aligned {cs : List (Nat × Nat)} (ha : ∀ c ∈ cs, SectorAligned c)
    (hd : cs.Pairwise Apart) {L : Layout} (hL : rangeinit (declare cs) = some L) : L.Aligned := by
  obtain ⟨hperm, hsort⟩ := declare_sorted (fun c hc => (ha c hc).2.2.1) hd
  have hmem (c : Nat × Nat) : c ∈ declare cs ↔ c ∈ cs := hperm.mem_iff
  have hal : ∀ x ∈ declare cs, SectorAligned x := fun x hx => ha x ((hmem x).mp hx)
  have hwhole : ∀ x ∈ declare cs, ¬ (x.1 = 0 ∧ x.2 + 1 = 2 ^ 32) := by
    -- the full address space leaves room for no other range, and then no sector is counted
    intro x hx hfull
    have honly : ∀ y ∈ declare cs, y = x := fun y hy =>
      eq_of_full hd ha ((hmem x).mp hx) hfull ((hmem y).mp hy)
    rw [declare_eq_singleton hsort hx (hal x hx) honly, rangeinit_full hfull] at hL
    simp at hL
  obtain ⟨_, hmap, hnum, hpair⟩ := secstarts_spec 0 (fun x hx => ⟨hal x hx, hwhole x hx⟩) hsort
  have hof : ∀ R ∈ (secstarts 0 (declare cs)).1, SectorAligned (R.rangestart, R.rangeend) := by
    intro R hR
    refine hal _ ?_
    rw [← hmap]
    exact List.mem_map_of_mem (f := fun R : Range => (R.rangestart, R.rangeend)) hR
  simp only [rangeinit] at hL
  split at hL
  · simp at hL
  · split at hL
    · simp at hL
    · obtain rfl := Option.some.inj hL
      exact ⟨hpair, fun R hR => (hof R hR).1, fun R hR => (hof R hR).2.1,
        fun R hR => (hof R hR).2.2, fun R hR => (hnum R hR).2⟩

/-- The smallest table: one range of one sector. -/
def oneSector : Layout := ⟨[⟨0, 4095, 0⟩], 1⟩

theorem oneSector_init : rangeinit (declare [(0, 4095)]) = some oneSector := by decide

end Espmod.Flash
