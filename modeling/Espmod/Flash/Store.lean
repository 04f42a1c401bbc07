/-
# Espmod.Flash.Store — what one command does to the arrays

`erase` and `write` at the level of sectors and pages: which sector state and which page vector they
leave at *every* accepted address. The three address maps appear here for the last time; the modules
above speak about addresses only. `fetch` is evaluated for the reads that stay inside a page.
-/
import Espmod.Flash.Commands

namespace Espmod.Flash

open Espmod.Lib.Text Espmod.Lib.Words

/-- The arrays have the lengths `rangeinit` allocated. -/
structure Store.Allocated (st : Store) : Prop where
  aligned : st.layout.Aligned
  secs : st.secs.length = st.layout.seccnt
  pgm : st.pgm.length = st.layout.seccnt * 16

/-- Besides, no page vector outgrows its page. -/
structure Store.Shaped (st : Store) : Prop extends st.Allocated where
  pages : ∀ i, (st.page i).length ≤ 64

namespace Store

variable {st : Store} {a b r r' n : Nat}

/-! ## §1 — reading after writing the arrays -/

@[simp] theorem setSec_layout (i : Nat) (s : SecState) : (st.setSec i s).layout = st.layout := rfl
@[simp] theorem setPage_layout (i : Nat) (p : List UInt32) :
    (st.setPage i p).layout = st.layout := rfl
@[simp] theorem setSec_page (i j : Nat) (s : SecState) : (st.setSec i s).page j = st.page j := rfl
@[simp] theorem setPage_sec (i j : Nat) (p : List UInt32) : (st.setPage i p).sec j = st.sec j := rfl

theorem setSec_sec {i : Nat} (hi : i < st.secs.length) (s : SecState) (j : Nat) :
    (st.setSec i s).sec j = if i = j then s else st.sec j := by
  simp only [setSec, sec, List.getD_eq_getElem?_getD, List.getElem?_set]
  split <;> simp_all

theorem setPage_page {i : Nat} (hi : i < st.pgm.length) (p : List UInt32) (j : Nat) :
    (st.setPage i p).page j = if i = j then p else st.page j := by
  simp only [setPage, page, List.getD_eq_getElem?_getD, List.getElem?_set]
  split <;> simp_all

/-- Clearing page vectors one after the other. -/
theorem clear_page (ks : List Nat) (i : Nat) (j : Nat) (st : Store)
    (hb : ∀ k ∈ ks, i + k < st.pgm.length) :
    let st' := ks.foldl (fun st k => st.setPage (i + k) []) st
    st'.layout = st.layout ∧ st'.secs = st.secs ∧ st'.pgm.length = st.pgm.length ∧
      st'.page j = if ∃ k ∈ ks, i + k = j then [] else st.page j := by
  induction ks generalizing st with
  | nil => simp
  | cons k ks ih =>
    have hk := hb k (by simp)
    obtain ⟨h1, h2, h3, h4⟩ := ih (st.setPage (i + k) []) fun k' hk' => by
      simpa [setPage] using hb k' (by simp [hk'])
    refine ⟨h1, h2, by simpa [setPage] using h3, ?_⟩
    simp only [List.foldl_cons] at h4 ⊢
    rw [h4, setPage_page hk]
    by_cases hrest : ∃ k' ∈ ks, i + k' = j
    · simp [hrest]
    · simp [hrest]

/-! ## §2 — erase -/

variable (hst : st.Allocated)
include hst

theorem Allocated.secaddr_lt (ha : st.layout.getrange a = some r) :
    st.layout.secaddr r a < st.secs.length := by
  rw [hst.secs]
  exact hst.aligned.secaddr_lt ha

theorem Allocated.pageaddr_lt (ha : st.layout.getrange a = some r) :
    st.layout.pageaddr r a < st.pgm.length := by
  rw [hst.pgm]
  exact hst.aligned.pageaddr_lt ha

/-- The erase loop, stated on the arrays. -/
theorem Allocated.erase_arrays (ha : st.layout.getrange a = some r) (ha4 : a % 4096 = 0) (j : Nat) :
    (st.erase r a).layout = st.layout ∧
    (st.erase r a).secs = st.secs.set (st.layout.secaddr r a) .ERS ∧
    (st.erase r a).pgm.length = st.pgm.length ∧
    (st.erase r a).page j =
      if ∃ k ∈ List.range 16, st.layout.pageaddr r a + k = j then [] else st.page j := by
  have hpage := hst.aligned.pageaddr_eq ha
  have hsec := hst.secaddr_lt ha
  have hlen := hst.pgm
  refine clear_page (List.range 16) (st.layout.pageaddr r a) j
    (st.setSec (st.layout.secaddr r a) .ERS) fun k hk => ?_
  have hk16 : k < 16 := List.mem_range.mp hk
  rw [hst.secs] at hsec
  simp only [setSec]
  omega

omit hst in
theorem Shaped.erase_shaped (hst : st.Shaped) (ha : st.layout.getrange a = some r) (ha4 : a % 4096 = 0) :
    (st.erase r a).Shaped := by
  have harr := hst.erase_arrays ha ha4
  refine ⟨⟨?_, ?_, ?_⟩, fun i => ?_⟩
  · rw [(harr 0).1]; exact hst.aligned
  · rw [(harr 0).2.1, (harr 0).1, List.length_set, hst.secs]
  · rw [(harr 0).2.2.1, (harr 0).1, hst.pgm]
  · rw [(harr i).2.2.2]
    split
    · simp
    · exact hst.pages i

/-- **Erase, by address**: the sector becomes erased and its pages empty; all others stay. -/
theorem Allocated.erase_at (ha : st.layout.getrange a = some r) (ha4 : a % 4096 = 0)
    (hb : st.layout.getrange b = some r') :
    (st.erase r a).sec (st.layout.secaddr r' b) =
      (if a / 4096 = b / 4096 then .ERS else st.sec (st.layout.secaddr r' b)) ∧
    (st.erase r a).page (st.layout.pageaddr r' b) =
      (if a / 4096 = b / 4096 then [] else st.page (st.layout.pageaddr r' b)) := by
  obtain ⟨_, hsecs, _, hpage⟩ := hst.erase_arrays ha ha4 (st.layout.pageaddr r' b)
  have hsame := hst.aligned.secaddr_eq_iff ha hb
  constructor
  · rw [← if_congr hsame rfl rfl, ← setSec_sec (hst.secaddr_lt ha)]
    simp only [sec, setSec, hsecs]
  · rw [hpage]
    refine if_congr ?_ rfl rfl
    have hpa := hst.aligned.pageaddr_eq ha
    have hpb := hst.aligned.pageaddr_eq hb
    simp only [List.mem_range]
    rw [← hsame]
    constructor
    · rintro ⟨k, hk, heq⟩
      omega
    · intro heq
      exact ⟨b / 256 % 16, by omega, by omega⟩

/-! ## §3 — write -/

omit hst in
theorem putWords_eq (hst : st.pgm.length = st.layout.seccnt * 16)
    (hpg : st.layout.pageaddr r a < st.pgm.length) :
    ∀ (ws : List UInt32) (pos : Nat),
      pos + st.layout.addrinpage r a + ws.length ≤ (st.page (st.layout.pageaddr r a)).length →
      putWords st r a pos ws = st.setPage (st.layout.pageaddr r a)
        (overlay (st.page (st.layout.pageaddr r a)) (pos + st.layout.addrinpage r a) ws) := by
  intro ws
  induction ws generalizing st with
  | nil =>
    intro pos _
    rw [putWords, overlay_nil]
    simp [setPage, page, List.getD_eq_getElem?_getD, List.getElem?_eq_getElem hpg]
  | cons w ws ih =>
    intro pos hlen
    simp only [List.length_cons] at hlen
    have hput : (st.putWord r a pos w).page (st.layout.pageaddr r a) =
        (st.page (st.layout.pageaddr r a)).set (pos + st.layout.addrinpage r a) w := by
      simp [putWord, setPage_page hpg]
    rw [putWords, ih (by simpa [putWord, setPage] using hst) (by simpa [putWord, setPage] using hpg)]
    · simp only [putWord, setPage_layout, setPage_page hpg, if_true]
      rw [show pos + 1 + st.layout.addrinpage r a = pos + st.layout.addrinpage r a + 1 by omega,
        overlay_cons (by omega)]
      simp [setPage]
    · simp only [putWord, setPage_layout, setPage_page hpg, if_true, List.length_set]
      omega

/-- The page vector a write finds: grown with zeros up to the end of the written window. -/
def grown (st : Store) (r a n : Nat) : List UInt32 :=
  let page := st.page (st.layout.pageaddr r a)
  page ++ List.replicate (a / 4 % 64 + n - page.length) 0

omit hst in
/-- The mask of the page-crossing test keeps the page number. -/
theorem mask_page {x : Nat} (hx : x < 2 ^ 32) : x &&& 0xffffff00 = 2 ^ 8 * (x / 2 ^ 8) := by
  have hmask : (0xffffff00 : Nat) = 2 ^ 8 * (2 ^ 24 - 1) := by decide
  have hdiv : x / 2 ^ 8 < 2 ^ 24 := by omega
  apply Nat.eq_of_testBit_eq
  intro i
  rw [hmask, Nat.testBit_and, Nat.testBit_two_pow_mul, Nat.testBit_two_pow_mul,
    Nat.testBit_two_pow_sub_one]
  by_cases hi : 8 ≤ i
  · have hbit : (x / 2 ^ 8).testBit (i - 8) = x.testBit i := by
      rw [Nat.testBit_div_two_pow, Nat.sub_add_cancel hi]
    by_cases hhi : i - 8 < 24
    · rw [hbit]
      simp [hi, hhi]
    · have hout : (x / 2 ^ 8).testBit (i - 8) = false :=
        Nat.testBit_lt_two_pow (lt_of_lt_of_le hdiv (Nat.pow_le_pow_right (by decide) (by omega)))
      rw [hout]
      simp [hhi]
  · simp [hi]

omit hst in
/-- An accepted write has a word, and at most a page of them. -/
theorem writeRange_size (h : st.writeRange a n = some r) : 1 ≤ n ∧ n ≤ 64 := by
  unfold writeRange at h
  split at h
  · exact nomatch h
  · split at h
    · exact nomatch h
    · split at h
      · exact nomatch h
      · omega

/-- **Which writes are accepted**: known sector, one to 64 words, all in one page. -/
theorem Allocated.writeRange_eq_some :
    st.writeRange a n = some r ↔ st.layout.getrange a = some r ∧
      st.sec (st.layout.secaddr r a) ≠ .UNK ∧ 1 ≤ n ∧ n ≤ 64 ∧ a % 256 + 4 * n ≤ 256 := by
  simp only [writeRange]
  cases hr : st.layout.getrange a with
  | none => simp
  | some range =>
    have hend := (Layout.getrange_spec hr).2.2
    have hbound := (hst.aligned.bounds _ (Layout.row_mem hr)).2
    have ha : a < 2 ^ 32 := by omega
    have hmask := mask_page (x := (a + n * 4 - 1) % 2 ^ 32) (Nat.mod_lt _ (by decide))
    have hmask' := mask_page ha
    simp only [hmask, hmask', Option.some.injEq]
    constructor
    · intro h
      split at h
      · simp at h
      · split at h
        · simp at h
        · split at h
          · simp at h
          · obtain rfl := Option.some.inj h
            exact ⟨rfl, by assumption, by omega, by omega, by omega⟩
    · rintro ⟨rfl, hsec, h1, h64, hcross⟩
      rw [if_neg hsec, if_neg (by omega), if_neg (by omega)]

/-- The arrays an accepted write leaves, before they are read by address. -/
theorem Allocated.write_arrays (ha : st.layout.getrange a = some r) (ws : List UInt32) :
    st.write r a ws = (st.setSec (st.layout.secaddr r a) .PROG).setPage (st.layout.pageaddr r a)
      (overlay (st.grown r a ws.length) (a / 4 % 64) ws) := by
  have hpos := hst.aligned.addrinpage_eq ha
  have hpg := hst.pageaddr_lt ha
  have hprep : st.prepare r a ws.length = (st.setSec (st.layout.secaddr r a) .PROG).setPage
      (st.layout.pageaddr r a) (st.grown r a ws.length) := by
    simp only [prepare, setSec_layout, hpos, setSec_page, grown]
    split
    · rw [resize, List.take_of_length_le (by omega)]
    · rw [show a / 4 % 64 + ws.length - (st.page (st.layout.pageaddr r a)).length = 0 by omega]
      simp [setPage, setSec, page, List.getD_eq_getElem?_getD, List.getElem?_eq_getElem hpg]
  have hgrown : a / 4 % 64 + ws.length ≤ (st.grown r a ws.length).length := by
    simp only [grown, List.length_append, List.length_replicate]
    omega
  have hpg' : st.layout.pageaddr r a < (st.setSec (st.layout.secaddr r a) .PROG).pgm.length := hpg
  have hread : ((st.setSec (st.layout.secaddr r a) .PROG).setPage (st.layout.pageaddr r a)
      (st.grown r a ws.length)).page (st.layout.pageaddr r a) = st.grown r a ws.length := by
    rw [setPage_page hpg', if_pos rfl]
  rw [write, hprep, putWords_eq (by simpa [setPage, setSec] using hst.pgm)
    (by simpa [setPage, setSec] using hpg)]
  · simp only [setPage_layout, setSec_layout, hread, hpos, Nat.zero_add]
    simp [setPage]
  · simp only [setPage_layout, setSec_layout, hread, hpos]
    omega

theorem Allocated.write_allocated (ha : st.layout.getrange a = some r) (ws : List UInt32) :
    (st.write r a ws).layout = st.layout ∧ (st.write r a ws).Allocated := by
  rw [hst.write_arrays ha ws]
  exact ⟨rfl, hst.aligned, by simpa [setPage, setSec] using hst.secs,
    by simpa [setPage, setSec] using hst.pgm⟩

omit hst in
theorem Shaped.write_shaped (hst : st.Shaped) (ha : st.layout.getrange a = some r) {ws : List UInt32}
    (hws : a % 256 + 4 * ws.length ≤ 256) : (st.write r a ws).Shaped := by
  have hsmall := hst.pages (st.layout.pageaddr r a)
  refine ⟨(hst.write_allocated ha ws).2, fun i => ?_⟩
  rw [hst.write_arrays ha ws]
  rw [setPage_page (by simpa [setSec] using hst.pageaddr_lt ha)]
  split
  · rw [overlay_length (by simp only [grown, List.length_append, List.length_replicate]; omega)]
    simp only [grown, List.length_append, List.length_replicate]
    omega
  · exact hst.pages i

/-- **Write, by address**: the sector becomes programmed, the words of the window replace those of
its page, and nothing else changes. -/
theorem Allocated.write_at (ha : st.layout.getrange a = some r) (ws : List UInt32)
    (hb : st.layout.getrange b = some r') :
    (st.write r a ws).sec (st.layout.secaddr r' b) =
      (if a / 4096 = b / 4096 then .PROG else st.sec (st.layout.secaddr r' b)) ∧
    (st.write r a ws).page (st.layout.pageaddr r' b) =
      (if a / 256 = b / 256 then overlay (st.grown r a ws.length) (a / 4 % 64) ws
       else st.page (st.layout.pageaddr r' b)) := by
  rw [hst.write_arrays ha ws]
  constructor
  · rw [setPage_sec, setSec_sec (hst.secaddr_lt ha)]
    exact if_congr (hst.aligned.secaddr_eq_iff ha hb) rfl rfl
  · rw [setPage_page (by simpa [setSec] using hst.pageaddr_lt ha), setSec_page]
    exact if_congr (hst.aligned.pageaddr_eq_iff ha hb) rfl rfl

/-! ## §4 — read -/

/-- The words a read answers with: what the page stores, then ones. -/
def window (page : List UInt32) (pos n : Nat) : List UInt32 :=
  (List.range n).map fun k => (page[pos + k]?).getD 0xffffffff

omit hst

theorem window_eq_append (page : List UInt32) (pos n : Nat) :
    window page pos n =
      (page.drop pos).take n ++ List.replicate (n - (page.length - pos)) 0xffffffff := by
  apply List.ext_getElem?
  intro k
  have hlen : ((page.drop pos).take n).length = min n (page.length - pos) := by simp
  simp only [window, List.getElem?_map]
  by_cases hk : k < n
  · rw [List.getElem?_range hk]
    by_cases hin : pos + k < page.length
    · rw [List.getElem?_append_left (by omega), List.getElem?_take_of_lt hk, List.getElem?_drop]
      simp [List.getElem?_eq_getElem hin]
    · rw [List.getElem?_append_right (by omega), List.getElem?_replicate, if_pos (by omega)]
      simp [List.getElem?_eq_none (Nat.le_of_not_lt hin)]
  · rw [List.getElem?_eq_none (by simpa using hk), List.getElem?_eq_none]
    · rfl
    · simp only [List.length_append, List.length_replicate, hlen]
      omega

theorem window_nil (pos n : Nat) : window [] pos n = List.replicate n 0xffffffff := by
  simp [window_eq_append]

@[simp] theorem window_length (page : List UInt32) (pos n : Nat) : (window page pos n).length = n := by
  simp [window]

/-- The offset a read starts at. -/
theorem readpos_eq (a : Nat) : (a >>> 2) &&& 0x3f = a / 4 % 64 := by
  rw [Nat.shiftRight_eq_div_pow]
  exact Nat.and_two_pow_sub_one_eq_mod (a / 2 ^ 2) 6

/-- The two filling loops of a read together produce its window. -/
theorem window_split {page : List UInt32} {pos n fin last : Nat} (hlen : page.length ≠ 0)
    (hfin : fin + 1 = pos + n) (hlast : last = min fin (page.length - 1)) :
    (if pos ≤ last then (page.drop pos).take (last + 1 - pos) else []) ++
        List.replicate (fin + 1 - (if pos ≤ last then last + 1 else pos)) 0xffffffff =
      window page pos n := by
  rw [window_eq_append]
  by_cases hin : pos ≤ last
  · have hrest : fin + 1 - (last + 1) = n - (page.length - pos) := by omega
    rw [if_pos hin, if_pos hin, hrest, show last + 1 - pos = min n (page.length - pos) by omega,
      ← List.take_take, List.take_of_length_le (l := page.drop pos) (by simp)]
  · have hrest : fin + 1 - pos = n - (page.length - pos) := by omega
    have hnone : (page.drop pos).take n = [] := by
      rcases (by omega : n = 0 ∨ page.length ≤ pos) with rfl | hge
      · simp
      · simp [List.drop_eq_nil_of_le hge]
    rw [if_neg hin, if_neg hin, hrest, hnone]

/-- **A read of a known sector answers the window of its page**, also past the page's end; only the
empty read at the start of a programmed page is left out. -/
theorem fetch_known (rand : Nat → UInt8) (k : Nat)
    (hsec : st.sec (st.layout.secaddr r a) ≠ .UNK)
    (hblank : st.sec (st.layout.secaddr r a) ≠ .PROG → st.page (st.layout.pageaddr r a) = [])
    (hn : n ≤ 64) (h1 : 1 ≤ a / 4 % 64 + n) :
    st.fetch rand k r a n =
      some (unwords (window (st.page (st.layout.pageaddr r a)) (a / 4 % 64) n), 0) := by
  simp only [fetch, if_neg hsec, readpos_eq]
  by_cases hlen : (st.page (st.layout.pageaddr r a)).length = 0
  · rw [if_pos (Or.inr hlen), List.length_eq_zero_iff.mp hlen, window_nil, unwords_replicate_ones]
  · have hprog : st.sec (st.layout.secaddr r a) ≠ .ERS := by
      intro hers
      have := hblank (by rw [hers]; decide)
      simp [this] at hlen
    have hfin : (n + a / 4 % 64 + (2 ^ 32 - 1)) % 2 ^ 32 = n + a / 4 % 64 - 1 := by omega
    have hend : ¬ n + a / 4 % 64 - 1 = 2 ^ 32 - 1 := by omega
    have hlast : (if n + a / 4 % 64 - 1 > (st.page (st.layout.pageaddr r a)).length - 1 then
        (st.page (st.layout.pageaddr r a)).length - 1 else n + a / 4 % 64 - 1) =
        min (n + a / 4 % 64 - 1) ((st.page (st.layout.pageaddr r a)).length - 1) := by
      split <;> omega
    rw [if_neg (by simp [hprog, hlen]), hfin, if_neg hend, ← unwords_replicate_ones,
      ← unwords_append, hlast, window_split (n := n) hlen (by omega) rfl]

/-- A read of a sector in the unknown state takes one `rand()` a byte. -/
theorem fetch_unk (rand : Nat → UInt8) (k : Nat)
    (hsec : st.sec (st.layout.secaddr r a) = .UNK) :
    st.fetch rand k r a n = some ((List.range (4 * n)).map fun i => rand (k + i), 4 * n) := by
  simp only [fetch, if_pos hsec]

end Store

end Espmod.Flash
