/-
# Espmod.Flash.Preload — what the back door leaves for the read command

`preload` loads a page vector for each page the data touches, `preerase` marks sectors; both are compared
with what a read command answers afterwards (`Reads`). Data that is loaded reads back when it starts a
page or stays in one, does not leave one byte of a word, and does not go round the address space
(`load_agrees`); a sector range reads erased when its last sector did before, and stays so under a later
write when the page vectors hold nothing else (`erase_agrees`).
-/
import Espmod.Flash.BackDoor
import Espmod.Flash.Memory

namespace Espmod.Flash

open Espmod.Lib.Text Espmod.Lib.Words

namespace Store

/-! ## §1 — reading a byte -/

/-- Every read command inside a page that covers the byte at `b` answers `v` there. -/
def Reads (st : Store) (b : Nat) (v : UInt8) : Prop :=
  ∀ (rand : Nat → UInt8) (rands a n : Nat), a / 256 = b / 256 → a / 4 ≤ b / 4 → b / 4 < a / 4 + n →
    a / 4 % 64 + n ≤ 64 → ∃ r bs used, st.layout.getrange a = some r ∧
      st.fetch rand rands r a n = some (bs, used) ∧ bs[b - 4 * (a / 4)]? = some v

/-- The word at an accepted address as a read answers it. -/
def word (st : Store) (r b : Nat) : Option UInt32 :=
  match st.sec (st.layout.secaddr r b) with
  | .UNK => none
  | .ERS => some 0xffffffff
  | .PROG => some ((st.page (st.layout.pageaddr r b))[b / 4 % 64]?.getD 0xffffffff)

/-- The page vector holds the word, and it is not erased. -/
def Stores (st : Store) (b : Nat) : Prop :=
  ∃ r, st.layout.getrange b = some r ∧ st.sec (st.layout.secaddr r b) = .PROG ∧
    b / 4 % 64 < (st.page (st.layout.pageaddr r b)).length

variable {st st' : Store} {rand : Nat → UInt8} {a b r r' n k : Nat} {w : UInt32} {v v' : UInt8}

theorem window_getElem? (page : List UInt32) (pos : Nat) (hk : k < n) :
    (window page pos n)[k]? = some ((page[pos + k]?).getD 0xffffffff) := by
  rw [window, List.getElem?_map, List.getElem?_range hk]
  rfl

/-- A word that is not unknown is what every read of it answers. -/
theorem Allocated.reads_of_word (hst : st.Allocated) (hb : st.layout.getrange b = some r)
    (hw : st.word r b = some w) (hv : (bytesOf w)[b % 4]? = some v) : st.Reads b v := by
  intro rand rands a n hpage hlo hhi hfit
  have ha := hst.aligned.getrange_sector hb (b := a) (by omega)
  have hsec := (hst.aligned.secaddr_eq_iff ha hb).mpr (by omega)
  have hpg := (hst.aligned.pageaddr_eq_iff ha hb).mpr hpage
  have hoff : (b - 4 * (a / 4)) % 4 = b % 4 := by omega
  have hidx : (b - 4 * (a / 4)) / 4 = b / 4 - a / 4 := by omega
  have hpos : a / 4 % 64 + (b / 4 - a / 4) = b / 4 % 64 := by omega
  unfold word at hw
  cases hs : st.sec (st.layout.secaddr r b) with
  | UNK =>
    rw [hs] at hw
    exact nomatch hw
  | ERS =>
    rw [hs] at hw
    obtain rfl := Option.some.inj hw
    have hfetch : st.fetch rand rands r a n = some (List.replicate (4 * n) 0xff, 0) := by
      simp only [fetch, hsec, hs, reduceCtorEq, if_false, true_or, if_true]
    refine ⟨r, _, _, ha, hfetch, ?_⟩
    rw [← unwords_replicate_ones, getElem?_unwords_byte, hidx, hoff,
      List.getElem?_replicate, if_pos (by omega)]
    exact hv
  | PROG =>
    rw [hs] at hw
    obtain rfl := Option.some.inj hw
    have hfetch : st.fetch rand rands r a n =
        some (unwords (window (st.page (st.layout.pageaddr r a)) (a / 4 % 64) n), 0) :=
      fetch_known rand rands (by rw [hsec, hs]; decide) (by rw [hsec, hs]; exact fun h => absurd rfl h)
        (by omega) (by omega)
    refine ⟨r, _, _, ha, hfetch, ?_⟩
    rw [getElem?_unwords_byte, hidx, hoff, window_getElem? _ _ (by omega), hpos, hpg]
    exact hv

theorem Reads.unique (h : st.Reads b v) (h' : st.Reads b v') : v = v' := by
  obtain ⟨r, bs, used, hr, hf, hv⟩ := h (fun _ => 0) 0 b 1 rfl (Nat.le_refl _) (by omega) (by omega)
  obtain ⟨r', bs', used', hr', hf', hv'⟩ := h' (fun _ => 0) 0 b 1 rfl (Nat.le_refl _) (by omega) (by omega)
  obtain rfl : r = r' := Option.some.inj (hr.symm.trans hr')
  obtain ⟨rfl, -⟩ := Prod.mk.inj (Option.some.inj (hf.symm.trans hf'))
  exact Option.some.inj (hv.symm.trans hv')

theorem byte_exists (w : UInt32) (b : Nat) : ∃ v, (bytesOf w)[b % 4]? = some v :=
  ⟨_, List.getElem?_eq_getElem (by rw [bytesOf_length]; omega)⟩

theorem ones_byte (b : Nat) : (bytesOf 0xffffffff)[b % 4]? = some 0xff := by
  rcases (by omega : b % 4 = 0 ∨ b % 4 = 1 ∨ b % 4 = 2 ∨ b % 4 = 3) with h | h | h | h <;> rw [h] <;> rfl

/-- **What a byte reads as.** -/
theorem Allocated.reads_iff (hst : st.Allocated) :
    st.Reads b v ↔ ∃ r w, st.layout.getrange b = some r ∧ st.word r b = some w ∧
      (bytesOf w)[b % 4]? = some v := by
  constructor
  · intro h
    obtain ⟨r, bs, used, hr, hf, hv⟩ := h (fun _ => v + 1) 0 b 1 rfl (Nat.le_refl _) (by omega) (by omega)
    cases hw : st.word r b with
    | none =>
      -- an unknown sector answers what `rand` does
      have hunk : st.sec (st.layout.secaddr r b) = .UNK := by
        unfold word at hw
        split at hw
        · assumption
        · exact nomatch hw
        · exact nomatch hw
      rw [fetch_unk _ _ hunk] at hf
      obtain ⟨rfl, -⟩ := Prod.mk.inj (Option.some.inj hf)
      rw [List.getElem?_map, List.getElem?_range (by omega)] at hv
      have hne : v + 1 ≠ v := by simp
      exact absurd (Option.some.inj hv) hne
    | some w =>
      obtain ⟨v', hv'⟩ := byte_exists w b
      obtain rfl := (hst.reads_of_word hr hw hv').unique h
      exact ⟨r, w, hr, hw, hv'⟩
  · rintro ⟨r, w, hr, hw, hv⟩
    exact hst.reads_of_word hr hw hv

theorem Allocated.reads_word_iff (hst : st.Allocated) (hb : st.layout.getrange b = some r)
    (hw : st.word r b = some w) : st.Reads b v ↔ (bytesOf w)[b % 4]? = some v := by
  constructor
  · intro h
    obtain ⟨v', hv'⟩ := byte_exists w b
    rwa [← (hst.reads_of_word hb hw hv').unique h]
  · exact hst.reads_of_word hb hw

/-! ## §2 — the loops of `preload` -/

variable {data : Nat → UInt8} {endaddr stop byteaddr fromaddr adinsec base j : Nat} {p : List UInt32}

/-- The words of the page's window are loaded, the others are left. -/
theorem loadWords_getElem? (hb : byteaddr % 4 = 0) (hf : fromaddr % 4 = 0) (i : Nat) :
    (loadWords data stop p byteaddr fromaddr).1[i]? =
      if byteaddr / 4 ≤ i ∧ 4 * i < stop ∧ i < p.length then
        some (wordAt data (fromaddr / 4 + (i - byteaddr / 4))) else p[i]? := by
  induction p, byteaddr, fromaddr using loadWords.induct data stop with
  | case1 p byteaddr fromaddr hlt ih =>
    obtain ⟨word, rfl⟩ := Nat.dvd_of_mod_eq_zero hb
    obtain ⟨source, rfl⟩ := Nat.dvd_of_mod_eq_zero hf
    have hshift : ∀ n, (4 * n) >>> 2 = n := fun n => by omega
    have hword : ∀ n, 4 * n / 4 = n := fun n => by omega
    have hnext : ∀ n, (4 * n + 4) / 4 = n + 1 := fun n => by omega
    rw [hshift, hshift] at ih
    rw [loadWords, if_pos hlt, hshift, hshift, ih (Nat.mul_mod_right 4 (word + 1))
      (Nat.mul_mod_right 4 (source + 1)), List.length_set, List.getElem?_set, hnext, hnext, hword,
      hword]
    clear ih hb hf hshift hword hnext
    by_cases hlater : word + 1 ≤ i ∧ 4 * i < stop ∧ i < p.length
    · rw [if_pos hlater, if_pos (by omega)]
      congr 2
      omega
    · rw [if_neg hlater]
      by_cases hhere : word = i
      · subst hhere
        by_cases hin : word < p.length
        · rw [if_pos rfl, if_pos hin, if_pos ⟨Nat.le_refl _, hlt, hin⟩, Nat.sub_self]
          rfl
        · rw [if_pos rfl, if_neg hin, if_neg fun h => hin h.2.2, List.getElem?_eq_none (Nat.not_lt.mp hin)]
      · rw [if_neg hhere, if_neg (by omega)]
  | case2 p byteaddr fromaddr hge =>
    rw [loadWords, if_neg hge, if_neg (by omega)]

/-- How far the data is used up. -/
theorem loadWords_from (data : Nat → UInt8) (stop : Nat) (p : List UInt32) (byteaddr fromaddr : Nat) :
    (loadWords data stop p byteaddr fromaddr).2 = fromaddr + 4 * ((stop - byteaddr + 3) / 4) := by
  induction p, byteaddr, fromaddr using loadWords.induct data stop with
  | case1 p byteaddr fromaddr hlt ih =>
    rw [loadWords, if_pos hlt, ih]
    omega
  | case2 p byteaddr fromaddr hge =>
    rw [loadWords, if_neg hge]
    dsimp only
    omega

/-- The last byte of the page. -/
theorem or_page (x : Nat) : x ||| 0xff = 256 * (x / 256) + 255 := by
  apply Nat.eq_of_testBit_eq
  intro i
  have hsum : 256 * (x / 256) + 255 = 2 ^ 8 * (x / 2 ^ 8) + (2 ^ 8 - 1) := by omega
  rw [hsum, Nat.testBit_or, Nat.testBit_two_pow_mul_add _ (by decide), show (0xff : Nat) = 2 ^ 8 - 1 by rfl,
    Nat.testBit_two_pow_sub_one]
  by_cases hi : i < 8
  · simp [hi]
  · rw [if_neg hi, Nat.testBit_div_two_pow, Nat.sub_add_cancel (Nat.not_lt.mp hi)]
    simp [hi]

/-- Where the loop over the words of a page stops: the last byte of the data, or of the page. -/
def pageStop (endaddr q : Nat) : Nat := if endaddr / 256 = q then endaddr % 256 else 255

theorem writeend_mod (h : adinsec ≤ endaddr) :
    (if endaddr ≥ adinsec ||| 0xff then adinsec ||| 0xff else endaddr) % 256 =
      pageStop endaddr (adinsec / 256) := by
  rw [or_page, pageStop]
  split <;> split <;> omega

/-- What a page vector is loaded with, by the number of the page in the range. -/
def loadedPage (data : Nat → UInt8) (endaddr adinsec fromaddr q : Nat) (p : List UInt32) : List UInt32 :=
  (loadWords data (pageStop endaddr q) (resizeOnes (pageStop endaddr q + 1) p) (adinsec % 256)
    (fromaddr + 4 * ((q - adinsec / 256) * (64 - adinsec % 256 / 4)))).1

theorem loadPages_rest (data : Nat → UInt8) (endaddr : Nat) (st : Store) (adinsec fromaddr : Nat) :
    (st.loadPages r data endaddr adinsec fromaddr).layout = st.layout ∧
      (st.loadPages r data endaddr adinsec fromaddr).secs = st.secs ∧
      (st.loadPages r data endaddr adinsec fromaddr).pgm.length = st.pgm.length := by
  induction st, adinsec, fromaddr using loadPages.induct r data endaddr with
  | case1 st adinsec fromaddr hle pageend writeend pagesize pg loaded ih =>
    rw [loadPages, if_pos hle]
    obtain ⟨hlayout, hsecs, hlen⟩ := ih
    exact ⟨hlayout, hsecs, hlen.trans List.length_set⟩
  | case2 st adinsec fromaddr hgt =>
    rw [loadPages, if_neg hgt]
    exact ⟨rfl, rfl, rfl⟩

/-- **The pages after `preload`.** -/
theorem loadPages_page (hlen : base + endaddr / 256 < st.pgm.length)
    (hbase : (st.layout.row r).secstart <<< 4 = base) (h4 : adinsec % 4 = 0) (j : Nat) :
    (st.loadPages r data endaddr adinsec fromaddr).page j =
      if base + adinsec / 256 ≤ j ∧ 256 * (j - base) + adinsec % 256 ≤ endaddr then
        loadedPage data endaddr adinsec fromaddr (j - base) (st.page j)
      else st.page j := by
  induction st, adinsec, fromaddr using loadPages.induct r data endaddr with
  | case1 st adinsec fromaddr hle pageend writeend pagesize pg loaded ih =>
    have hpg : pg = base + adinsec / 256 := by
      rw [← hbase]
      exact congrArg _ (Nat.shiftRight_eq_div_pow adinsec 8)
    have hlast : adinsec / 256 ≤ endaddr / 256 := Nat.div_le_div_right hle
    have hin : pg < st.pgm.length := by
      rw [hpg]
      exact lt_of_le_of_lt (Nat.add_le_add_left hlast base) hlen
    have hstop : writeend % 256 = pageStop endaddr (adinsec / 256) := writeend_mod hle
    have hloaded : loaded.1 = loadedPage data endaddr adinsec fromaddr (adinsec / 256) (st.page pg) := by
      rw [loadedPage, Nat.sub_self, Nat.zero_mul, Nat.mul_zero, ← hstop]
      rfl
    have hround : (adinsec + 256) / 256 = adinsec / 256 + 1 := Nat.add_div_right adinsec (by decide)
    have hplace : (adinsec + 256) % 256 = adinsec % 256 := Nat.add_mod_right adinsec 256
    have hnext : (adinsec + 256) % 4 = 0 := by rw [Nat.add_mod, h4]
    have hhead : 256 * (adinsec / 256) + adinsec % 256 ≤ endaddr := by
      rwa [Nat.div_add_mod]
    rw [loadPages, if_pos hle]
    change (loadPages r data endaddr (st.setPage pg loaded.1) (adinsec + 256) loaded.2).page j = _
    rw [ih (by rw [setPage, List.length_set]; exact hlen) hbase hnext, setPage_page hin, hround, hplace, hpg]
    by_cases hhere : base + adinsec / 256 = j
    · subst hhere
      have hpast : ¬ (base + (adinsec / 256 + 1) ≤ base + adinsec / 256 ∧
          256 * (base + adinsec / 256 - base) + adinsec % 256 ≤ endaddr) :=
        fun h => Nat.not_succ_le_self _ h.1
      rw [if_neg hpast, if_pos rfl, hloaded, Nat.add_sub_cancel_left, if_pos ⟨Nat.le_refl _, hhead⟩, hpg]
    · rw [if_neg hhere]
      by_cases hlater : base + (adinsec / 256 + 1) ≤ j ∧ 256 * (j - base) + adinsec % 256 ≤ endaddr
      · rw [if_pos hlater, if_pos ⟨Nat.le_of_succ_le hlater.1, hlater.2⟩]
        -- the data goes on where the page before ended
        have hfull : pageStop endaddr (adinsec / 256) = 255 := by
          rw [pageStop, if_neg (by omega)]
        have hused : loaded.2 = fromaddr + 4 * (64 - adinsec % 256 / 4) := by
          change (loadWords _ _ _ _ _).2 = _
          rw [loadWords_from, hstop, hfull]
          omega
        have hgone : j - base - adinsec / 256 = (j - base - (adinsec / 256 + 1)) + 1 := by omega
        rw [loadedPage, loadedPage, hused, hround, hplace, hgone,
          Nat.succ_mul (j - base - (adinsec / 256 + 1)), Nat.mul_add, Nat.add_assoc,
          Nat.add_comm (4 * (64 - adinsec % 256 / 4))]
      · have hbefore : ¬ (base + adinsec / 256 ≤ j ∧ 256 * (j - base) + adinsec % 256 ≤ endaddr) :=
          fun h => hlater ⟨Nat.lt_of_le_of_ne h.1 hhere, h.2⟩
        rw [if_neg hlater, if_neg hbefore]
  | case2 st adinsec fromaddr hgt =>
    rw [loadPages, if_neg hgt, if_neg (by omega)]

/-! ## §3 — the arrays after the two routines, by address -/

variable {addr : Nat} {e : SecState}

theorem markSecs_sec (s : SecState) (i n : Nat) (st : Store) (hlen : i + n ≤ st.secs.length) (j : Nat) :
    (st.markSecs s i n).sec j = if i ≤ j ∧ j < i + n then s else st.sec j := by
  unfold markSecs
  induction n generalizing i st with
  | zero => rw [if_neg (by omega)]; rfl
  | succ n ih =>
    rw [List.range'_succ, List.foldl_cons, ih (i + 1) (st.setSec i s) (by rw [setSec, List.length_set]; omega),
      setSec_sec (by omega)]
    by_cases hlater : i + 1 ≤ j ∧ j < i + 1 + n
    · rw [if_pos hlater, if_pos (by omega)]
    · rw [if_neg hlater]
      by_cases hhere : i = j
      · rw [if_pos hhere, if_pos (by omega)]
      · rw [if_neg hhere, if_neg (by omega)]

theorem markSecs_rest (s : SecState) (i n : Nat) (st : Store) :
    (st.markSecs s i n).layout = st.layout ∧ (st.markSecs s i n).pgm = st.pgm ∧
      (st.markSecs s i n).secs.length = st.secs.length := by
  unfold markSecs
  induction n generalizing i st with
  | zero => exact ⟨rfl, rfl, rfl⟩
  | succ n ih =>
    rw [List.range'_succ, List.foldl_cons]
    obtain ⟨hlayout, hpgm, hlen⟩ := ih (i + 1) (st.setSec i s)
    exact ⟨hlayout, hpgm, hlen.trans List.length_set⟩

theorem Allocated.markSecs (hst : st.Allocated) (s : SecState) (i n : Nat) :
    (st.markSecs s i n).Allocated := by
  obtain ⟨hlayout, hpgm, hlen⟩ := markSecs_rest s i n st
  refine ⟨?_, ?_, ?_⟩
  · rw [hlayout]
    exact hst.aligned
  · rw [hlen, hlayout, hst.secs]
  · rw [hpgm, hlayout, hst.pgm]

theorem markSecs_page (s : SecState) (i n : Nat) (st : Store) (j : Nat) :
    (st.markSecs s i n).page j = st.page j := by
  unfold page
  rw [(markSecs_rest s i n st).2.1]

/-- Pages count on from the start of the range, which starts a page. -/
theorem loadedPage_from {start : Nat} (hstart : start % 256 = 0) (haddr : start ≤ addr)
    (hend : addr ≤ endaddr) (h : addr / 256 ≤ b / 256) (p : List UInt32) :
    loadedPage data (endaddr - start) (addr - start) fromaddr ((b - start) / 256) p =
      loadedPage data endaddr addr fromaddr (b / 256) p := by
  have hstop : pageStop (endaddr - start) ((b - start) / 256) = pageStop endaddr (b / 256) := by
    unfold pageStop
    by_cases hlast : endaddr / 256 = b / 256
    · rw [if_pos hlast, if_pos (by omega)]
      omega
    · rw [if_neg hlast, if_neg (by omega)]
  rw [loadedPage, loadedPage, hstop, show (addr - start) % 256 = addr % 256 by omega,
    show (b - start) / 256 - (addr - start) / 256 = b / 256 - addr / 256 by omega]

/-- What an accepted `preload` does, as long as the data ends in the address space. -/
theorem preload_eq (hn : 1 ≤ n) (hend : addr + n ≤ 2 ^ 32) :
    st.preload addr data n = some st' ↔ ∃ r, st.layout.getrange addr = some r ∧
      addr + n - 1 ≤ (st.layout.row r).rangeend ∧
      st' = (st.markSecs .PROG (st.layout.secaddr r addr)
        (st.layout.secaddr r (addr + n - 1) + 1 - st.layout.secaddr r addr)).loadPages r data
          (addr + n - 1 - (st.layout.row r).rangestart) (addr - (st.layout.row r).rangestart) 0 := by
  unfold preload
  cases hr : st.layout.getrange addr with
  | none => simp
  | some r =>
    have hlo := (Layout.getrange_spec hr).2.1
    have hlast : (n + addr + (2 ^ 32 - 1)) % 2 ^ 32 = addr + n - 1 := by omega
    have hlast' : (addr + n + (2 ^ 32 - 1)) % 2 ^ 32 = addr + n - 1 := by omega
    have hoff : (addr - (st.layout.row r).rangestart + n + (2 ^ 32 - 1)) % 2 ^ 32 =
        addr + n - 1 - (st.layout.row r).rangestart := by omega
    have hsec : st.layout.secaddrOf r (addr + n - 1) = st.layout.secaddr r (addr + n - 1) := by
      rw [Layout.secaddrOf, Layout.secaddr, show (addr + n - 1 + 2 ^ 32 - (st.layout.row r).rangestart) % 2 ^ 32 =
        addr + n - 1 - (st.layout.row r).rangestart by omega]
    simp only [hlast, hlast', hsec, (markSecs_rest _ _ _ st).1, hoff, Option.some.injEq, exists_eq_left']
    split
    · constructor
      · intro h
        cases h
      · rintro ⟨hle, -⟩
        omega
    · constructor
      · intro h
        exact ⟨by omega, (Option.some.inj h).symm⟩
      · rintro ⟨-, rfl⟩
        rfl

/-- The pages after the loop of `preload`, by address. -/
theorem Allocated.loadPages_at (hst : st.Allocated) (data : Nat → UInt8) (hn : 1 ≤ n)
    (h4 : addr % 4 = 0) (ha : st.layout.getrange addr = some r)
    (hle : addr + n - 1 ≤ (st.layout.row r).rangeend) (hb : st.layout.getrange b = some r') :
    (st.loadPages r data (addr + n - 1 - (st.layout.row r).rangestart)
        (addr - (st.layout.row r).rangestart) 0).page (st.layout.pageaddr r' b) =
      if addr / 256 ≤ b / 256 ∧ b / 256 ≤ addr / 256 + (n - 1) / 256 then
        loadedPage data (addr + n - 1) addr 0 (b / 256) (st.page (st.layout.pageaddr r' b))
      else st.page (st.layout.pageaddr r' b) := by
  obtain ⟨hrow, hlo, -⟩ := Layout.getrange_spec ha
  have hstart := hst.aligned.start _ (Layout.row_mem ha)
  have hstop := hst.aligned.stop _ (Layout.row_mem ha)
  have hnumber (c : Nat) : st.layout.pageaddr r c =
      (st.layout.row r).secstart <<< 4 + (c - (st.layout.row r).rangestart) / 256 := by
    rw [Layout.pageaddr, Nat.shiftRight_eq_div_pow]
  have hlen := hst.pageaddr_lt (hst.aligned.getrange_of_row hrow (by omega) hle)
  -- the address in the last page that is loaded
  have hlast : st.layout.getrange (addr + 256 * ((n - 1) / 256)) = some r :=
    hst.aligned.getrange_of_row hrow (by omega) (by omega)
  have h₁ := hst.aligned.pageaddr_le_iff ha hb
  have h₂ := hst.aligned.pageaddr_le_iff hb hlast
  rw [hnumber] at h₁ h₂ hlen
  rw [loadPages_page hlen rfl (by omega)]
  by_cases hin : addr / 256 ≤ b / 256 ∧ b / 256 ≤ addr / 256 + (n - 1) / 256
  · have hge := h₁.mpr hin.1
    have hle' := h₂.mpr (by omega)
    have hb' : st.layout.getrange b = some r := hst.aligned.getrange_of_row hrow (by omega) (by omega)
    obtain rfl : r' = r := Option.some.inj (hb.symm.trans hb')
    rw [if_pos hin, if_pos ⟨hge, by rw [hnumber]; omega⟩,
      show st.layout.pageaddr r' b - (st.layout.row r').secstart <<< 4 =
        (b - (st.layout.row r').rangestart) / 256 by rw [hnumber]; omega,
      loadedPage_from (by omega) hlo (by omega) hin.1]
  · rw [if_neg hin, if_neg (by omega)]

/-- **The arrays after `preload`, by address.** -/
theorem Allocated.preload_at (hst : st.Allocated) (hn : 1 ≤ n) (hend : addr + n ≤ 2 ^ 32)
    (h4 : addr % 4 = 0) (h : st.preload addr data n = some st') :
    st'.layout = st.layout ∧ st'.Allocated ∧ ∀ b r', st.layout.getrange b = some r' →
      st'.sec (st.layout.secaddr r' b) =
        (if addr / 4096 ≤ b / 4096 ∧ b / 4096 ≤ (addr + n - 1) / 4096 then .PROG
          else st.sec (st.layout.secaddr r' b)) ∧
      st'.page (st.layout.pageaddr r' b) =
        (if addr / 256 ≤ b / 256 ∧ b / 256 ≤ addr / 256 + (n - 1) / 256 then
          loadedPage data (addr + n - 1) addr 0 (b / 256) (st.page (st.layout.pageaddr r' b))
          else st.page (st.layout.pageaddr r' b)) := by
  obtain ⟨r, ha, hle, rfl⟩ := (preload_eq hn hend).mp h
  obtain ⟨hrow, hlo, -⟩ := Layout.getrange_spec ha
  have hlast : st.layout.getrange (addr + n - 1) = some r :=
    hst.aligned.getrange_of_row hrow (by omega) hle
  have hsecs := hst.aligned.secaddr_lt hlast
  have hseclen := hst.secs
  have hmono := (hst.aligned.secaddr_le_iff ha hlast).mpr (Nat.div_le_div_right (by omega))
  set marked := st.markSecs .PROG (st.layout.secaddr r addr)
    (st.layout.secaddr r (addr + n - 1) + 1 - st.layout.secaddr r addr) with hmarked
  have hst' : marked.Allocated := hst.markSecs _ _ _
  have hlayout : marked.layout = st.layout := (markSecs_rest _ _ _ st).1
  obtain ⟨hlayout', hsecs', hpgm'⟩ := loadPages_rest data
    (addr + n - 1 - (st.layout.row r).rangestart) marked (addr - (st.layout.row r).rangestart) 0
  refine ⟨hlayout'.trans hlayout, ⟨?_, ?_, ?_⟩, fun b r' hb => ⟨?_, ?_⟩⟩
  · rw [hlayout', hlayout]
    exact hst.aligned
  · rw [hsecs', hlayout', hst'.secs]
  · rw [hpgm', hlayout', hst'.pgm]
  · have hbetween : addr / 4096 ≤ b / 4096 ∧ b / 4096 ≤ (addr + n - 1) / 4096 ↔
        st.layout.secaddr r addr ≤ st.layout.secaddr r' b ∧ st.layout.secaddr r' b <
          st.layout.secaddr r addr + (st.layout.secaddr r (addr + n - 1) + 1 - st.layout.secaddr r addr) := by
      rw [← hst.aligned.secaddr_le_iff ha hb, ← hst.aligned.secaddr_le_iff hb hlast]
      omega
    rw [if_congr hbetween rfl rfl, ← markSecs_sec _ _ _ _ (by omega)]
    unfold sec
    rw [hsecs']
  · have hpages := hst'.loadPages_at data hn h4 (by rw [hlayout]; exact ha)
      (by rw [hlayout]; exact hle) (by rw [hlayout]; exact hb)
    rw [hlayout, hmarked, markSecs_page] at hpages
    exact hpages

/-! ## §4 — what is loaded reads back -/

theorem resizeOnes_getD (m : Nat) (p : List UInt32) (i : Nat) :
    (resizeOnes m p)[i]?.getD 0xffffffff = if i < m then p[i]?.getD 0xffffffff else 0xffffffff := by
  have htake : (p.take m).length = min m p.length := List.length_take
  unfold resizeOnes
  by_cases hi : i < m
  · rw [if_pos hi]
    by_cases hin : i < p.length
    · rw [List.getElem?_append_left (by omega), List.getElem?_take_of_lt hi]
    · rw [List.getElem?_append_right (by omega), List.getElem?_replicate, if_pos (by omega),
        List.getElem?_eq_none (Nat.not_lt.mp hin)]
      rfl
  · rw [if_neg hi, List.getElem?_eq_none]
    · rfl
    · rw [List.length_append, List.length_replicate, htake]
      omega

/-- The word is one that `preload` stores: in a page it visits, between the offset of the data and the
last byte. -/
def Loaded (addr n b : Nat) : Prop :=
  addr / 256 ≤ b / 256 ∧ b / 256 ≤ addr / 256 + (n - 1) / 256 ∧ addr % 256 / 4 ≤ b / 4 % 64 ∧
    4 * (b / 4 % 64) < pageStop (addr + n - 1) (b / 256)

instance (addr n b : Nat) : Decidable (Loaded addr n b) := inferInstanceAs (Decidable (_ ∧ _))

/-- The word is dropped when the page vector is resized. -/
def Chopped (addr n b : Nat) : Prop :=
  addr / 256 ≤ b / 256 ∧ b / 256 ≤ addr / 256 + (n - 1) / 256 ∧
    pageStop (addr + n - 1) (b / 256) < b / 4 % 64

instance (addr n b : Nat) : Decidable (Chopped addr n b) := inferInstanceAs (Decidable (_ ∧ _))

/-- **The words after `preload`.** -/
theorem Allocated.preload_word (hst : st.Allocated) (hn : 1 ≤ n) (hend : addr + n ≤ 2 ^ 32)
    (h4 : addr % 4 = 0) (h : st.preload addr data n = some st') (hb : st.layout.getrange b = some r) :
    st'.word r b =
      if addr / 4096 ≤ b / 4096 ∧ b / 4096 ≤ (addr + n - 1) / 4096 then
        some (if Loaded addr n b then
            wordAt data ((b / 256 - addr / 256) * (64 - addr % 256 / 4) + (b / 4 % 64 - addr % 256 / 4))
          else if Chopped addr n b then 0xffffffff
          else (st.page (st.layout.pageaddr r b))[b / 4 % 64]?.getD 0xffffffff)
      else st.word r b := by
  obtain ⟨hlayout, -, hat⟩ := hst.preload_at hn hend h4 h
  obtain ⟨hsec, hpage⟩ := hat b r hb
  unfold word
  rw [hlayout, hsec, hpage]
  by_cases hin : addr / 4096 ≤ b / 4096 ∧ b / 4096 ≤ (addr + n - 1) / 4096
  · rw [if_pos hin, if_pos hin]
    dsimp only
    congr 1
    by_cases hvisit : addr / 256 ≤ b / 256 ∧ b / 256 ≤ addr / 256 + (n - 1) / 256
    · have hstop := pageStop (addr + n - 1) (b / 256)
      rw [if_pos hvisit, loadedPage]
      by_cases hload : addr % 256 / 4 ≤ b / 4 % 64 ∧ 4 * (b / 4 % 64) < pageStop (addr + n - 1) (b / 256)
      · rw [if_pos ⟨hvisit.1, hvisit.2, hload⟩, loadWords_getElem? (by omega) (by omega), if_pos]
        · rw [Option.getD_some]
          congr 1
          omega
        · refine ⟨hload.1, hload.2, ?_⟩
          simp only [resizeOnes, List.length_append, List.length_take, List.length_replicate]
          omega
      · rw [if_neg (fun h => hload h.2.2), loadWords_getElem? (by omega) (by omega),
          if_neg (fun h => hload ⟨h.1, h.2.1⟩), resizeOnes_getD]
        by_cases hchop : pageStop (addr + n - 1) (b / 256) < b / 4 % 64
        · rw [if_neg (by omega), if_pos ⟨hvisit.1, hvisit.2, hchop⟩]
        · rw [if_pos (by omega), if_neg (fun h => hchop h.2.2)]
    · rw [if_neg hvisit, if_neg (fun h => hvisit ⟨h.1, h.2.1⟩), if_neg (fun h => hvisit ⟨h.1, h.2.1⟩)]
  · rw [if_neg hin, if_neg hin, if_neg (by omega)]

/-- `preload` does not move the ranges. -/
theorem preload_layout (h : st.preload addr data n = some st') : st'.layout = st.layout := by
  unfold preload at h
  split at h
  · exact nomatch h
  · split at h
    · exact nomatch h
    · obtain rfl := Option.some.inj h
      exact (loadPages_rest _ _ _ _ _).1.trans (markSecs_rest _ _ _ _).1

/-- Bytes that the data leaves alone: all before it, and those behind its last page. What is behind it in
that page is chopped off. -/
def Kept (addr n b : Nat) : Prop := b < addr ∨ (addr + n ≤ b ∧ b / 256 ≠ (addr + n - 1) / 256)

/-- Reading answers the data where it was loaded, and what was stored before elsewhere. -/
def LoadAgrees (st : Store) (addr n : Nat) : Prop :=
  ∀ data st', st.preload addr data n = some st' →
    (∀ k < n, st'.Reads (addr + k) (data k)) ∧
    ∀ b v, Kept addr n b → st.Stores b → st.Reads b v → st'.Reads b v

/-- The data ends in the address space, starts a page or stays in one, and does not leave one byte. -/
def LoadFits (addr n : Nat) : Prop :=
  addr + n ≤ 2 ^ 32 ∧ (addr % 256 = 0 ∨ addr % 256 + n ≤ 256) ∧ n % 4 ≠ 1

instance (addr n : Nat) : Decidable (LoadFits addr n) := inferInstanceAs (Decidable (_ ∧ _))

/-- The bytes of a word of data. -/
theorem wordAt_byte (data : Nat → UInt8) (i k : Nat) (hk : k < 4) :
    (bytesOf (wordAt data i))[k]? = some (data (4 * i + k)) := by
  rw [wordAt, bytesOf_wordOf]
  rcases (by omega : k = 0 ∨ k = 1 ∨ k = 2 ∨ k = 3) with rfl | rfl | rfl | rfl <;> rfl

/-- Data that fits is stored word by word. -/
theorem loaded_iff (hfit : LoadFits addr n) (h4 : addr % 4 = 0) (hn : 1 ≤ n) :
    Loaded addr n b ↔ addr / 4 ≤ b / 4 ∧ b / 4 ≤ (addr + n - 1) / 4 := by
  obtain ⟨-, hpage, hrest⟩ := hfit
  unfold Loaded pageStop
  split <;> rcases hpage with hstart | hone <;> omega

/-- A word that is not loaded is the same after all data. -/
theorem Allocated.load_missed (hst : st.Allocated) (hn : 1 ≤ n) (hend : addr + n ≤ 2 ^ 32)
    (h4 : addr % 4 = 0) (hacc : ∃ data st', st.preload addr data n = some st') (hk : k < n)
    (hmiss : ¬ Loaded addr n (addr + k)) : ¬ st.LoadAgrees addr n := by
  intro hagree
  obtain ⟨data, st', h⟩ := hacc
  obtain ⟨r, hr, hle, -⟩ := (preload_eq hn hend).mp h
  have hb := hst.aligned.getrange_of_row (a := addr + k) (Layout.getrange_spec hr).1
    (by have := (Layout.getrange_spec hr).2.1; omega) (by omega)
  have hbyte (data : Nat → UInt8) : (bytesOf (if Chopped addr n (addr + k) then 0xffffffff
      else (st.page (st.layout.pageaddr r (addr + k)))[(addr + k) / 4 % 64]?.getD 0xffffffff))[(addr + k) % 4]? =
        some (data k) := by
    have h : st.preload addr data n = some _ := (preload_eq hn hend).mpr ⟨r, hr, hle, rfl⟩
    obtain ⟨hlayout, hst', -⟩ := hst.preload_at hn hend h4 h
    have hword := hst.preload_word hn hend h4 h hb
    rw [if_pos (by omega), if_neg hmiss] at hword
    obtain ⟨r', w, hr', hw, hv⟩ := hst'.reads_iff.mp ((hagree data _ h).1 k hk)
    rw [hlayout] at hr'
    obtain rfl : r = r' := Option.some.inj (hb.symm.trans hr')
    obtain rfl := Option.some.inj (hword.symm.trans hw)
    exact hv
  have hzero := hbyte fun _ => 0
  rw [hbyte fun _ => 1] at hzero
  exact absurd (Option.some.inj hzero) (by decide)

/-- **Loading agrees with reading exactly when the data fits.** -/
theorem Allocated.load_agrees (hst : st.Allocated) (hn : 1 ≤ n) (h4 : addr % 4 = 0)
    (hacc : ∃ data st', st.preload addr data n = some st') :
    st.LoadAgrees addr n ↔ LoadFits addr n := by
  constructor
  · intro hagree
    have hend : addr + n ≤ 2 ^ 32 := by
      obtain ⟨data, st', h⟩ := hacc
      have hread := (hagree data st' h).1 (n - 1) (by omega)
      obtain ⟨r, bs, used, hr, -⟩ := hread (fun _ => 0) 0 _ 1 rfl (Nat.le_refl _) (by omega) (by omega)
      rw [preload_layout h] at hr
      have hword := (hst.aligned.bounds _ (Layout.row_mem hr)).2
      have := (Layout.getrange_spec hr).2.2
      omega
    refine ⟨hend, ?_, fun hone => ?_⟩
    · -- the second page of data that starts inside a page
      by_contra hnot
      refine hst.load_missed hn hend h4 hacc (k := 256 - addr % 256) (by omega) ?_ hagree
      intro hload
      have := hload.2.2.1
      omega
    · -- the last byte
      refine hst.load_missed hn hend h4 hacc (k := n - 1) (by omega) ?_ hagree
      intro hload
      have hstop := hload.2.2.2
      rw [pageStop, if_pos (by congr 1; omega)] at hstop
      omega
  · intro hfit data st' h
    have hend := hfit.1
    obtain ⟨hlayout, hst', -⟩ := hst.preload_at hn hend h4 h
    obtain ⟨r, hr, hle, -⟩ := (preload_eq hn hend).mp h
    have hload (b : Nat) := loaded_iff (b := b) hfit h4 hn
    constructor
    · intro k hk
      have hb := hst.aligned.getrange_of_row (a := addr + k) (Layout.getrange_spec hr).1
        (by have := (Layout.getrange_spec hr).2.1; omega) (by omega)
      have hword := hst.preload_word hn hend h4 h hb
      rw [if_pos (by omega), if_pos ((hload _).mpr (by omega))] at hword
      refine hst'.reads_of_word (by rw [hlayout]; exact hb) hword ?_
      rw [wordAt_byte _ _ _ (by omega)]
      congr 2
      rcases hfit.2.1 with hstart | hone
      · have hzero : addr % 256 / 4 = 0 := by omega
        rw [hzero]
        omega
      · have hsame : (addr + k) / 256 - addr / 256 = 0 := by omega
        rw [hsame]
        omega
    · intro b v hkept hstored hread
      obtain ⟨r', hr', hprog, hlen⟩ := hstored
      obtain ⟨r'', w, hr'', hw, hv⟩ := hst.reads_iff.mp hread
      obtain rfl : r' = r'' := Option.some.inj (hr'.symm.trans hr'')
      have hold : st.word r' b = some ((st.page (st.layout.pageaddr r' b))[b / 4 % 64]?.getD 0xffffffff) := by
        unfold word
        rw [hprog]
      have hword := hst.preload_word hn hend h4 h hr'
      have hunloaded : ¬ Loaded addr n b := by
        rw [hload]
        rcases hkept with hbefore | hbehind <;> omega
      have hwhole : ¬ Chopped addr n b := by
        unfold Chopped pageStop
        rcases hkept with hbefore | hbehind <;> split <;> rcases hfit.2.1 with hstart | hone <;> omega
      rw [if_neg hunloaded, if_neg hwhole, ← hold, ite_self] at hword
      exact hst'.reads_of_word (by rw [hlayout]; exact hr') (hword.trans hw) hv

/-! ## §5 — what is erased reads erased -/

variable {ws : List UInt32}

/-- The address is in a sector of the interval. -/
def Touches (addr endaddr b : Nat) : Prop :=
  addr ≤ endaddr ∧ addr / 4096 ≤ b / 4096 ∧ b / 4096 ≤ endaddr / 4096

/-- The word is one that the write stores. -/
def InWindow (a n b : Nat) : Prop := a / 4 ≤ b / 4 ∧ b / 4 < a / 4 + n

instance (a n b : Nat) : Decidable (InWindow a n b) := inferInstanceAs (Decidable (_ ∧ _))

/-- The byte at `b` after a write to erased memory. -/
def writtenByte (a : Nat) (ws : List UInt32) (b : Nat) : Option UInt8 :=
  if InWindow a ws.length b then (unwords ws)[b - 4 * (a / 4)]? else some 0xff

/-- The touched sectors read erased, and after one write to them all that was not written still does. -/
def EraseAgrees (st : Store) (addr endaddr a : Nat) (ws : List UInt32) : Prop :=
  ∀ st', st.preerase addr endaddr = some st' →
    (∀ b, Touches addr endaddr b → st'.Reads b 0xff) ∧
    ∀ r, Touches addr endaddr a → st'.writeRange a ws.length = some r →
      ∀ b v, Touches addr endaddr b → writtenByte a ws b = some v → (st'.write r a ws).Reads b v

/-- The last sector reads erased already, and the page vectors of the sector that is written hold nothing
but ones outside the written words, and reach up to the first of these. -/
def EraseFits (st : Store) (addr endaddr a : Nat) (ws : List UInt32) : Prop :=
  addr ≤ endaddr →
    (∀ b, b / 4096 = endaddr / 4096 → st.Reads b 0xff) ∧
    ∀ r, Touches addr endaddr a → st.layout.getrange a = some r → 1 ≤ ws.length →
      a % 256 + 4 * ws.length ≤ 256 →
      a / 4 % 64 ≤ (st.page (st.layout.pageaddr r a)).length ∧
      ∀ b, a / 4096 = b / 4096 → ¬ InWindow a ws.length b → ∀ w,
        (st.page (st.layout.pageaddr r b))[b / 4 % 64]? = some w → (bytesOf w)[b % 4]? = some 0xff

/-- **The arrays after `preerase`, by address**: the sector of `endaddr` is left out. -/
theorem Allocated.preerase_at (hst : st.Allocated) (hle : addr ≤ endaddr)
    (h : st.preerase addr endaddr = some st') :
    st'.layout = st.layout ∧ st'.Allocated ∧ (∀ i, st'.page i = st.page i) ∧
      (∃ r, st.layout.getrange addr = some r ∧ endaddr ≤ (st.layout.row r).rangeend) ∧
      ∀ b r', st.layout.getrange b = some r' → st'.word r' b =
        if addr / 4096 ≤ b / 4096 ∧ b / 4096 < endaddr / 4096 then some 0xffffffff
        else st.word r' b := by
  unfold preerase at h
  cases ha : st.layout.getrange addr with
  | none =>
    rw [ha] at h
    exact nomatch h
  | some r =>
    rw [ha] at h
    dsimp only at h
    split at h
    · exact nomatch h
    · rename_i hend
      have hend : endaddr ≤ (st.layout.row r).rangeend := Nat.not_lt.mp hend
      obtain ⟨hrow, hlo, -⟩ := Layout.getrange_spec ha
      have hword := (hst.aligned.bounds _ (Layout.row_mem ha)).2
      have hlast : st.layout.getrange endaddr = some r :=
        hst.aligned.getrange_of_row hrow (by omega) hend
      have hsec : st.layout.secaddrOf r endaddr = st.layout.secaddr r endaddr := by
        rw [Layout.secaddrOf, Layout.secaddr, show (endaddr + 2 ^ 32 - (st.layout.row r).rangestart) % 2 ^ 32 =
          endaddr - (st.layout.row r).rangestart by omega]
      rw [hsec] at h
      obtain rfl := Option.some.inj h
      have hlayout := (markSecs_rest .ERS (st.layout.secaddr r addr)
        (st.layout.secaddr r endaddr - st.layout.secaddr r addr) st).1
      refine ⟨hlayout, hst.markSecs _ _ _, markSecs_page _ _ _ st, ⟨r, rfl, hend⟩, fun b r' hb => ?_⟩
      have hlt := hst.aligned.secaddr_lt hlast
      have hlen := hst.secs
      have h₁ := hst.aligned.secaddr_le_iff ha hb
      have h₂ := hst.aligned.secaddr_le_iff hlast hb
      have hmono := (hst.aligned.secaddr_le_iff ha hlast).mpr (Nat.div_le_div_right hle)
      unfold word
      rw [hlayout, markSecs_page, markSecs_sec _ _ _ _ (by omega)]
      by_cases hin : addr / 4096 ≤ b / 4096 ∧ b / 4096 < endaddr / 4096
      · rw [if_pos hin, if_pos (by omega)]
      · rw [if_neg hin, if_neg (by omega)]

/-- **The words after a write**: its sector is programmed, and what it does not store is what the page
vectors hold. -/
theorem Allocated.written_word (hst : st.Allocated) (ha : st.layout.getrange a = some r)
    (hws : a % 256 + 4 * ws.length ≤ 256) (hb : st.layout.getrange b = some r') :
    (st.write r a ws).word r' b =
      if a / 4096 = b / 4096 then
        some ((if InWindow a ws.length b then ws[b / 4 - a / 4]?
          else if a / 256 = b / 256 then (st.grown r a ws.length)[b / 4 % 64]?
          else (st.page (st.layout.pageaddr r' b))[b / 4 % 64]?).getD 0xffffffff)
      else st.word r' b := by
  have hlayout : (st.write r a ws).layout = st.layout := by rw [hst.write_arrays ha ws]; rfl
  have hword := hst.write_word ha hws hb
  obtain ⟨hsec, hpage⟩ := hst.write_at ha ws hb
  unfold word
  rw [hlayout, hsec]
  by_cases hsame : a / 4096 = b / 4096
  · rw [if_pos hsame, if_pos hsame]
    dsimp only
    rw [hword]
    rfl
  · rw [if_neg hsame, if_neg hsame, hpage, if_neg (by omega)]

/-- **What an erase touches reads erased**, if the last sector does already. -/
theorem Allocated.reads_erased (hst : st.Allocated) (h : st.preerase addr endaddr = some st')
    (hlast : ∀ b, b / 4096 = endaddr / 4096 → st.Reads b 0xff) (htouch : Touches addr endaddr b) :
    st'.Reads b 0xff := by
  obtain ⟨hle, hge, hle'⟩ := htouch
  obtain ⟨hlayout, hst', -, ⟨r₀, hr₀, hend⟩, hword⟩ := hst.preerase_at hle h
  by_cases hin : b / 4096 = endaddr / 4096
  · obtain ⟨r, w, hr, hw, hv⟩ := hst.reads_iff.mp (hlast b hin)
    refine hst'.reads_of_word (by rw [hlayout]; exact hr) ?_ hv
    rw [hword b r hr, if_neg (by omega)]
    exact hw
  · have hstart := hst.aligned.start _ (Layout.row_mem hr₀)
    have hlo := (Layout.getrange_spec hr₀).2.1
    have hr := hst.aligned.getrange_of_row (a := b) (Layout.getrange_spec hr₀).1 (by omega) (by omega)
    have hw := hword b r₀ hr
    rw [if_pos (by omega)] at hw
    exact hst'.reads_of_word (by rw [hlayout]; exact hr) hw (ones_byte b)

/-- What a write leaves of a byte that it does not store is ones, if the page vectors hold nothing else
there and reach up to the write. -/
theorem Allocated.kept_ones (hst : st.Allocated) {n : Nat} (ha : st.layout.getrange a = some r)
    (hsec : a / 4096 = b / 4096) (hin : ¬ InWindow a n b)
    (hreach : a / 4 % 64 ≤ (st.page (st.layout.pageaddr r a)).length)
    (hones : ∀ w, (st.page (st.layout.pageaddr r b))[b / 4 % 64]? = some w →
      (bytesOf w)[b % 4]? = some 0xff) :
    (bytesOf ((if a / 256 = b / 256 then (st.grown r a n)[b / 4 % 64]?
      else (st.page (st.layout.pageaddr r b))[b / 4 % 64]?).getD 0xffffffff))[b % 4]? = some 0xff := by
  have hheld (x : Option UInt32) (hx : x = (st.page (st.layout.pageaddr r b))[b / 4 % 64]?) :
      (bytesOf (x.getD 0xffffffff))[b % 4]? = some 0xff := by
    cases x with
    | none => exact ones_byte b
    | some w => exact hones w hx.symm
  by_cases hpg : a / 256 = b / 256
  · have hr := hst.aligned.getrange_sector ha hsec
    have hsamePage := (hst.aligned.pageaddr_eq_iff ha hr).mpr hpg
    rw [if_pos hpg, grown_getElem?]
    by_cases hold : b / 4 % 64 < (st.page (st.layout.pageaddr r a)).length
    · rw [if_pos hold, hsamePage]
      exact hheld _ rfl
    · rw [if_neg hold, if_neg (by unfold InWindow at hin; omega)]
      exact ones_byte b
  · rw [if_neg hpg]
    exact hheld _ rfl

/-- And if they are ones after the write, the page vectors hold nothing else and reach up to it: the
words in between would be zeros. -/
theorem Allocated.ones_kept (hst : st.Allocated) {n : Nat} (ha : st.layout.getrange a = some r)
    (hrest : ∀ b, a / 4096 = b / 4096 → ¬ InWindow a n b →
      (bytesOf ((if a / 256 = b / 256 then (st.grown r a n)[b / 4 % 64]?
        else (st.page (st.layout.pageaddr r b))[b / 4 % 64]?).getD 0xffffffff))[b % 4]? = some 0xff) :
    a / 4 % 64 ≤ (st.page (st.layout.pageaddr r a)).length ∧
      ∀ b, a / 4096 = b / 4096 → ¬ InWindow a n b → ∀ w,
        (st.page (st.layout.pageaddr r b))[b / 4 % 64]? = some w → (bytesOf w)[b % 4]? = some 0xff := by
  refine ⟨?_, fun b hb hout w hw => ?_⟩
  · -- the word behind the page vector is a zero when the write starts after it
    by_contra hgap
    have hidx : (256 * (a / 256) + 4 * (st.page (st.layout.pageaddr r a)).length) / 4 % 64 =
        (st.page (st.layout.pageaddr r a)).length := by omega
    have hzero := hrest (256 * (a / 256) + 4 * (st.page (st.layout.pageaddr r a)).length)
      (by omega) (by unfold InWindow; omega)
    rw [if_pos (by omega), hidx, grown_getElem?, if_neg (Nat.lt_irrefl _), if_pos (by omega),
      show (256 * (a / 256) + 4 * (st.page (st.layout.pageaddr r a)).length) % 4 = 0 by omega] at hzero
    exact absurd hzero (by decide)
  · have hbyte := hrest b hb hout
    by_cases hsame : a / 256 = b / 256
    · have hr := hst.aligned.getrange_sector ha hb
      have hpg := (hst.aligned.pageaddr_eq_iff ha hr).mpr hsame
      have hlt := (List.getElem?_eq_some_iff.mp hw).1
      rw [← hpg] at hw hlt
      rw [if_pos hsame, grown_getElem?, if_pos hlt, hw] at hbyte
      exact hbyte
    · rw [if_neg hsame, hw] at hbyte
      exact hbyte

/-- What holds of the page vectors before an erase holds of them afterwards. -/
theorem grown_same (hlayout : st'.layout = st.layout) (hpage : ∀ i, st'.page i = st.page i) (n : Nat) :
    st'.grown r a n = st.grown r a n := by
  refine List.ext_getElem? fun k => ?_
  rw [grown_getElem?, grown_getElem?, hlayout, hpage]

/-- Where erasing agrees, it finds the sectors erased. -/
theorem Allocated.fits_of_agrees (hst : st.Allocated) (h : st.preerase addr endaddr = some st')
    (hagree : st.EraseAgrees addr endaddr a ws) : st.EraseFits addr endaddr a ws := by
  intro hle
  obtain ⟨hlayout, hst', hpage, -, hword⟩ := hst.preerase_at hle h
  obtain ⟨hreads, hwrite⟩ := hagree st' h
  refine ⟨fun b hb => ?_, fun r htouch ha hone hfit => ?_⟩
  · obtain ⟨r, w, hr, hw, hv⟩ := hst'.reads_iff.mp (hreads b ⟨hle, by omega, by omega⟩)
    rw [hlayout] at hr
    rw [hword b r hr, if_neg (by omega)] at hw
    exact hst.reads_of_word hr hw hv
  · have ha' : st'.layout.getrange a = some r := by rw [hlayout]; exact ha
    have hknown : st'.sec (st'.layout.secaddr r a) ≠ .UNK := by
      intro hunk
      obtain ⟨r', w, hr', hw, -⟩ := hst'.reads_iff.mp (hreads a htouch)
      obtain rfl : r = r' := Option.some.inj (ha'.symm.trans hr')
      unfold word at hw
      rw [hunk] at hw
      exact nomatch hw
    have haccept := hst'.writeRange_eq_some.mpr ⟨ha', hknown, hone, by omega, hfit⟩
    refine hst.ones_kept ha fun b hb hout => ?_
    -- a byte of the sector that is not written, as the write leaves it
    have hr := hst'.aligned.getrange_sector ha' hb
    have hread := hwrite r htouch haccept b 0xff ⟨hle, by have := htouch.2; omega, by have := htouch.2; omega⟩
      (by rw [writtenByte, if_neg hout])
    have hafter := hst'.written_word ha' hfit hr
    obtain ⟨hsame, halloc⟩ := hst'.write_allocated ha' ws
    rw [if_pos hb, if_neg hout, grown_same hlayout hpage, hpage, hlayout] at hafter
    exact (halloc.reads_word_iff (by rw [hsame]; exact hr) hafter).mp hread

/-- Where it finds them erased, it agrees. -/
theorem Allocated.agrees_of_fits (hst : st.Allocated) (hfits : st.EraseFits addr endaddr a ws) :
    st.EraseAgrees addr endaddr a ws := by
  intro st' h
  by_cases hle : addr ≤ endaddr
  · obtain ⟨hlayout, hst', hpage, -, -⟩ := hst.preerase_at hle h
    obtain ⟨hlast, hpages⟩ := hfits hle
    refine ⟨fun b => hst.reads_erased h hlast, fun r htouch haccept b v hb hv => ?_⟩
    obtain ⟨ha', -, hone, -, hfit⟩ := hst'.writeRange_eq_some.mp haccept
    have ha : st.layout.getrange a = some r := by rw [← hlayout]; exact ha'
    obtain ⟨hreach, hones⟩ := hpages r htouch ha hone hfit
    obtain ⟨hsame, halloc⟩ := hst'.write_allocated ha' ws
    obtain ⟨r', w, hr', hw, hff⟩ := hst'.reads_iff.mp (hst.reads_erased h hlast hb)
    have hafter := hst'.written_word ha' hfit hr'
    by_cases hsec : a / 4096 = b / 4096
    · rw [if_pos hsec] at hafter
      refine halloc.reads_of_word (by rw [hsame]; exact hr') hafter ?_
      unfold writtenByte at hv
      by_cases hin : InWindow a ws.length b
      · rw [if_pos hin] at hv ⊢
        obtain ⟨hlo, hhi⟩ := hin
        have hget : ws[b / 4 - a / 4]? = some (ws.get ⟨b / 4 - a / 4, by omega⟩) := by
          rw [List.getElem?_eq_getElem (by omega)]
          rfl
        rw [getElem?_unwords_byte, show (b - 4 * (a / 4)) / 4 = b / 4 - a / 4 by omega,
          show (b - 4 * (a / 4)) % 4 = b % 4 by omega, hget, Option.bind_some] at hv
        rw [hget, Option.getD_some]
        exact hv
      · rw [if_neg hin] at hv ⊢
        obtain rfl := Option.some.inj hv
        have hr : st.layout.getrange b = some r := hst.aligned.getrange_sector ha hsec
        obtain rfl : r = r' := Option.some.inj (hr.symm.trans (by rw [← hlayout]; exact hr'))
        rw [grown_same hlayout hpage, hpage, hlayout]
        exact hst.kept_ones ha hsec hin hreach (hones b hsec hin)
    · rw [if_neg hsec, hw] at hafter
      refine halloc.reads_of_word (by rw [hsame]; exact hr') hafter ?_
      rw [writtenByte, if_neg (by unfold InWindow; omega)] at hv
      rw [hff, hv]
  · exact ⟨fun b hb => absurd hb.1 hle, fun r htouch => absurd htouch.1 hle⟩

/-- **Erasing agrees with reading and writing exactly when it finds the sectors erased.** -/
theorem Allocated.erase_agrees (hst : st.Allocated)
    (hacc : ∃ st', st.preerase addr endaddr = some st') :
    st.EraseAgrees addr endaddr a ws ↔ st.EraseFits addr endaddr a ws := by
  obtain ⟨st', h⟩ := hacc
  exact ⟨hst.fits_of_agrees h, hst.agrees_of_fits⟩

end Store

/-! ## §6 — every reachable state -/

variable {rand : Nat → UInt8} {f : CchanFlash} {cs : List (Nat × Nat)} {L : Layout}

theorem Reachable.allocated (h : Reachable rand f) (hL : f.store.layout.Aligned) : f.store.Allocated :=
  ⟨hL, h.bounded.secs, h.bounded.pgm⟩

/-- **The back door and the command path agree exactly on loads that fit and on sectors found erased**,
from any state and for any later write. -/
theorem back_door (hcs : ∀ c ∈ cs, SectorAligned c) (hd : cs.Pairwise Apart)
    (hL : rangeinit (declare cs) = some L) (h : Reachable rand f) (hf : f.store.layout = L) :
    (∀ addr n, addr % 4 = 0 → 1 ≤ n → (∃ data st', f.store.preload addr data n = some st') →
      (f.store.LoadAgrees addr n ↔ Store.LoadFits addr n)) ∧
    ∀ addr endaddr a ws, (∃ st', f.store.preerase addr endaddr = some st') →
      (f.store.EraseAgrees addr endaddr a ws ↔ f.store.EraseFits addr endaddr a ws) := by
  have hst := h.allocated (by rw [hf]; exact rangeinit_aligned hcs hd hL)
  exact ⟨fun addr n h4 hn hacc => hst.load_agrees hn h4 hacc,
    fun addr endaddr a ws hacc => hst.erase_agrees hacc⟩

theorem oneSector_aligned : oneSector.Aligned :=
  rangeinit_aligned (by decide) (List.pairwise_singleton _ _) oneSector_init

/-- 280 bytes are loaded into a fresh memory of one sector. -/
theorem back_door_fresh : (Store.fresh oneSector).LoadAgrees 0 280 :=
  have hboot : Reachable (fun _ => 0) (.boot oneSector 0 0 0) := .boot oneSector_init 0 0 0
  ((back_door (by decide) (List.pairwise_singleton _ _) oneSector_init hboot rfl).1 0 280 (by decide)
    (by decide)
      ⟨fun _ => 0, _, (Store.preload_eq (by decide) (by decide)).mpr ⟨0, by decide, by decide, rfl⟩⟩).mpr
    (by decide)

/-- Twenty bytes are loaded, and then four in front of them: the page vector is cut to four words, and
the last word of the twenty bytes reads erased. -/
theorem word_chopped :
    ∃ (f : CchanFlash) (st : Store), Reachable (fun _ => 0) f ∧ f.store.layout = oneSector ∧
      f.store.preload 0 (fun _ => 0) 4 = some st ∧ f.store.Stores 16 ∧ f.store.Reads 16 0 ∧
      ¬ st.Reads 16 0 := by
  have hboot : Reachable (fun _ => 0) (.boot oneSector 0 0 0) := .boot oneSector_init 0 0 0
  have hst := hboot.allocated oneSector_aligned
  have hr : oneSector.getrange 16 = some 0 := by decide
  obtain ⟨st₁, h₁⟩ : ∃ st₁, (Store.fresh oneSector).preload 0 (fun _ => 0) 20 = some st₁ :=
    ⟨_, (Store.preload_eq (by decide) (by decide)).mpr ⟨0, by decide, by decide, rfl⟩⟩
  obtain ⟨hlayout₁, hst₁, hat⟩ := hst.preload_at (by decide) (by decide) (by decide) h₁
  have hlayout₁ : st₁.layout = oneSector := hlayout₁
  have hword₁ := hst.preload_word (by decide) (by decide) (by decide) h₁ hr
  obtain ⟨st₂, h₂⟩ : ∃ st₂, st₁.preload 0 (fun _ => 0) 4 = some st₂ :=
    ⟨_, (Store.preload_eq (by decide) (by decide)).mpr
      ⟨0, by rw [hlayout₁]; decide, by rw [hlayout₁]; decide, rfl⟩⟩
  have hr₁ : st₁.layout.getrange 16 = some 0 := by rw [hlayout₁]; exact hr
  obtain ⟨hlayout₂, hst₂, -⟩ := hst₁.preload_at (by decide) (by decide) (by decide) h₂
  have hword₂ := hst₁.preload_word (by decide) (by decide) (by decide) h₂ hr₁
  rw [if_pos (by decide), if_pos (by decide)] at hword₁
  rw [if_pos (by decide), if_neg (by decide), if_pos (by decide)] at hword₂
  refine ⟨{ CchanFlash.boot oneSector 0 0 0 with store := st₁ }, st₂, hboot.preload 0 _ 20 h₁, hlayout₁,
    h₂, ?_, hst₁.reads_of_word hr₁ hword₁ (by decide), ?_⟩
  · obtain ⟨hsec, hpage⟩ := hat 16 0 hr
    refine ⟨0, hr₁, ?_, ?_⟩
    · rw [show st₁.layout = (CchanFlash.boot oneSector 0 0 0).store.layout from hlayout₁, hsec]
      rfl
    · rw [show st₁.layout = (CchanFlash.boot oneSector 0 0 0).store.layout from hlayout₁, hpage]
      rw [if_pos (by decide), Store.loadedPage, Store.loadWords_length]
      decide
  · rw [hst₂.reads_word_iff (by rw [hlayout₂]; exact hr₁) hword₂]
    decide

end Espmod.Flash
