/-
# Espmod.Flash.BackDoor — `preerase` and `preload`

A testbench can erase sectors and load data without a command. Both routines work on the arrays behind
the thread: they have their own loops over sectors and pages. `Reachable` are the states of the thread
under received bytes and calls of the two.
-/
import Espmod.Flash.RangeTable
import Espmod.Flash.Store

namespace Espmod.Flash

open Espmod.Lib.Text Espmod.Lib.Words

/-! ## §1 — the routines -/

/-- `SECADDR` of an address that need not be in the range: the subtraction is unsigned. -/
def Layout.secaddrOf (L : Layout) (range addr : Nat) : Nat :=
  (L.row range).secstart + (((addr + 2 ^ 32 - (L.row range).rangestart) % 2 ^ 32) >>> 12)

namespace Store

/-- `secs[sec] = s` for `n` sectors from `i` on. -/
def markSecs (s : SecState) (i n : Nat) (st : Store) : Store :=
  (List.range' i n).foldl (fun st sec => st.setSec sec s) st

/-- `cchanflash::preerase`; `none` where it reports an error and returns false. -/
def preerase (st : Store) (addr endaddr : Nat) : Option Store :=
  match st.layout.getrange addr with
  | none => none
  | some r =>
    if endaddr > (st.layout.row r).rangeend then none
    else
      let startsec := st.layout.secaddr r addr
      let endsec := st.layout.secaddrOf r endaddr
      some (st.markSecs .ERS startsec (endsec - startsec))

/-- `((unsigned int *)data)[i]`. The bytes after those of the caller are whatever follows them. -/
def wordAt (data : Nat → UInt8) (i : Nat) : UInt32 :=
  wordOf (data (4 * i)) (data (4 * i + 1)) (data (4 * i + 2)) (data (4 * i + 3))

/-- `resize(n, 0xffffffff)`. -/
def resizeOnes (n : Nat) (p : List UInt32) : List UInt32 :=
  p.take n ++ List.replicate (n - p.length) 0xffffffff

/-- The loop over the words of a page, and `fromaddr` after it. -/
def loadWords (data : Nat → UInt8) (stop : Nat) (p : List UInt32) (byteaddr fromaddr : Nat) :
    List UInt32 × Nat :=
  if byteaddr < stop then
    loadWords data stop (p.set (byteaddr >>> 2) (wordAt data (fromaddr >>> 2)))
      (byteaddr + 4) (fromaddr + 4)
  else (p, fromaddr)
termination_by stop - byteaddr

/-- The loop over the pages. -/
def loadPages (r : Nat) (data : Nat → UInt8) (endaddr : Nat) (st : Store) (adinsec fromaddr : Nat) :
    Store :=
  if adinsec ≤ endaddr then
    let pageend := adinsec ||| 0xff
    let writeend := if endaddr ≥ pageend then pageend else endaddr
    let pagesize := writeend % 256 + 1
    let pg := ((st.layout.row r).secstart <<< 4) + (adinsec >>> 8)
    let loaded :=
      loadWords data (writeend % 256) (resizeOnes pagesize (st.page pg)) (adinsec % 256) fromaddr
    loadPages r data endaddr (st.setPage pg loaded.1) (adinsec + 256) loaded.2
  else st
termination_by endaddr + 1 - adinsec

/-- `cchanflash::preload`; `none` where it reports an error and returns false. -/
def preload (st : Store) (addr : Nat) (data : Nat → UInt8) (size : Nat) : Option Store :=
  match st.layout.getrange addr with
  | none => none
  | some r =>
    if (size + addr + (2 ^ 32 - 1)) % 2 ^ 32 > (st.layout.row r).rangeend then none
    else
      let startsec := st.layout.secaddr r addr
      let endsec := st.layout.secaddrOf r ((addr + size + (2 ^ 32 - 1)) % 2 ^ 32)
      let st := st.markSecs .PROG startsec (endsec + 1 - startsec)
      let adinsec := addr - (st.layout.row r).rangestart
      let endaddr := (adinsec + size + (2 ^ 32 - 1)) % 2 ^ 32
      some (st.loadPages r data endaddr adinsec 0)

end Store

/-- The states of the thread under any bytes and any calls of the two routines. -/
inductive Reachable (rand : Nat → UInt8) : CchanFlash → Prop
  | boot {cs : List (Nat × Nat)} {L : Layout} (hL : rangeinit (declare cs) = some L)
      (addr size rands : Nat) : Reachable rand (.boot L addr size rands)
  | byte {f : CchanFlash} (b : UInt8) : Reachable rand f → Reachable rand (f.step rand b)
  | preerase {f : CchanFlash} {st : Store} (addr endaddr : Nat) :
      Reachable rand f → f.store.preerase addr endaddr = some st →
      Reachable rand { f with store := st }
  | preload {f : CchanFlash} {st : Store} (addr : Nat) (data : Nat → UInt8) (size : Nat) :
      Reachable rand f → f.store.preload addr data size = some st →
      Reachable rand { f with store := st }
  /-- the driver has read what the thread answered -/
  | drain {f : CchanFlash} : Reachable rand f → Reachable rand { f with reply := [] }

/-! ## §2 — array lengths -/

/-- The arrays have the allocated lengths, and no page vector is longer than the bytes of a page. -/
structure Store.Bounded (st : Store) : Prop where
  secs : st.secs.length = st.layout.seccnt
  pgm : st.pgm.length = st.layout.seccnt * 16
  pages : ∀ i, (st.page i).length ≤ 256

namespace Store

variable {st st' : Store} {a n r : Nat}

theorem setPage_cases (st : Store) (i : Nat) (p : List UInt32) (j : Nat) :
    (st.setPage i p).page j = st.page j ∨ (st.setPage i p).page j = p := by
  by_cases hi : i < st.pgm.length
  · rw [setPage_page hi]
    split
    · exact Or.inr rfl
    · exact Or.inl rfl
  · refine Or.inl ?_
    rw [setPage, List.set_eq_of_length_le (Nat.not_lt.mp hi)]

theorem Bounded.setSec (h : st.Bounded) (i : Nat) (s : SecState) : (st.setSec i s).Bounded where
  secs := by rw [setSec_layout, ← h.secs, Store.setSec, List.length_set]
  pgm := h.pgm
  pages := h.pages

theorem Bounded.setPage (h : st.Bounded) (i : Nat) {p : List UInt32} (hp : p.length ≤ 256) :
    (st.setPage i p).Bounded where
  secs := h.secs
  pgm := by rw [setPage_layout, ← h.pgm, Store.setPage, List.length_set]
  pages j := by
    rcases st.setPage_cases i p j with hj | hj
    · rw [hj]
      exact h.pages j
    · rw [hj]
      exact hp

theorem Bounded.erase (h : st.Bounded) (r a : Nat) : (st.erase r a).Bounded := by
  have hclear (ks : List Nat) (i : Nat) {st : Store} (h : st.Bounded) :
      (ks.foldl (fun st k => st.setPage (i + k) []) st).Bounded := by
    induction ks generalizing st with
    | nil => exact h
    | cons k ks ih => exact ih (h.setPage _ (Nat.zero_le _))
  exact hclear _ _ (h.setSec _ _)

theorem addrinpage_lt (L : Layout) (r a : Nat) : L.addrinpage r a < 64 := by
  have hmask : (a - (L.row r).rangestart) &&& 0xfc ≤ 0xfc := Nat.and_le_right
  rw [Layout.addrinpage, Nat.shiftRight_eq_div_pow]
  omega

theorem Bounded.prepare (h : st.Bounded) (hn : n ≤ 64) : (st.prepare r a n).Bounded := by
  have hoff := addrinpage_lt st.layout r a
  unfold Store.prepare
  dsimp only
  split
  · refine (h.setSec _ _).setPage _ ?_
    simp only [resize, List.length_append, List.length_take, List.length_replicate, setSec_layout]
    omega
  · exact h.setSec _ _

theorem Bounded.putWord (h : st.Bounded) (pos : Nat) (w : UInt32) : (st.putWord r a pos w).Bounded := by
  refine h.setPage _ ?_
  rw [List.length_set]
  exact h.pages _

theorem Bounded.markSecs (h : st.Bounded) (s : SecState) (i n : Nat) : (st.markSecs s i n).Bounded := by
  unfold Store.markSecs
  induction n generalizing i st with
  | zero => exact h
  | succ n ih =>
    rw [List.range'_succ, List.foldl_cons]
    exact ih (h.setSec _ _) _

theorem Bounded.preerase (h : st.Bounded) {addr endaddr : Nat}
    (hst : st.preerase addr endaddr = some st') : st'.Bounded := by
  unfold Store.preerase at hst
  split at hst
  · exact nomatch hst
  · split at hst
    · exact nomatch hst
    · obtain rfl := Option.some.inj hst
      exact h.markSecs _ _ _

theorem loadWords_length (data : Nat → UInt8) (stop : Nat) (p : List UInt32) (byteaddr fromaddr : Nat) :
    (loadWords data stop p byteaddr fromaddr).1.length = p.length := by
  induction p, byteaddr, fromaddr using loadWords.induct data stop with
  | case1 p byteaddr fromaddr hlt ih => rw [loadWords, if_pos hlt, ih, List.length_set]
  | case2 p byteaddr fromaddr hge => rw [loadWords, if_neg hge]

theorem Bounded.loadPages (h : st.Bounded) (data : Nat → UInt8) (endaddr adinsec fromaddr : Nat) :
    (st.loadPages r data endaddr adinsec fromaddr).Bounded := by
  induction st, adinsec, fromaddr using loadPages.induct r data endaddr with
  | case1 st adinsec fromaddr hle pageend writeend pagesize pg loaded ih =>
    rw [Store.loadPages, if_pos hle]
    refine ih (h.setPage _ ?_)
    rw [loadWords_length]
    simp only [resizeOnes, List.length_append, List.length_take, List.length_replicate]
    omega
  | case2 st adinsec fromaddr hgt =>
    rw [Store.loadPages, if_neg hgt]
    exact h

theorem Bounded.preload (h : st.Bounded) {addr size : Nat} {data : Nat → UInt8}
    (hst : st.preload addr data size = some st') : st'.Bounded := by
  unfold Store.preload at hst
  split at hst
  · exact nomatch hst
  · split at hst
    · exact nomatch hst
    · obtain rfl := Option.some.inj hst
      exact (h.markSecs _ _ _).loadPages _ _ _ _

end Store

/-! ## §3 — reachable states -/

variable {rand : Nat → UInt8} {f : CchanFlash}

/-- A write that waits for its data has an accepted size. -/
def CchanFlash.SizeChecked (f : CchanFlash) : Prop :=
  match f.pc with
  | .wantD _ | .wantColon _ => f.size ≤ 64
  | _ => True

/-- A complete line keeps the bounds. -/
theorem dispatch_bounded (h : f.store.Bounded) (msg : Bytes) :
    (f.dispatch rand msg).store.Bounded ∧ (f.dispatch rand msg).SizeChecked := by
  have hscan (args : List Int) : (f.scanInto args).store = f.store := by
    unfold CchanFlash.scanInto
    split <;> rfl
  unfold CchanFlash.dispatch
  split
  · unfold CchanFlash.execErase
    dsimp only
    split
    · refine ⟨?_, trivial⟩
      simpa only [CchanFlash.answer, hscan] using h
    · refine ⟨?_, trivial⟩
      simpa only [CchanFlash.answer, hscan] using h.erase _ _
  · split
    · unfold CchanFlash.execWrite
      dsimp only
      split
      · refine ⟨?_, trivial⟩
        simpa only [CchanFlash.answer, hscan] using h
      · rename_i hr
        exact ⟨by simpa only [hscan] using h, (Store.writeRange_size hr).2⟩
    · unfold CchanFlash.execRead
      dsimp only
      split
      · refine ⟨?_, trivial⟩
        simpa only [CchanFlash.answer, hscan] using h
      · split
        · exact ⟨by simpa only [hscan] using h, trivial⟩
        · refine ⟨?_, trivial⟩
          simpa only [CchanFlash.answer, hscan] using h

/-- Every byte keeps the bounds. -/
theorem step_bounded (h : f.store.Bounded) (hsize : f.SizeChecked) (b : UInt8) :
    (f.step rand b).store.Bounded ∧ (f.step rand b).SizeChecked := by
  unfold CchanFlash.SizeChecked at hsize
  unfold CchanFlash.step
  split
  · split
    · exact dispatch_bounded h _
    · exact ⟨h, trivial⟩
  · rename_i hpc
    rw [hpc] at hsize
    refine ⟨h, ?_⟩
    unfold CchanFlash.SizeChecked
    split
    · exact hsize
    · exact hsize
    · trivial
  · rename_i hpc
    rw [hpc] at hsize
    split
    · exact ⟨h.prepare hsize, trivial⟩
    · exact ⟨h, trivial⟩
  · rename_i hpc
    split
    · exact ⟨h, trivial⟩
    · refine ⟨h, ?_⟩
      simp only [CchanFlash.SizeChecked, hpc]
  · rename_i range pos got hpc
    split
    · refine ⟨h.putWord _ _, ?_⟩
      unfold CchanFlash.SizeChecked
      by_cases hmore : pos + 1 < f.size
      · simp only [hmore, if_true]
      · simp only [hmore, if_false]
    · exact ⟨h, trivial⟩
  · rename_i hpc
    split
    · exact ⟨h, trivial⟩
    · refine ⟨h, ?_⟩
      simp only [CchanFlash.SizeChecked, hpc]
  · rename_i hpc
    refine ⟨h, ?_⟩
    simp only [CchanFlash.SizeChecked, hpc]

/-- **No page vector outgrows 256 words**, whatever is received and loaded. -/
theorem Reachable.bounded (h : Reachable rand f) : f.store.Bounded := by
  suffices hboth : f.store.Bounded ∧ f.SizeChecked from hboth.1
  induction h with
  | boot hL addr size rands =>
    refine ⟨⟨List.length_replicate, List.length_replicate, fun i => ?_⟩, trivial⟩
    simp only [CchanFlash.boot, Store.fresh, Store.page, List.getD_eq_getElem?_getD,
      List.getElem?_replicate]
    split <;> exact Nat.zero_le _
  | byte b _ ih => exact step_bounded ih.1 ih.2 b
  | preerase addr endaddr _ hst ih => exact ⟨ih.1.preerase hst, ih.2⟩
  | preload addr data size _ hst ih => exact ⟨ih.1.preload hst, ih.2⟩
  | drain _ ih => exact ih

end Espmod.Flash
