/-
# Espmod.Flash.ReadLoop — the loops of the `r:` branch

`ReadBranch` runs the loops of a read round by round, on `unsigned int` counters: `end` is computed as
`size + pos - 1`, and both it and the counters wrap. It relates a read to the bytes it answers, and a
read whose filling loop does not end to nothing. `fetch` says what it answers (`readBranch_iff`); a read
of any reachable store answers four bytes a word and the status exactly when its `end` does not wrap
(`read_exact`).
-/
import Espmod.Flash.BackDoor
import Espmod.Lib.Loop

namespace Espmod.Flash

open Espmod.Lib.Text Espmod.Lib.Words Espmod.Lib.Loop

/-! ## §1 — the loops -/

namespace Store

/-- `pos = pos + 1`. -/
def nextPos (pos : Nat) : Nat := (pos + 1) % 2 ^ 32

/-- `pos = (addr>>2) & 0x3f`. -/
def readPos (addr : Nat) : Nat := (addr >>> 2) &&& 0x3f

/-- `end = size + pos - 1`. -/
def readEnd (addr size : Nat) : Nat := (size + readPos addr + (2 ^ 32 - 1)) % 2 ^ 32

/-- `endsto = pgm[pageaddr].size()-1`. -/
def readSto (page : List UInt32) : Nat := (page.length + (2 ^ 32 - 1)) % 2 ^ 32

/-- `(end>endsto)?endsto:end`. -/
def readLast (page : List UInt32) (addr size : Nat) : Nat :=
  if readEnd addr size > readSto page then readSto page else readEnd addr size

/-- A round of a filling loop. -/
def fillRound (pos : Nat) : Bytes × Nat := ([0xff, 0xff, 0xff, 0xff], nextPos pos)

/-- A round of the loop over the stored words. -/
def storedRound (page : List UInt32) (pos : Nat) : Bytes × Nat := (bytesOf (page.getD pos 0), nextPos pos)

/-- A round of the loop that answers random bytes, with the count of `rand()` calls. -/
def randomRound (rand : Nat → UInt8) (s : Nat × Nat) : Bytes × Nat × Nat :=
  ([rand s.2, rand (s.2 + 1), rand (s.2 + 2), rand (s.2 + 3)], nextPos s.1, s.2 + 4)

/-- The read of an accepted address, with what it writes to `i_uflash.to`. The sector number has to be
inside the array. -/
inductive ReadBranch (rand : Nat → UInt8) (st : Store) (rands range addr size : Nat) : Bytes → Prop
  | unknown {bs : Bytes} {s : Nat × Nat} : st.layout.secaddr range addr < st.secs.length →
      st.sec (st.layout.secaddr range addr) = .UNK →
      Ends (fun s => s.1 < size) (randomRound rand) (0, rands) bs s →
      ReadBranch rand st rands range addr size (bs ++ [0])
  | erased {bs : Bytes} {pos : Nat} : st.layout.secaddr range addr < st.secs.length →
      st.sec (st.layout.secaddr range addr) ≠ .UNK →
      st.sec (st.layout.secaddr range addr) = .ERS ∨
        (st.page (st.layout.pageaddr range addr)).length = 0 →
      Ends (fun pos => pos < size) fillRound 0 bs pos →
      ReadBranch rand st rands range addr size (bs ++ [0])
  | programmed {bs cs : Bytes} {pos pos' : Nat} :
      st.layout.secaddr range addr < st.secs.length →
      st.sec (st.layout.secaddr range addr) ≠ .UNK →
      ¬ (st.sec (st.layout.secaddr range addr) = .ERS ∨
        (st.page (st.layout.pageaddr range addr)).length = 0) →
      Ends (fun pos => pos ≤ readLast (st.page (st.layout.pageaddr range addr)) addr size)
        (storedRound (st.page (st.layout.pageaddr range addr))) (readPos addr) bs pos →
      Ends (fun pos => pos ≤ readEnd addr size) fillRound pos cs pos' →
      ReadBranch rand st rands range addr size (bs ++ cs ++ [0])

/-! ## §2 — runs of the loops -/

variable {rand : Nat → UInt8} {st : Store} {rands r a n pos pos' m fin : Nat} {page : List UInt32}
  {bs cs : Bytes}

theorem nextPos_eq (h : pos + 1 < 2 ^ 32) : nextPos pos = pos + 1 := Nat.mod_eq_of_lt h

/-- A counter that does not reach the limit runs as many rounds as there are values. -/
theorem count_ends {guard : Nat → Prop} {body : Nat → Bytes × Nat} {emit : Nat → Bytes}
    (hbody : ∀ pos, body pos = (emit pos, nextPos pos)) (hlt : pos + m < 2 ^ 32)
    (hgo : ∀ k < m, guard (pos + k)) (hstop : ¬ guard (pos + m)) :
    Ends guard body pos ((List.range m).flatMap fun k => emit (pos + k)) (pos + m) := by
  refine loop_rounds (fun k => pos + k) (fun k => emit (pos + k)) m (fun k hk => ⟨hgo k hk, ?_⟩) hstop
  rw [hbody, nextPos_eq (by omega)]
  rfl

theorem flatMap_fill (m : Nat) :
    ((List.range m).flatMap fun _ => [0xff, 0xff, 0xff, 0xff]) = List.replicate (4 * m) (0xff : UInt8) := by
  induction m with
  | zero => rfl
  | succ m ih =>
    rw [List.range_succ, List.flatMap_append, ih, Nat.mul_succ, List.replicate_add]
    rfl

theorem fill_ends (hlt : fin + 1 < 2 ^ 32) (hpos : pos < 2 ^ 32) :
    Ends (fun pos => pos ≤ fin) fillRound pos (List.replicate (4 * (fin + 1 - pos)) 0xff)
      (pos + (fin + 1 - pos)) := by
  have hrun : Ends (fun pos => pos ≤ fin) fillRound pos
      ((List.range (fin + 1 - pos)).flatMap fun _ => [0xff, 0xff, 0xff, 0xff]) (pos + (fin + 1 - pos)) :=
    count_ends (fun _ => rfl) (by omega) (fun k hk => by omega) (by omega)
  rwa [flatMap_fill] at hrun

/-- A window of the page, word by word. -/
theorem flatMap_window (page : List UInt32) (pos : Nat) : ∀ m, pos + m ≤ page.length →
    ((List.range m).flatMap fun k => bytesOf (page.getD (pos + k) 0)) =
      unwords ((page.drop pos).take m) := by
  intro m
  induction m with
  | zero => intro _; simp
  | succ m ih =>
    intro hlen
    have hget : (page.drop pos)[m]? = some (page.getD (pos + m) 0) := by
      rw [List.getElem?_drop, List.getD_eq_getElem?_getD, List.getElem?_eq_getElem (by omega),
        Option.getD_some]
    rw [List.range_succ, List.flatMap_append, ih (by omega), List.take_add_one, hget, unwords_append]
    rfl

theorem stored_ends {last : Nat} (hlast : last < page.length) (hlen : page.length < 2 ^ 32)
    (hpos : pos < 2 ^ 32) :
    Ends (fun pos => pos ≤ last) (storedRound page) pos
      (unwords ((page.drop pos).take (last + 1 - pos))) (pos + (last + 1 - pos)) := by
  have hrun : Ends (fun pos => pos ≤ last) (storedRound page) pos
      ((List.range (last + 1 - pos)).flatMap fun k => bytesOf (page.getD (pos + k) 0))
      (pos + (last + 1 - pos)) :=
    count_ends (fun _ => rfl) (by omega) (fun k hk => by omega) (by omega)
  by_cases hin : pos ≤ last
  · rwa [flatMap_window page pos _ (by omega)] at hrun
  · have hzero : last + 1 - pos = 0 := by omega
    rw [hzero] at hrun ⊢
    exact hrun

theorem flatMap_random (rand : Nat → UInt8) (k m : Nat) :
    ((List.range m).flatMap fun i =>
        [rand (k + 4 * i), rand (k + 4 * i + 1), rand (k + 4 * i + 2), rand (k + 4 * i + 3)]) =
      (List.range (4 * m)).map fun i => rand (k + i) := by
  induction m with
  | zero => rfl
  | succ m ih =>
    rw [List.range_succ, List.flatMap_append, ih, Nat.mul_succ, List.range_add, List.map_append]
    rfl

theorem random_ends (rand : Nat → UInt8) (k : Nat) (hn : n < 2 ^ 32) :
    Ends (fun s => s.1 < n) (randomRound rand) (0, k) ((List.range (4 * n)).map fun i => rand (k + i))
      (n, k + 4 * n) := by
  rw [← flatMap_random]
  refine loop_rounds (fun i => (i, k + 4 * i))
    (fun i => [rand (k + 4 * i), rand (k + 4 * i + 1), rand (k + 4 * i + 2), rand (k + 4 * i + 3)]) n
    (fun i hi => ⟨hi, ?_⟩) (Nat.lt_irrefl n)
  simp only [randomRound, nextPos_eq (by omega : i + 1 < 2 ^ 32)]
  rfl

/-- Counters stay words. -/
theorem ends_word {guard : Nat → Prop} {body : Nat → Bytes × Nat}
    (hbody : ∀ pos, (body pos).2 = nextPos pos) (h : Ends guard body pos bs pos')
    (hpos : pos < 2 ^ 32) : pos' < 2 ^ 32 := by
  induction h with
  | done _ => exact hpos
  | next _ _ ih =>
    refine ih ?_
    rw [hbody]
    exact Nat.mod_lt _ (by decide)

/-- A filling loop up to the largest word does not end. -/
theorem fill_forever (hpos : pos < 2 ^ 32) : ¬ Ends (fun pos => pos ≤ 2 ^ 32 - 1) fillRound pos bs pos' := by
  refine loop_forever (fun pos => pos < 2 ^ 32) (fun pos hpos => ⟨by omega, ?_⟩) hpos
  exact Nat.mod_lt _ (by decide)

/-! ## §3 — what a read answers -/

theorem readPos_lt (a : Nat) : readPos a < 64 := by
  have := Nat.and_le_right (n := a >>> 2) (m := 0x3f)
  unfold readPos
  omega

theorem readSto_eq (hlen : page.length ≤ 256) (hne : page.length ≠ 0) :
    readSto page = page.length - 1 := by
  unfold readSto
  omega

/-- `fetch` of a programmed page in the names of the loops. -/
theorem fetch_programmed (hb : st.Bounded) (hunk : st.sec (st.layout.secaddr r a) ≠ .UNK)
    (hers : ¬ (st.sec (st.layout.secaddr r a) = .ERS ∨
      (st.page (st.layout.pageaddr r a)).length = 0)) :
    st.fetch rand rands r a n =
      if readEnd a n = 2 ^ 32 - 1 then none
      else
        let page := st.page (st.layout.pageaddr r a)
        let rounds := readLast page a n + 1 - readPos a
        some (unwords ((page.drop (readPos a)).take rounds) ++
          List.replicate (4 * (readEnd a n + 1 - (readPos a + rounds))) 0xff, 0) := by
  have hsto := readSto_eq (hb.pages _) (fun h => hers (Or.inr h))
  have hlast : readLast (st.page (st.layout.pageaddr r a)) a n =
      if readEnd a n > (st.page (st.layout.pageaddr r a)).length - 1 then
        (st.page (st.layout.pageaddr r a)).length - 1 else readEnd a n := by
    rw [readLast, hsto]
  simp only [fetch, if_neg hunk, if_neg hers, ← readPos.eq_1, ← readEnd.eq_1, ← hlast]
  by_cases hin : readPos a ≤ readLast (st.page (st.layout.pageaddr r a)) a n
  · have hnext : readPos a + (readLast (st.page (st.layout.pageaddr r a)) a n + 1 - readPos a) =
        readLast (st.page (st.layout.pageaddr r a)) a n + 1 := by omega
    rw [if_pos hin, if_pos hin, hnext]
  · have hzero : readLast (st.page (st.layout.pageaddr r a)) a n + 1 - readPos a = 0 := by omega
    rw [if_neg hin, if_neg hin, hzero, List.take_zero, Nat.add_zero]
    rfl

/-- What `fetch` says is answered. -/
theorem readBranch_of_fetch (hb : st.Bounded) (hn : n < 2 ^ 32)
    (hsec : st.layout.secaddr r a < st.secs.length) {used : Nat}
    (hf : st.fetch rand rands r a n = some (bs, used)) :
    ReadBranch rand st rands r a n (bs ++ [0]) := by
  by_cases hunk : st.sec (st.layout.secaddr r a) = .UNK
  · rw [fetch_unk rand rands hunk] at hf
    obtain ⟨rfl, -⟩ := Prod.mk.inj (Option.some.inj hf)
    exact .unknown hsec hunk (random_ends rand rands hn)
  · by_cases hers : st.sec (st.layout.secaddr r a) = .ERS ∨
        (st.page (st.layout.pageaddr r a)).length = 0
    · simp only [fetch, if_neg hunk, if_pos hers] at hf
      obtain ⟨rfl, -⟩ := Prod.mk.inj (Option.some.inj hf)
      have hrun : Ends (fun pos => pos < n) fillRound 0
          ((List.range n).flatMap fun _ => [0xff, 0xff, 0xff, 0xff]) (0 + n) :=
        count_ends (fun _ => rfl) (by omega) (fun k hk => by omega) (by omega)
      rw [flatMap_fill] at hrun
      exact .erased hsec hunk hers hrun
    · rw [fetch_programmed hb hunk hers] at hf
      split at hf
      · cases hf
      · rename_i hfin
        obtain ⟨rfl, -⟩ := Prod.mk.inj (Option.some.inj hf)
        have hlen := hb.pages (st.layout.pageaddr r a)
        have hne : (st.page (st.layout.pageaddr r a)).length ≠ 0 := fun h => hers (Or.inr h)
        have hpos := readPos_lt a
        have hword : readEnd a n < 2 ^ 32 := Nat.mod_lt _ (by decide)
        have hlast : readLast (st.page (st.layout.pageaddr r a)) a n <
            (st.page (st.layout.pageaddr r a)).length := by
          rw [readLast, readSto_eq hlen hne]
          split <;> omega
        exact .programmed hsec hunk hers (stored_ends hlast (by omega) (by omega))
          (fill_ends (by omega) (by omega))

/-- A read that `fetch` finds endless answers nothing. -/
theorem no_readBranch (hb : st.Bounded) (hf : st.fetch rand rands r a n = none) :
    ¬ ReadBranch rand st rands r a n bs := by
  intro h
  have hpos := readPos_lt a
  cases h with
  | unknown _ hunk _ =>
    rw [fetch_unk rand rands hunk] at hf
    cases hf
  | erased _ hunk hers _ =>
    simp only [fetch, if_neg hunk, if_pos hers] at hf
    cases hf
  | programmed _ hunk hers hfirst hsecond =>
    rw [fetch_programmed hb hunk hers] at hf
    split at hf
    · rename_i hfin
      rw [hfin] at hsecond
      exact fill_forever (ends_word (fun _ => rfl) hfirst (by omega)) hsecond
    · cases hf

/-- A read has one answer. -/
theorem readBranch_unique (h : ReadBranch rand st rands r a n bs)
    (h' : ReadBranch rand st rands r a n cs) : bs = cs := by
  cases h with
  | unknown _ hunk hrun =>
    cases h' with
    | unknown _ _ hrun' => rw [(loop_unique hrun hrun').1]
    | erased _ hnot _ _ => exact absurd hunk hnot
    | programmed _ hnot _ _ _ => exact absurd hunk hnot
  | erased _ hnot hers hrun =>
    cases h' with
    | unknown _ hunk _ => exact absurd hunk hnot
    | erased _ _ _ hrun' => rw [(loop_unique hrun hrun').1]
    | programmed _ _ hprog _ _ => exact absurd hers hprog
  | programmed _ hnot hprog hfirst hsecond =>
    cases h' with
    | unknown _ hunk _ => exact absurd hunk hnot
    | erased _ _ hers _ => exact absurd hers hprog
    | programmed _ _ _ hfirst' hsecond' =>
      obtain ⟨rfl, rfl⟩ := loop_unique hfirst hfirst'
      rw [(loop_unique hsecond hsecond').1]

/-- **The loops of a read end with what `fetch` says**, and end where it says they do. -/
theorem readBranch_iff (hb : st.Bounded) (hn : n < 2 ^ 32) :
    ReadBranch rand st rands r a n bs ↔ st.layout.secaddr r a < st.secs.length ∧
      ∃ out used, st.fetch rand rands r a n = some (out, used) ∧ bs = out ++ [0] := by
  constructor
  · intro h
    have hsec : st.layout.secaddr r a < st.secs.length := by cases h <;> assumption
    cases hf : st.fetch rand rands r a n with
    | none => exact absurd h (no_readBranch hb hf)
    | some answer =>
      obtain ⟨out, used⟩ := answer
      exact ⟨hsec, out, used, rfl, readBranch_unique h (readBranch_of_fetch hb hn hsec hf)⟩
  · rintro ⟨hsec, out, used, hf, rfl⟩
    exact readBranch_of_fetch hb hn hsec hf

/-! ## §4 — four bytes a word -/

/-- The reads whose `end` is right: of a sector that is not programmed, of an empty page, of no words
behind the first one of the page, and of some words that end below the largest word. -/
def EndRight (st : Store) (range addr size : Nat) : Prop :=
  st.sec (st.layout.secaddr range addr) ≠ .PROG ∨
    (st.page (st.layout.pageaddr range addr)).length = 0 ∨
    (size = 0 ∧ readPos addr ≠ 0) ∨ (0 < size ∧ readPos addr + size < 2 ^ 32)

/-- **How much a read answers.** -/
theorem answer_length (hb : st.Bounded) (hn : n < 2 ^ 32) :
    (∃ out used, st.fetch rand rands r a n = some (out, used) ∧ out.length = 4 * n) ↔
      st.EndRight r a n := by
  unfold EndRight
  by_cases hunk : st.sec (st.layout.secaddr r a) = .UNK
  · rw [fetch_unk rand rands hunk, hunk]
    refine ⟨fun _ => Or.inl (by decide), fun _ => ⟨_, _, rfl, ?_⟩⟩
    rw [List.length_map, List.length_range]
  · by_cases hers : st.sec (st.layout.secaddr r a) = .ERS ∨
        (st.page (st.layout.pageaddr r a)).length = 0
    · simp only [fetch, if_neg hunk, if_pos hers]
      refine ⟨fun _ => ?_, fun _ => ⟨_, _, rfl, List.length_replicate⟩⟩
      rcases hers with hers | hempty
      · rw [hers]
        exact Or.inl (by decide)
      · exact Or.inr (Or.inl hempty)
    · have hprog : st.sec (st.layout.secaddr r a) = .PROG := by
        cases hsec : st.sec (st.layout.secaddr r a) with
        | UNK => exact absurd hsec hunk
        | ERS => exact absurd (Or.inl hsec) hers
        | PROG => rfl
      have hne : (st.page (st.layout.pageaddr r a)).length ≠ 0 := fun h => hers (Or.inr h)
      have hlen := hb.pages (st.layout.pageaddr r a)
      have hpos := readPos_lt a
      have hsto := readSto_eq hlen hne
      have hfin : readEnd a n = (n + readPos a + (2 ^ 32 - 1)) % 2 ^ 32 := rfl
      simp only [fetch_programmed hb hunk hers, hprog, hne, ne_eq, not_true_eq_false, false_or]
      split
      · simp only [reduceCtorEq, false_and, exists_false, false_iff]
        omega
      · simp only [Option.some.injEq, Prod.mk.injEq]
        constructor
        · rintro ⟨out, used, ⟨rfl, -⟩, hout⟩
          simp only [List.length_append, unwords_length, List.length_take, List.length_drop,
            List.length_replicate, readLast, hsto] at hout
          split at hout <;> omega
        · intro hright
          refine ⟨_, _, ⟨rfl, rfl⟩, ?_⟩
          simp only [List.length_append, unwords_length, List.length_take, List.length_drop,
            List.length_replicate, readLast, hsto]
          split <;> omega

end Store

variable {rand : Nat → UInt8} {f : CchanFlash} {r a n : Nat}

theorem storeUnsigned_lt (v : Bool × Nat) : storeUnsigned v < 2 ^ 32 := by
  obtain ⟨neg, v⟩ := v
  unfold storeUnsigned
  dsimp only
  split
  · decide
  · split <;> omega

/-- An unsigned conversion stores a word. -/
theorem scan_lt {d : Directive} (hd : d ≠ .convD) {s t : Bytes} {v : Int}
    (h : d.scan s = some (v, t)) : v < 2 ^ 32 := by
  have hnumber (b : Nat)
      (h : (scanNumber b s).map (fun r => (storeUnsigned r.1, r.2)) = some (v, t)) : v < 2 ^ 32 := by
    obtain ⟨x, -, hx⟩ := Option.map_eq_some_iff.mp h
    rw [← (Prod.mk.inj hx).1]
    exact storeUnsigned_lt x.1
  cases d with
  | convU => exact hnumber 10 h
  | convX => exact hnumber 16 h
  | convD => exact absurd rfl hd
  | lit c => exact absurd h (by simp [Directive.scan])
  | blank => exact absurd h (by simp [Directive.scan])

/-- So does every one of a format. -/
theorem scanf_lt {ds : List Directive} : ∀ {s : Bytes}, .convD ∉ ds → ∀ v ∈ scanf ds s, v < 2 ^ 32 := by
  induction ds with
  | nil => exact fun _ v hv => absurd hv List.not_mem_nil
  | cons d ds ih =>
    intro s hd v hv
    have hrest : Directive.convD ∉ ds := fun h => hd (List.mem_cons_of_mem _ h)
    have hne : d ≠ .convD := fun h => hd (h ▸ List.mem_cons_self)
    have hconv (hds : scanf (d :: ds) s = ((d.scan s).map fun r => r.1 :: scanf ds r.2).getD []) :
        v < 2 ^ 32 := by
      rw [hds] at hv
      cases hs : d.scan s with
      | none =>
        rw [hs] at hv
        exact absurd hv List.not_mem_nil
      | some x =>
        rw [hs] at hv
        rcases List.mem_cons.mp hv with rfl | hv
        · exact scan_lt hne hs
        · exact ih hrest v hv
    cases d with
    | lit c =>
      cases s with
      | nil => exact absurd hv List.not_mem_nil
      | cons c' cs =>
        by_cases hc : c = c'
        · simp only [scanf, hc, if_true] at hv
          exact ih hrest v hv
        · simp only [scanf, hc, if_false] at hv
          exact absurd hv List.not_mem_nil
    | blank => exact ih hrest v hv
    | convD => exact absurd rfl hne
    | convU =>
      apply hconv
      conv_lhs => unfold scanf
      cases Directive.scan .convU s <;> rfl
    | convX =>
      apply hconv
      conv_lhs => unfold scanf
      cases Directive.scan .convX s <;> rfl

/-- A size is read into an `unsigned int`. -/
theorem readLine_word (l : Line fmtRead [a, n]) : n < 2 ^ 32 := by
  have hscan := l.scan
  have hlt : (Int.ofNat n) < 2 ^ 32 :=
    scanf_lt (show .convD ∉ fmtRead by decide) (Int.ofNat n) (by rw [hscan]; simp)
  simpa using hlt

/-- What the thread does with a read is what the loops answer, and a read of theirs that does not end
is the end of the thread. -/
theorem feed_readBranch (h : Reachable rand f) (htop : f.AtTop) (l : Line fmtRead [a, n])
    (ha : f.store.layout.getrange a = some r) (hsec : f.store.layout.secaddr r a < f.store.secs.length) :
    (∃ bs, f.store.ReadBranch rand f.rands r a n bs ∧ ∃ used,
      f.feed rand l.bytes = { f with addr := a, size := n, rands := f.rands + used }.answer bs) ∨
    ((∀ bs, ¬ f.store.ReadBranch rand f.rands r a n bs) ∧ (f.feed rand l.bytes).pc = .stuck) := by
  have hfeed := feed_read rand htop l
  rw [ha] at hfeed
  dsimp only at hfeed
  cases hf : f.store.fetch rand f.rands r a n with
  | none =>
    rw [hf] at hfeed
    refine Or.inr ⟨fun bs => Store.no_readBranch h.bounded hf, ?_⟩
    rw [hfeed]
  | some answer =>
    obtain ⟨out, used⟩ := answer
    rw [hf] at hfeed
    exact Or.inl ⟨_, Store.readBranch_of_fetch h.bounded (readLine_word l) hsec hf, used, hfeed⟩

/-- **A read answers four bytes for each word and the status exactly when its `end` is right.** -/
theorem read_exact (h : Reachable rand f) (l : Line fmtRead [a, n]) :
    (∃ data : List UInt8, data.length = 4 * n ∧ f.store.ReadBranch rand f.rands r a n (data ++ [0])) ↔
      f.store.layout.secaddr r a < f.store.secs.length ∧ f.store.EndRight r a n := by
  have hn := readLine_word l
  have hlen : (∃ out used, f.store.fetch rand f.rands r a n = some (out, used) ∧ out.length = 4 * n) ↔
      f.store.EndRight r a n := Store.answer_length h.bounded hn
  simp only [Store.readBranch_iff h.bounded hn]
  constructor
  · rintro ⟨data, hdata, hsec, out, used, hf, hout⟩
    obtain rfl : data = out := List.append_cancel_right hout
    exact ⟨hsec, hlen.mp ⟨data, used, hf, hdata⟩⟩
  · rintro ⟨hsec, hright⟩
    obtain ⟨out, used, hf, hout⟩ := hlen.mpr hright
    exact ⟨out, hout, hsec, out, used, hf, rfl⟩

/-- The store of one sector after four bytes were loaded at its start. -/
def fourLoaded : Store where
  layout := oneSector
  secs := [.PROG]
  pgm := [0, 0xffffffff, 0xffffffff, 0xffffffff] :: List.replicate 15 []

/-- The thread with that store. -/
def fourLoadedThread : CchanFlash := { CchanFlash.boot oneSector 0 0 0 with store := fourLoaded }

theorem fourLoaded_reachable :
    Reachable (fun _ => 0) fourLoadedThread := by
  refine Reachable.preload (f := .boot oneSector 0 0 0) 0 (fun _ => 0) 4
    (Reachable.boot oneSector_init 0 0 0) ?_
  -- one page and one word
  have hpages : (CchanFlash.boot oneSector 0 0 0).store.preload 0 (fun _ => 0) 4 =
      some (Store.loadPages 0 (fun _ => 0) 3
        { Store.fresh oneSector with secs := [.PROG] } 0 0) := rfl
  rw [hpages, Store.loadPages, if_pos (by decide)]
  dsimp only
  rw [Store.loadWords, if_pos (by decide), Store.loadWords, if_neg (by decide), Store.loadPages,
    if_neg (by decide)]
  rfl

/-- A read of the loaded word and the two after it. -/
theorem read_exact_three :
    ∃ data : Bytes, data.length = 4 * 3 ∧ fourLoaded.ReadBranch (fun _ => 0) 0 0 0 3 (data ++ [0]) :=
  (read_exact fourLoaded_reachable ⟨str "r:0 3", by decide, by decide⟩ (r := 0)).mpr
    ⟨by decide, Or.inr (Or.inr (Or.inr ⟨by decide, by decide⟩))⟩

/-- A read of no words at the start of the page: `end` is the largest word, and the thread fills for
ever. -/
theorem empty_read_stuck :
    Reachable (fun _ => 0) fourLoadedThread ∧ fourLoadedThread.store.layout.getrange 0 = some 0 ∧
      (fourLoadedThread.feed (fun _ => 0) (str "r:0 0" ++ [chr '\n'])).pc = .stuck ∧
      ¬ ∃ bs, fourLoadedThread.store.ReadBranch (fun _ => 0) 0 0 0 0 bs := by
  have hfetch : fourLoaded.fetch (fun _ => 0) 0 0 0 0 = none := by decide
  refine ⟨fourLoaded_reachable, by decide, by decide, ?_⟩
  rintro ⟨bs, h⟩
  exact Store.no_readBranch fourLoaded_reachable.bounded hfetch h

end Espmod.Flash
