/-
# Espmod.Socket.Select — `espm_select`

A call looks at the descriptors of its sets, waits, and looks again, until one of them is ready or the
time is over; a second scan then says which. A `View` is what a call finds at one look. The call keeps
its contract only where all the numbers in the sets are those of open descriptors, since the scan goes
over the table and not over the sets; without a time-out only where something is ready at once, since
the end of the time is then 0; and never where it refuses its arguments, since the values of `errno` and
of the result are swapped.
-/
import Espmod.Socket.Table
import Mathlib.Data.Finset.Card

namespace Espmod.Socket

open Espmod.Lib.Text

/-! ## §1 — the call -/

/-- The numbers in an `fd_set`. -/
abbrev FdSet := Finset Int

/-- What a call finds: the table, the free space of the transmit FIFO, and the time. -/
structure View where
  fdlist : List Fd
  room : Nat
  millis : Nat
  deriving DecidableEq

/-- `EINVAL`. -/
def EINVAL : Int := 22

/-- A call that has returned, and what it found last. -/
structure SelectResult where
  ret : Int
  errno : Int
  readset : Option FdSet
  writeset : Option FdSet
  exceptset : Option FdSet
  view : View
  deriving DecidableEq

section Call

variable (maxfdp1 : Int) (readset writeset : Option FdSet)

/-- `FD_ISSET`, for a set that is not NULL. -/
def isset (fd : Int) (set : Option FdSet) : Bool := set.elim false fun p => decide (fd ∈ p)

/-- What the first scan adds for a descriptor. -/
def hits (room : Nat) (f : Fd) : Nat :=
  (if isset f.fdn readset ∧ f.buffer ≠ [] then 1 else 0) +
    if isset f.fdn writeset ∧ room > 0 then 1 else 0

/-- The first scan. -/
def scan (room : Nat) : List Fd → Nat
  | [] => 0
  | f :: fdlist =>
    if f.fdn ≥ maxfdp1 then 0 else hits readset writeset room f + scan room fdlist

/-- The loop: the view at which it is left, `none` while it waits. -/
def selectLoop (timeouttarg : Nat) (v : View) (later : List View) : Option View :=
  if ¬ (timeouttarg = 0 ∨ v.millis ≤ timeouttarg) then some v
  else if scan maxfdp1 readset writeset v.room v.fdlist > 0 then some v
  else if v.millis ≥ timeouttarg then some v
  else
    match later with
    | [] => none
    | v :: later => selectLoop timeouttarg v later

/-- A descriptor that can be read. -/
def readReady (f : Fd) : Bool := f.fdn < maxfdp1 && f.buffer ≠ []

/-- A descriptor that can be written. -/
def writeReady (room : Nat) (f : Fd) : Bool := f.fdn < maxfdp1 && decide (room > 0)

/-- The second scan for a descriptor and a set: counted, cleared, or not in the set. -/
def check (ready : Bool) (fd : Int) (set : Option FdSet) : Nat × Option FdSet :=
  if isset fd set then
    if ready then (1, set) else (0, set.map (·.erase fd))
  else (0, set)

/-- The second scan. -/
def finalScan (room : Nat) : List Fd → Nat → Option FdSet → Option FdSet →
    Nat × Option FdSet × Option FdSet
  | [], rets, readset, writeset => (rets, readset, writeset)
  | f :: fdlist, rets, readset, writeset =>
    let r := check (readReady maxfdp1 f) f.fdn readset
    let w := check (writeReady maxfdp1 room f) f.fdn writeset
    finalScan room fdlist (rets + r.1 + w.1) r.2 w.2

/-- `timeouttarg`, an `unsigned long`. -/
def selectTarget (starttime : Nat) : Option (Int × Int) → Nat
  | none => 0
  | some (sec, usec) => ((starttime + sec * 1000 + usec.tdiv 1000) % 2 ^ 64).toNat

/-- **`espm_select`** for a table of `FD_SETSIZE` descriptors; `now` is what it finds after its small
delay and `later` what it finds after each wait. -/
def espmSelect (FD_SETSIZE : Nat) (exceptset : Option FdSet) (timeout : Option (Int × Int))
    (starttime : Nat) (now : View) (later : List View) : Option SelectResult :=
  if maxfdp1 < 0 ∨ maxfdp1 > FD_SETSIZE then
    some ⟨EINVAL, -1, readset, writeset, exceptset, now⟩
  else if (maxfdp1 = 0 ∨ readset = none ∧ writeset = none) ∧ timeout ≠ none then
    later.head?.map fun v =>
      ⟨0, 0, readset.map fun _ => ∅, writeset.map fun _ => ∅, exceptset.map fun _ => ∅, v⟩
  else if readset = none ∧ writeset = none ∧ timeout = none then
    some ⟨EINVAL, -1, readset, writeset, exceptset, now⟩
  else
    (selectLoop maxfdp1 readset writeset (selectTarget starttime timeout) now later).map fun v =>
      let r := finalScan maxfdp1 v.room v.fdlist 0 readset writeset
      ⟨r.1, 0, r.2.1, r.2.2, exceptset.map fun _ => ∅, v⟩

end Call

/-! ## §2 — the scans -/

/-- The second scan over one set. -/
def checks (ready : Fd → Bool) : List Fd → Option FdSet → Nat × Option FdSet
  | [], set => (0, set)
  | f :: fdlist, set =>
    let r := checks ready fdlist (check (ready f) f.fdn set).2
    ((check (ready f) f.fdn set).1 + r.1, r.2)

/-- The two sets do not see each other. -/
theorem finalScan_eq (maxfdp1 : Int) (room : Nat) (fdlist : List Fd) :
    ∀ (rets : Nat) (readset writeset : Option FdSet),
    finalScan maxfdp1 room fdlist rets readset writeset =
      (rets + (checks (readReady maxfdp1) fdlist readset).1 +
          (checks (writeReady maxfdp1 room) fdlist writeset).1,
        (checks (readReady maxfdp1) fdlist readset).2,
        (checks (writeReady maxfdp1 room) fdlist writeset).2) := by
  induction fdlist with
  | nil => exact fun _ _ _ => rfl
  | cons f fdlist ih =>
    intro rets readset writeset
    rw [finalScan, ih, checks, checks]
    refine congrArg (fun n => (n, _)) ?_
    dsimp only
    omega

/-- The numbers of a set whose descriptors are ready. -/
def kept (ready : Fd → Bool) (fdlist : List Fd) (p : FdSet) : FdSet :=
  p.filter fun n => ∃ f ∈ fdlist, f.fdn = n ∧ ready f = true

/-- Where it is in the table the number is that of a ready descriptor. -/
def unrefuted (ready : Fd → Bool) (fdlist : List Fd) (p : FdSet) : FdSet :=
  p.filter fun n => ∀ f ∈ fdlist, f.fdn = n → ready f = true

section Scans

variable {fdlist : List Fd} {p : FdSet}

theorem checks_none (ready : Fd → Bool) (fdlist : List Fd) :
    checks ready fdlist none = (0, none) := by
  induction fdlist with
  | nil => rfl
  | cons f fdlist ih =>
    show (0 + (checks ready fdlist none).1, (checks ready fdlist none).2) = (0, none)
    rw [ih]
    rfl

/-- **What the second scan does to a set**: it counts the ready descriptors and clears the others, and
a number that is not in the table stays. -/
theorem checks_some (ready : Fd → Bool) (hs : fdlist.Pairwise fun f g => f.fdn < g.fdn) :
    ∀ p : FdSet, checks ready fdlist (some p) =
      ((kept ready fdlist p).card, some (unrefuted ready fdlist p)) := by
  induction fdlist with
  | nil =>
    intro p
    simp [checks, kept, unrefuted]
  | cons f fdlist ih =>
    intro p
    obtain ⟨hf, hs⟩ := List.pairwise_cons.mp hs
    have hother (g : Fd) (hg : g ∈ fdlist) : g.fdn ≠ f.fdn := fun h => by
      have hlt := hf g hg
      omega
    have hset : isset f.fdn (some p) = decide (f.fdn ∈ p) := rfl
    rw [checks]
    by_cases hmem : f.fdn ∈ p
    · cases hready : ready f with
      | true =>
        have hcheck : check true f.fdn (some p) = (1, some p) := by
          rw [check, hset, if_pos (by simpa using hmem), if_pos rfl]
        have hkept : kept ready (f :: fdlist) p = insert f.fdn (kept ready fdlist p) := by
          ext n
          simp only [kept, Finset.mem_filter, Finset.mem_insert, List.exists_mem_cons_iff]
          constructor
          · rintro ⟨hn, ⟨rfl, -⟩ | h⟩
            · exact Or.inl rfl
            · exact Or.inr ⟨hn, h⟩
          · rintro (rfl | ⟨hn, h⟩)
            · exact ⟨hmem, Or.inl ⟨rfl, hready⟩⟩
            · exact ⟨hn, Or.inr h⟩
        have hnew : f.fdn ∉ kept ready fdlist p := by
          intro h
          obtain ⟨-, g, hg, hgn, -⟩ := Finset.mem_filter.mp h
          exact hother g hg hgn
        have hall : unrefuted ready (f :: fdlist) p = unrefuted ready fdlist p := by
          ext n
          simp only [unrefuted, Finset.mem_filter, List.forall_mem_cons]
          exact ⟨fun h => ⟨h.1, h.2.2⟩, fun h => ⟨h.1, fun _ => hready, h.2⟩⟩
        rw [hcheck, ih hs, hkept, Finset.card_insert_of_notMem hnew, hall, Nat.add_comm]
      | false =>
        have hcheck : check false f.fdn (some p) = (0, some (p.erase f.fdn)) := by
          rw [check, hset, if_pos (by simpa using hmem), if_neg Bool.false_ne_true]
          rfl
        have hkept : kept ready (f :: fdlist) p = kept ready fdlist (p.erase f.fdn) := by
          ext n
          simp only [kept, Finset.mem_filter, Finset.mem_erase, List.exists_mem_cons_iff]
          constructor
          · rintro ⟨hn, ⟨-, h⟩ | ⟨g, hg, hgn, h⟩⟩
            · exact absurd (hready.symm.trans h) Bool.false_ne_true
            · exact ⟨⟨hgn ▸ hother g hg, hn⟩, g, hg, hgn, h⟩
          · exact fun h => ⟨h.1.2, Or.inr h.2⟩
        have hall : unrefuted ready (f :: fdlist) p = unrefuted ready fdlist (p.erase f.fdn) := by
          ext n
          simp only [unrefuted, Finset.mem_filter, Finset.mem_erase, List.forall_mem_cons]
          constructor
          · rintro ⟨hn, hfirst, h⟩
            have hne : n ≠ f.fdn := fun heq =>
              absurd (hready.symm.trans (hfirst heq.symm)) Bool.false_ne_true
            exact ⟨⟨hne, hn⟩, h⟩
          · exact fun h => ⟨h.1.2, fun heq => absurd heq.symm h.1.1, h.2⟩
        rw [hcheck, ih hs, hkept, hall, Nat.zero_add]
    · have hcheck : check (ready f) f.fdn (some p) = (0, some p) := by
        rw [check, hset, if_neg (by simpa using hmem)]
      have hkept : kept ready (f :: fdlist) p = kept ready fdlist p := by
        refine Finset.filter_congr fun n hn => ?_
        rw [List.exists_mem_cons_iff]
        exact or_iff_right fun h => hmem (h.1 ▸ hn)
      have hall : unrefuted ready (f :: fdlist) p = unrefuted ready fdlist p := by
        refine Finset.filter_congr fun n hn => ?_
        rw [List.forall_mem_cons]
        exact and_iff_right fun h => absurd (h ▸ hn) hmem
      rw [hcheck, ih hs, hkept, hall, Nat.zero_add]

theorem Sorted.mem_inj (hs : Sorted fdlist) {f g : Fd} (hf : f ∈ fdlist) (hg : g ∈ fdlist)
    (heq : f.fdn = g.fdn) : f = g := by
  obtain ⟨i, hi⟩ := List.getElem?_of_mem hf
  obtain ⟨j, hj⟩ := List.getElem?_of_mem hg
  obtain rfl := hs.index_inj hi hj heq
  exact Option.some.inj (hi.symm.trans hj)

/-- **The two agree on the sets of open descriptors**, and on no others. -/
theorem unrefuted_eq_kept (ready : Fd → Bool) (hs : Sorted fdlist) :
    unrefuted ready fdlist p = kept ready fdlist p ↔ ∀ n ∈ p, ∃ f ∈ fdlist, f.fdn = n := by
  constructor
  · intro heq n hn
    by_contra hnone
    have hmem : n ∈ unrefuted ready fdlist p :=
      Finset.mem_filter.mpr ⟨hn, fun f hf hfn => absurd ⟨f, hf, hfn⟩ hnone⟩
    rw [heq] at hmem
    obtain ⟨-, f, hf, hfn, -⟩ := Finset.mem_filter.mp hmem
    exact hnone ⟨f, hf, hfn⟩
  · intro hopen
    refine Finset.filter_congr fun n hn => ?_
    constructor
    · intro h
      obtain ⟨f, hf, hfn⟩ := hopen n hn
      exact ⟨f, hf, hfn, h f hf hfn⟩
    · rintro ⟨f, hf, rfl, hready⟩ g hg hgn
      obtain rfl := hs.mem_inj hf hg hgn.symm
      exact hready

end Scans

/-! ## §3 — the first scan and the waits -/

section Waits

variable (maxfdp1 : Int) (readset writeset : Option FdSet)

/-- One of the sets has the descriptor, and it is ready for that. -/
def hit (room : Nat) (f : Fd) : Prop :=
  isset f.fdn readset = true ∧ readReady maxfdp1 f = true ∨
    isset f.fdn writeset = true ∧ writeReady maxfdp1 room f = true

instance (room : Nat) (f : Fd) : Decidable (hit maxfdp1 readset writeset room f) := by
  unfold hit
  infer_instance

/-- A descriptor of the sets is ready. -/
def found (v : View) : Prop := ∃ f ∈ v.fdlist, hit maxfdp1 readset writeset v.room f

instance (v : View) : Decidable (found maxfdp1 readset writeset v) := by
  unfold found
  infer_instance

/-- A descriptor is ready or the time is over. -/
def leaves (timeouttarg : Nat) (v : View) : Bool :=
  decide (found maxfdp1 readset writeset v ∨ timeouttarg ≤ v.millis)

variable {maxfdp1 readset writeset}

theorem hits_pos {room : Nat} {f : Fd} (hlt : f.fdn < maxfdp1) :
    hits readset writeset room f > 0 ↔ hit maxfdp1 readset writeset room f := by
  unfold hits hit readReady writeReady
  simp only [decide_eq_true hlt, Bool.true_and, decide_eq_true_eq]
  split <;> split <;> simp_all

/-- **The first scan** finds something if and only if there is something: the table is sorted, so it
may stop at the first number that is too large. -/
theorem scan_pos (room : Nat) {fdlist : List Fd} (hs : fdlist.Pairwise fun f g => f.fdn < g.fdn) :
    scan maxfdp1 readset writeset room fdlist > 0 ↔
      ∃ f ∈ fdlist, hit maxfdp1 readset writeset room f := by
  induction fdlist with
  | nil => simp [scan]
  | cons f fdlist ih =>
    obtain ⟨hf, hs⟩ := List.pairwise_cons.mp hs
    rw [scan, List.exists_mem_cons_iff]
    by_cases hlt : f.fdn < maxfdp1
    · rw [if_neg (by omega), ← ih hs, ← hits_pos hlt]
      omega
    · -- neither this number nor one behind it
      have hnot (g : Fd) (hge : maxfdp1 ≤ g.fdn) : ¬ hit maxfdp1 readset writeset room g := by
        unfold hit readReady writeReady
        rw [decide_eq_false (Int.not_lt.mpr hge)]
        simp
      rw [if_pos (Int.not_lt.mp hlt)]
      constructor
      · exact fun h => absurd h (Nat.lt_irrefl 0)
      · rintro (h | ⟨g, hg, h⟩)
        · exact absurd h (hnot f (Int.not_lt.mp hlt))
        · have hgt := hf g hg
          exact absurd h (hnot g (by omega))

theorem selectLoop_leaves {timeouttarg : Nat} {v : View} (hs : Sorted v.fdlist)
    (h : leaves maxfdp1 readset writeset timeouttarg v = true) (later : List View) :
    selectLoop maxfdp1 readset writeset timeouttarg v later = some v := by
  unfold selectLoop
  by_cases htime : timeouttarg = 0 ∨ v.millis ≤ timeouttarg
  · rw [if_neg (not_not.mpr htime)]
    rcases of_decide_eq_true h with hfound | hover
    · rw [if_pos ((scan_pos v.room hs.increasing).mpr hfound)]
    · by_cases hscan : scan maxfdp1 readset writeset v.room v.fdlist > 0
      · rw [if_pos hscan]
      · rw [if_neg hscan, if_pos hover]
  · rw [if_pos htime]

/-- A look at which the call does not end comes before a wait. -/
theorem selectLoop_waits {timeouttarg : Nat} {v : View} (hs : Sorted v.fdlist)
    (h : leaves maxfdp1 readset writeset timeouttarg v = false) :
    selectLoop maxfdp1 readset writeset timeouttarg v [] = none ∧
      ∀ v' later, selectLoop maxfdp1 readset writeset timeouttarg v (v' :: later) =
        selectLoop maxfdp1 readset writeset timeouttarg v' later := by
  obtain ⟨hfound, hover⟩ := not_or.mp (of_decide_eq_false h)
  have hscan : ¬ scan maxfdp1 readset writeset v.room v.fdlist > 0 :=
    fun hscan => hfound ((scan_pos v.room hs.increasing).mp hscan)
  have htime : ¬ ¬ (timeouttarg = 0 ∨ v.millis ≤ timeouttarg) := not_not.mpr (Or.inr (by omega))
  constructor
  · unfold selectLoop
    rw [if_neg htime, if_neg hscan, if_neg hover]
  · intro v' later
    conv_lhs => unfold selectLoop
    rw [if_neg htime, if_neg hscan, if_neg hover]

/-- **The loop ends at the first look** at which a descriptor is ready or the time is over. -/
theorem selectLoop_eq (timeouttarg : Nat) {later : List View} : ∀ {v : View},
    (∀ v' ∈ v :: later, Sorted v'.fdlist) →
    selectLoop maxfdp1 readset writeset timeouttarg v later =
      (v :: later).find? (leaves maxfdp1 readset writeset timeouttarg) := by
  induction later with
  | nil =>
    intro v hs
    cases hv : leaves maxfdp1 readset writeset timeouttarg v with
    | true => rw [selectLoop_leaves (hs v (List.mem_cons_self ..)) hv, List.find?_cons_of_pos hv]
    | false =>
      rw [(selectLoop_waits (hs v (List.mem_cons_self ..)) hv).1,
        List.find?_cons_of_neg (Bool.eq_false_iff.mp hv)]
      rfl
  | cons v' later ih =>
    intro v hs
    obtain ⟨hv₀, hs⟩ := List.forall_mem_cons.mp hs
    cases hv : leaves maxfdp1 readset writeset timeouttarg v with
    | true => rw [selectLoop_leaves hv₀ hv, List.find?_cons_of_pos hv]
    | false =>
      rw [(selectLoop_waits hv₀ hv).2, List.find?_cons_of_neg (Bool.eq_false_iff.mp hv)]
      exact ih hs

end Waits

/-! ## §4 — the contract -/

/-- How many bits of a set are on. -/
def bits (set : Option FdSet) : Nat := set.elim 0 Finset.card

/-- **The contract**: -1 for a number outside the table; else exactly the ready descriptors stay in the
sets and are counted, and a call without a time-out that has sets returns only with one. -/
structure Contract (FD_SETSIZE : Nat) (maxfdp1 : Int) (readset writeset : Option FdSet)
    (timeout : Option (Int × Int)) (r : SelectResult) : Prop where
  refused : maxfdp1 < 0 ∨ maxfdp1 > FD_SETSIZE → r.ret = -1
  reads : ¬ (maxfdp1 < 0 ∨ maxfdp1 > FD_SETSIZE) →
    r.readset = readset.map (kept (readReady maxfdp1) r.view.fdlist)
  writes : ¬ (maxfdp1 < 0 ∨ maxfdp1 > FD_SETSIZE) →
    r.writeset = writeset.map (kept (writeReady maxfdp1 r.view.room) r.view.fdlist)
  count : ¬ (maxfdp1 < 0 ∨ maxfdp1 > FD_SETSIZE) → r.ret = bits r.readset + bits r.writeset
  positive : ¬ (maxfdp1 < 0 ∨ maxfdp1 > FD_SETSIZE) → timeout = none →
    readset ≠ none ∨ writeset ≠ none → 0 < r.ret

/-- The numbers in a set are those of open descriptors. -/
def AllOpen (fdlist : List Fd) (set : Option FdSet) : Prop :=
  ∀ p ∈ set, ∀ n ∈ p, ∃ f ∈ fdlist, f.fdn = n

/-- **When the contract is kept**: the number is one of the table, there is a set or a time-out, and
when the call does not only wait, all descriptors of the sets are open at the look that ends it, and
without a time-out one of them is ready at the first look. -/
structure Meets (FD_SETSIZE : Nat) (maxfdp1 : Int) (readset writeset : Option FdSet)
    (timeout : Option (Int × Int)) (starttime : Nat) (now : View) (later : List View) : Prop where
  range : 0 ≤ maxfdp1 ∧ maxfdp1 ≤ FD_SETSIZE
  given : ¬ (readset = none ∧ writeset = none ∧ timeout = none)
  sets : timeout = none ∨ 0 < maxfdp1 →
    ∀ v ∈ (now :: later).find? (leaves maxfdp1 readset writeset (selectTarget starttime timeout)),
      AllOpen v.fdlist readset ∧ AllOpen v.fdlist writeset
  ready : timeout = none → found maxfdp1 readset writeset now

section Contract

variable {maxfdp1 : Int} {readset writeset : Option FdSet} {fdlist : List Fd}

/-- The second scan over a set that may be NULL. -/
theorem checks_eq (ready : Fd → Bool) (hs : Sorted fdlist) (set : Option FdSet) :
    checks ready fdlist set =
      (bits (set.map (kept ready fdlist)), set.map (unrefuted ready fdlist)) := by
  cases set with
  | none => exact checks_none ready fdlist
  | some p => exact checks_some ready hs.increasing p

theorem unrefuted_iff (ready : Fd → Bool) (hs : Sorted fdlist) (set : Option FdSet) :
    set.map (unrefuted ready fdlist) = set.map (kept ready fdlist) ↔ AllOpen fdlist set := by
  cases set with
  | none => exact ⟨fun _ p hp => (nomatch hp), fun _ => rfl⟩
  | some p =>
    rw [Option.map_some, Option.map_some, Option.some.injEq, unrefuted_eq_kept ready hs]
    constructor
    · rintro h p' hp'
      obtain rfl := Option.some.inj hp'
      exact h
    · exact fun h => h p rfl

/-- A descriptor of a set is counted. -/
theorem bits_kept_pos (ready : Fd → Bool) (set : Option FdSet) :
    0 < bits (set.map (kept ready fdlist)) ↔
      ∃ f ∈ fdlist, isset f.fdn set = true ∧ ready f = true := by
  cases set with
  | none => exact ⟨fun h => absurd h (Nat.lt_irrefl 0), fun ⟨_, _, h, _⟩ => (nomatch h)⟩
  | some p =>
    show 0 < (kept ready fdlist p).card ↔ _
    rw [Finset.card_pos]
    constructor
    · rintro ⟨n, hn⟩
      obtain ⟨hn, f, hf, rfl, hready⟩ := Finset.mem_filter.mp hn
      exact ⟨f, hf, decide_eq_true hn, hready⟩
    · rintro ⟨f, hf, hset, hready⟩
      exact ⟨f.fdn, Finset.mem_filter.mpr ⟨of_decide_eq_true hset, f, hf, rfl, hready⟩⟩

theorem kept_zero (hs : Sorted fdlist) (ready : Fd → Bool)
    (hready : ∀ f, ready f = true → f.fdn < 0) (p : FdSet) : kept ready fdlist p = ∅ := by
  refine Finset.filter_eq_empty_iff.mpr ?_
  rintro n - ⟨f, hf, -, h⟩
  have hpos := (hs.bounds f hf).1
  have hneg := hready f h
  omega

/-- **The call that looks at its sets**, at the look that ends it. -/
theorem contract_looks {FD_SETSIZE : Nat} {timeout : Option (Int × Int)} {exceptset : Option FdSet}
    {v : View} (hrange : ¬ (maxfdp1 < 0 ∨ maxfdp1 > FD_SETSIZE)) (hs : Sorted v.fdlist)
    (hgiven : timeout = none → readset ≠ none ∨ writeset ≠ none) :
    let r := finalScan maxfdp1 v.room v.fdlist 0 readset writeset
    Contract FD_SETSIZE maxfdp1 readset writeset timeout ⟨r.1, 0, r.2.1, r.2.2, exceptset, v⟩ ↔
      (AllOpen v.fdlist readset ∧ AllOpen v.fdlist writeset) ∧
        (timeout = none → found maxfdp1 readset writeset v) := by
  dsimp only
  have hpos : (0 : Int) < (bits (readset.map (kept (readReady maxfdp1) v.fdlist)) +
      bits (writeset.map (kept (writeReady maxfdp1 v.room) v.fdlist)) : Nat) ↔
        found maxfdp1 readset writeset v := by
    rw [Int.natCast_pos, Nat.add_pos_iff_pos_or_pos, bits_kept_pos, bits_kept_pos]
    constructor
    · rintro (⟨f, hf, h⟩ | ⟨f, hf, h⟩)
      · exact ⟨f, hf, Or.inl h⟩
      · exact ⟨f, hf, Or.inr h⟩
    · rintro ⟨f, hf, h | h⟩
      · exact Or.inl ⟨f, hf, h⟩
      · exact Or.inr ⟨f, hf, h⟩
  rw [finalScan_eq, checks_eq _ hs, checks_eq _ hs, ← unrefuted_iff (readReady maxfdp1) hs,
    ← unrefuted_iff (writeReady maxfdp1 v.room) hs, ← hpos]
  constructor
  · intro h
    refine ⟨⟨h.reads hrange, h.writes hrange⟩, fun htimeout => ?_⟩
    have := h.positive hrange htimeout (hgiven htimeout)
    simpa using this
  · rintro ⟨⟨hreads, hwrites⟩, hready⟩
    refine ⟨fun h => absurd h hrange, fun _ => hreads, fun _ => hwrites, fun _ => ?_, fun _ ht _ => ?_⟩
    · dsimp only
      rw [hreads, hwrites]
      push_cast
      omega
    · simpa using hready ht

/-- A call that only waits. -/
theorem contract_waits {FD_SETSIZE : Nat} {timeout : Option (Int × Int)} {exceptset : Option FdSet}
    {v : View} (hrange : ¬ (maxfdp1 < 0 ∨ maxfdp1 > FD_SETSIZE)) (hs : Sorted v.fdlist)
    (hwaits : (maxfdp1 = 0 ∨ readset = none ∧ writeset = none) ∧ timeout ≠ none) :
    Contract FD_SETSIZE maxfdp1 readset writeset timeout
      ⟨0, 0, readset.map fun _ => ∅, writeset.map fun _ => ∅, exceptset, v⟩ := by
  have hempty (ready : Fd → Bool) (hready : ∀ f, ready f = true → f.fdn < maxfdp1)
      (set : Option FdSet) (hset : maxfdp1 = 0 ∨ set = none) :
      (set.map fun _ => (∅ : FdSet)) = set.map (kept ready v.fdlist) := by
    rcases hset with rfl | rfl
    · cases set with
      | none => rfl
      | some p => rw [Option.map_some, Option.map_some, kept_zero hs ready hready]
    · rfl
  have hbits (set : Option FdSet) : bits (set.map fun _ => (∅ : FdSet)) = 0 := by
    cases set <;> rfl
  refine ⟨fun h => absurd h hrange, fun _ => ?_, fun _ => ?_, fun _ => ?_,
    fun _ ht => absurd ht hwaits.2⟩
  · refine hempty _ (fun f hf => ?_) _ (hwaits.1.imp_right And.left)
    exact of_decide_eq_true (Bool.and_eq_true_iff.mp hf).1
  · refine hempty _ (fun f hf => ?_) _ (hwaits.1.imp_right And.right)
    exact of_decide_eq_true (Bool.and_eq_true_iff.mp hf).1
  · dsimp only
    rw [hbits, hbits]
    rfl

/-- Without a time-out the call ends at its first look. -/
theorem leaves_now (starttime : Nat) (now : View) (later : List View) :
    (now :: later).find? (leaves maxfdp1 readset writeset (selectTarget starttime none)) =
      some now :=
  List.find?_cons_of_pos (decide_eq_true (Or.inr (Nat.zero_le _)))

/-- **A call of `espm_select` keeps its contract** if and only if its arguments are ones it does not
refuse, the descriptors of its sets are open when it ends, and something is ready when it has no
time-out. -/
theorem espmSelect_contract (FD_SETSIZE : Nat) (maxfdp1 : Int)
    (readset writeset exceptset : Option FdSet) (timeout : Option (Int × Int)) (starttime : Nat)
    (now : View) (later : List View) (hs : ∀ v ∈ now :: later, Sorted v.fdlist) (r : SelectResult)
    (hr : espmSelect maxfdp1 readset writeset FD_SETSIZE exceptset timeout starttime now later =
      some r) :
    Contract FD_SETSIZE maxfdp1 readset writeset timeout r ↔
      Meets FD_SETSIZE maxfdp1 readset writeset timeout starttime now later := by
  unfold espmSelect at hr
  by_cases hrange : maxfdp1 < 0 ∨ maxfdp1 > FD_SETSIZE
  · rw [if_pos hrange] at hr
    obtain rfl := Option.some.inj hr
    constructor
    · exact fun h => absurd (h.refused hrange) (show EINVAL ≠ -1 by decide)
    · intro h
      have := h.range
      omega
  rw [if_neg hrange] at hr
  by_cases hwaits : (maxfdp1 = 0 ∨ readset = none ∧ writeset = none) ∧ timeout ≠ none
  · rw [if_pos hwaits] at hr
    obtain ⟨v, hv, rfl⟩ := Option.map_eq_some_iff.mp hr
    have hmem : v ∈ now :: later := List.mem_cons_of_mem _ (List.mem_of_mem_head? hv)
    refine ⟨fun _ => ⟨by omega, fun h => hwaits.2 h.2.2, fun h => ?_, fun h => absurd h hwaits.2⟩,
      fun _ => contract_waits hrange (hs v hmem) hwaits⟩
    -- it only waits because it has no sets
    rcases hwaits.1 with hzero | ⟨rfl, rfl⟩
    · rcases h with h | h
      · exact absurd h hwaits.2
      · omega
    · exact fun _ _ => ⟨fun _ hp => (nomatch hp), fun _ hp => (nomatch hp)⟩
  rw [if_neg hwaits] at hr
  by_cases hnull : readset = none ∧ writeset = none ∧ timeout = none
  · rw [if_pos hnull] at hr
    obtain rfl := Option.some.inj hr
    refine ⟨fun h => ?_, fun h => absurd hnull h.given⟩
    have hcount := h.count hrange
    obtain ⟨rfl, rfl, -⟩ := hnull
    exact absurd hcount (show EINVAL ≠ ((0 : Nat) : Int) + (0 : Nat) by decide)
  rw [if_neg hnull, selectLoop_eq _ hs] at hr
  obtain ⟨v, hv, rfl⟩ := Option.map_eq_some_iff.mp hr
  have hmem : v ∈ now :: later := List.mem_of_find?_eq_some hv
  have hgiven : timeout = none → readset ≠ none ∨ writeset ≠ none := by
    intro htimeout
    by_contra h
    push Not at h
    exact hnull ⟨h.1, h.2, htimeout⟩
  have hlooks : timeout = none ∨ 0 < maxfdp1 := by
    by_contra h
    push Not at h
    exact hwaits ⟨Or.inl (by omega), h.1⟩
  refine (contract_looks hrange (hs v hmem) hgiven).trans ?_
  -- without a time-out the look that ends the call is the first
  have hfirst : timeout = none → v = now := by
    rintro rfl
    rw [leaves_now] at hv
    exact (Option.some.inj hv).symm
  constructor
  · rintro ⟨hopen, hready⟩
    refine ⟨by omega, hnull, fun _ v' hv' => ?_, fun h => hfirst h ▸ hready h⟩
    obtain rfl := Option.some.inj (hv.symm.trans hv')
    exact hopen
  · exact fun h => ⟨h.sets hlooks v hv, fun ht => (hfirst ht).symm ▸ h.ready ht⟩

end Contract

/-- The control descriptor and one more, with these characters in its buffer. -/
def twoOpen (buffer : Bytes) : View := ⟨[Fd.new 1 (-1), (Fd.new 2 (-1)).push buffer], 0, 5⟩

theorem espmSelect_contract_ready :
    Contract 1024 3 (some {2}) none none ⟨1, 0, some {2}, none, none, twoOpen [65]⟩ := by
  have hs : ∀ v ∈ [twoOpen [65]], Sorted v.fdlist := by
    intro v hv
    obtain rfl := List.mem_singleton.mp hv
    exact ⟨by decide, by decide⟩
  refine (espmSelect_contract 1024 3 (some {2}) none none none 0 (twoOpen [65]) [] hs _
    (by decide)).mpr ⟨by decide, by decide, fun _ v hv => ?_, fun _ => by decide⟩
  rw [leaves_now] at hv
  obtain rfl := Option.some.inj hv
  refine ⟨fun p hp n hn => ?_, fun _ hp => (nomatch hp)⟩
  obtain rfl := Option.some.inj hp
  obtain rfl := Finset.mem_singleton.mp hn
  exact ⟨_, List.mem_cons_of_mem _ (List.mem_singleton.mpr rfl), rfl⟩

/-- Without a time-out the call does not wait for the descriptor: it returns 0 at once. -/
theorem select_does_not_wait :
    espmSelect 3 (some {2}) none 1024 none none 0 (twoOpen []) [] =
        some ⟨0, 0, some ∅, none, none, twoOpen []⟩ ∧
      ¬ Contract 1024 3 (some {2}) none none ⟨0, 0, some ∅, none, none, twoOpen []⟩ :=
  ⟨by decide, fun h => absurd (h.positive (by decide) rfl (Or.inl (by decide))) (by decide)⟩

end Espmod.Socket
