/-
# Espmod.Lib.FirstMatch — a list read as a map, the first entry of a key deciding

Entries carry a key and keys may repeat. `find` is the first entry of a key, and `update` changes
that entry and no other. The rules say what `find` returns after an `update` (`find_update_self`,
`find_update_of_ne`) and after an entry was added at the end (`find_append`), that an `update` keeps
every key in its place, and that it never touches an entry behind one of the same key. Where keys do not
repeat, an entry of the list is what is found under its key (`find_of_mem`), and where an entry of a new
key is put makes no difference (`find_orderedInsert_self`, `find_orderedInsert_of_ne`).
-/
import Mathlib.Data.List.Lookmap
import Mathlib.Data.List.Sort

namespace Espmod.Lib.FirstMatch

universe u v

variable {α : Type u} {κ : Type v} [DecidableEq κ] (key : α → κ)

/-- The first entry of a key. -/
def find (k : κ) (l : List α) : Option α := l.find? fun a => key a = k

/-- The list with the first entry of a key changed. -/
def update (k : κ) (f : α → α) (l : List α) : List α :=
  l.lookmap fun a => if key a = k then some (f a) else none

/-- An entry behind another one of the same key. -/
def Shadowed (l : List α) (i : Nat) : Prop := ∃ j < i, (l.map key)[j]? = (l.map key)[i]?

variable {key}

/-! ## §1 — one entry at a time -/

theorem find_cons_of_eq {k : κ} {a : α} (h : key a = k) (l : List α) :
    find key k (a :: l) = some a := by
  simp [find, h]

theorem find_cons_of_ne {k : κ} {a : α} (h : key a ≠ k) (l : List α) :
    find key k (a :: l) = find key k l := by
  simp [find, h]

theorem update_cons_of_eq {k : κ} {a : α} (h : key a = k) (f : α → α) (l : List α) :
    update key k f (a :: l) = f a :: l :=
  List.lookmap_cons_some _ l (if_pos h)

theorem update_cons_of_ne {k : κ} {a : α} (h : key a ≠ k) (f : α → α) (l : List α) :
    update key k f (a :: l) = a :: update key k f l :=
  List.lookmap_cons_none _ l (if_neg h)

/-! ## §2 — what is found -/

theorem find_isSome {k : κ} {l : List α} : (find key k l).isSome ↔ k ∈ l.map key := by
  simp [find, List.find?_isSome]

theorem find_append (k : κ) (l : List α) (a : α) :
    find key k (l ++ [a]) = (find key k l).or (if key a = k then some a else none) := by
  rw [find, List.find?_append]
  by_cases h : key a = k <;> simp [find, h]

variable {f : α → α}

theorem find_update_self (hf : ∀ a, key (f a) = key a) (k : κ) (l : List α) :
    find key k (update key k f l) = (find key k l).map f := by
  induction l with
  | nil => rfl
  | cons a l ih =>
    by_cases h : key a = k
    · rw [update_cons_of_eq h, find_cons_of_eq ((hf a).trans h), find_cons_of_eq h]
      rfl
    · rw [update_cons_of_ne h, find_cons_of_ne h, find_cons_of_ne h, ih]

theorem find_update_of_ne (hf : ∀ a, key (f a) = key a) {k k' : κ} (hk : k' ≠ k) (l : List α) :
    find key k' (update key k f l) = find key k' l := by
  induction l with
  | nil => rfl
  | cons a l ih =>
    by_cases h : key a = k
    · have hne : key a ≠ k' := fun h' => hk (h'.symm.trans h)
      rw [update_cons_of_eq h, find_cons_of_ne (by rwa [hf a]), find_cons_of_ne hne]
    · rw [update_cons_of_ne h]
      by_cases h' : key a = k'
      · rw [find_cons_of_eq h', find_cons_of_eq h']
      · rw [find_cons_of_ne h', find_cons_of_ne h', ih]

/-! ## §3 — what an update leaves alone -/

theorem update_of_notMem {k : κ} {l : List α} (h : k ∉ l.map key) : update key k f l = l := by
  refine List.lookmap_of_forall_not _ fun a ha => if_neg fun hk => h ?_
  exact List.mem_map.mpr ⟨a, ha, hk⟩

/-- No key moves. -/
theorem map_key_update (hf : ∀ a, key (f a) = key a) (k : κ) (l : List α) :
    (update key k f l).map key = l.map key := by
  refine List.lookmap_map_eq _ key (fun a b hb => ?_) l
  by_cases h : key a = k
  · rw [if_pos h, Option.mem_some_iff] at hb
    exact hb ▸ (hf a).symm
  · simp [h] at hb

/-- Entries of other keys. -/
theorem getElem?_update_of_ne {k : κ} {l : List α} {i : Nat} (h : (l.map key)[i]? ≠ some k) :
    (update key k f l)[i]? = l[i]? := by
  induction l generalizing i with
  | nil => rfl
  | cons a l ih =>
    by_cases ha : key a = k
    · rw [update_cons_of_eq ha]
      cases i with
      | zero => simp [ha] at h
      | succ i => rfl
    · rw [update_cons_of_ne ha]
      cases i with
      | zero => rfl
      | succ i => exact ih (by simpa using h)

/-- Entries behind one of the same key. -/
theorem getElem?_update_of_shadowed {k : κ} {l : List α} {i : Nat} (h : Shadowed key l i) :
    (update key k f l)[i]? = l[i]? := by
  obtain ⟨j, hj, heq⟩ := h
  induction l generalizing i j with
  | nil => rfl
  | cons a l ih =>
    obtain ⟨i, rfl⟩ : ∃ i', i = i' + 1 := ⟨i - 1, by omega⟩
    by_cases ha : key a = k
    · rw [update_cons_of_eq ha]
      rfl
    · rw [update_cons_of_ne ha]
      cases j with
      | zero =>
        -- the entry has the key of the head, which is not the one updated
        refine getElem?_update_of_ne fun hk => ha ?_
        simpa using heq.trans hk
      | succ j => exact ih j (by omega) (by simpa using heq)

omit [DecidableEq κ] in
/-- Two lists that agree at their shadowed entries still do with the same entry at the end. -/
theorem getElem?_append_of_shadowed {l m : List α} (hkeys : l.map key = m.map key)
    (hrest : ∀ i, Shadowed key m i → l[i]? = m[i]?) (a : α) {i : Nat}
    (h : Shadowed key (m ++ [a]) i) : (l ++ [a])[i]? = (m ++ [a])[i]? := by
  have hlength : l.length = m.length := by
    simpa using congrArg List.length hkeys
  by_cases hi : i < m.length
  · rw [List.getElem?_append_left (hlength ▸ hi), List.getElem?_append_left hi]
    obtain ⟨j, hj, heq⟩ := h
    refine hrest i ⟨j, hj, ?_⟩
    rw [List.map_append, List.getElem?_append_left (by simp; omega),
      List.getElem?_append_left (by simpa using hi)] at heq
    exact heq
  · rw [List.getElem?_append_right (by omega), List.getElem?_append_right (by omega), hlength]

/-! ## §4 — keys that do not repeat -/

theorem mem_of_find {k : κ} {l : List α} {a : α} (h : find key k l = some a) : a ∈ l ∧ key a = k :=
  ⟨List.mem_of_find?_eq_some h, by simpa using List.find?_some h⟩

theorem find_of_mem {l : List α} (hl : (l.map key).Nodup) {a : α} (ha : a ∈ l) :
    find key (key a) l = some a := by
  induction l with
  | nil => cases ha
  | cons b l ih =>
    rw [List.map_cons, List.nodup_cons] at hl
    rcases List.mem_cons.mp ha with rfl | ha
    · exact find_cons_of_eq rfl l
    · have hne : key b ≠ key a := fun h => hl.1 (List.mem_map.mpr ⟨a, ha, h.symm⟩)
      rw [find_cons_of_ne hne]
      exact ih hl.2 ha

variable {r : α → α → Prop} [DecidableRel r]

/-- An entry of a new key is found. -/
theorem find_orderedInsert_self {l : List α} {a : α} (ha : key a ∉ l.map key) :
    find key (key a) (l.orderedInsert r a) = some a := by
  induction l with
  | nil => exact find_cons_of_eq rfl []
  | cons b l ih =>
    rw [List.map_cons, List.mem_cons, not_or] at ha
    by_cases h : r a b
    · rw [List.orderedInsert_cons_of_le _ _ h]
      exact find_cons_of_eq rfl _
    · rw [List.orderedInsert_of_not_le _ _ h, find_cons_of_ne fun hb => ha.1 hb.symm]
      exact ih ha.2

theorem find_orderedInsert_of_ne {l : List α} {a : α} {k : κ} (hk : key a ≠ k) :
    find key k (l.orderedInsert r a) = find key k l := by
  induction l with
  | nil => exact find_cons_of_ne hk []
  | cons b l ih =>
    by_cases h : r a b
    · rw [List.orderedInsert_cons_of_le _ _ h]
      exact find_cons_of_ne hk _
    · rw [List.orderedInsert_of_not_le _ _ h]
      by_cases hb : key b = k
      · rw [find_cons_of_eq hb, find_cons_of_eq hb]
      · rw [find_cons_of_ne hb, find_cons_of_ne hb, ih]

end Espmod.Lib.FirstMatch
