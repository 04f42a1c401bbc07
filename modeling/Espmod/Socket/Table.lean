/-
# Espmod.Socket.Table — the descriptor table `_fdlist`

Descriptors live in one vector that `alloc` extends at the end and `espm_close` erases from in the
middle; everything else finds its entry by scanning. `Sorted` is the shape the scans rely on: numbers
strictly increase along the vector, so each open number has one index and every other number none.
-/
import Espmod.Lib.Text
import Mathlib.Data.List.Pairwise
import Mathlib.Tactic.Common

namespace Espmod.Socket

open Espmod.Lib.Text

/-! ## §1 — descriptors -/

/-- The `SOCK_…` constants. -/
inductive SockType where
  | STREAM
  | DGRAM
  | RAW
  | SEQPACKET
  deriving DecidableEq, Repr

/-- `fd_t`, without the address and the socket options. -/
structure Fd where
  fdn : Int
  port : Int
  owner : Int
  flags : UInt32
  type : SockType
  connected : Bool
  bound : Bool
  closed : Bool
  maxconnect : Int
  connections : Int
  buffer : Bytes
  deriving DecidableEq, Repr

namespace Fd

/-- `fd_t::islistening`. -/
def islistening (f : Fd) : Bool :=
  (f.type == .STREAM || f.type == .SEQPACKET) && f.bound && decide (f.maxconnect ≥ 0)

/-- The constructor `fd_t(int _owner)`, with the number `alloc` gives. -/
def new (fdn owner : Int) : Fd where
  fdn := fdn
  port := -1
  owner := owner
  flags := 0
  type := .STREAM
  connected := false
  bound := false
  closed := false
  maxconnect := -1
  connections := 0
  buffer := []

/-- `buffer.push_back` of several characters. -/
def push (f : Fd) (bs : Bytes) : Fd := { f with buffer := f.buffer ++ bs }

/-- Characters are appended and connections counted. -/
def fill (f : Fd) (bs : Bytes) (n : Int) : Fd :=
  { f with buffer := f.buffer ++ bs, connections := f.connections + n }

/-- What is left in the buffer after characters were taken from its front. -/
def consume (f : Fd) (rest : Bytes) : Fd := { f with buffer := rest }

/-- The assignments of `espm_bind`. -/
def bindTo (f : Fd) (port : UInt16) : Fd :=
  { f with port := port.toNat, bound := true, maxconnect := -1 }

/-- The assignment of `espm_listen`. -/
def listenFor (f : Fd) (backlog : Int) : Fd := { f with maxconnect := backlog }

/-- A connect request goes into the list to be accepted. -/
def queue (f : Fd) (msg : Bytes) : Fd :=
  { f.push ([0xff, chr 'c', chr ' '] ++ msg) with connections := f.connections + 1 }

/-- An accepted connection is gone. -/
def release (f : Fd) : Fd := { f with connections := f.connections - 1 }

/-- The assignments of `espm_accept` to the new entry; `f` is the listening one. -/
def accepted (a f : Fd) : Fd :=
  { a with port := f.port, flags := f.flags, connected := true, bound := false, maxconnect := 0 }

end Fd

/-! ## §2 — scanning and extending the vector -/

def INT32_MAX : Int := 2 ^ 31 - 1

/-- `espm_getind`, with `none` for `-1`. -/
def getind (fdlist : List Fd) (fd : Int) : Option Nat :=
  if fd < 0 then none else fdlist.findIdx? fun f => fd == f.fdn

/-- `getnotlisten`. -/
def getnotlisten (fdlist : List Fd) (port : Int) : Option Nat :=
  if port < 0 then none else fdlist.findIdx? fun f => !f.islistening && f.port == port

/-- The number `alloc` gives to the next descriptor; `none` where it reports `EMFILE`. -/
def nextfdn (fdlist : List Fd) : Option Int :=
  match fdlist.getLast? with
  | none => some 1
  | some f => if f.fdn = INT32_MAX then none else some (f.fdn + 1)

/-- `alloc`: the new number and the extended vector. -/
def alloc (fdlist : List Fd) (owner : Int) : Option (Int × List Fd) :=
  (nextfdn fdlist).map fun newfdn => (newfdn, fdlist ++ [Fd.new newfdn owner])

/-- Change the entry at an index. -/
def update (fdlist : List Fd) (ind : Nat) (g : Fd → Fd) : List Fd := fdlist.modify ind g

/-! ## §3 — sorted vectors -/

/-- Numbers strictly increase, and they are numbers `alloc` can have given. -/
structure Sorted (fdlist : List Fd) : Prop where
  increasing : fdlist.Pairwise fun f g => f.fdn < g.fdn
  bounds : ∀ f ∈ fdlist, 0 < f.fdn ∧ f.fdn ≤ INT32_MAX

section Sorted

variable {fdlist : List Fd} {fd owner : Int} {i j : Nat} {f g : Fd}

theorem getind_some (h : getind fdlist fd = some i) : ∃ f, fdlist[i]? = some f ∧ f.fdn = fd := by
  simp only [getind] at h
  split at h
  · simp at h
  · obtain ⟨hi, heq, _⟩ := List.findIdx?_eq_some_iff_getElem.mp h
    exact ⟨fdlist[i], List.getElem?_eq_getElem hi, by simpa using (beq_iff_eq.mp heq).symm⟩

theorem getind_lt (h : getind fdlist fd = some i) : i < fdlist.length := by
  obtain ⟨f, hf, _⟩ := getind_some h
  exact (List.getElem?_eq_some_iff.mp hf).1

theorem getnotlisten_some {port : Int} (h : getnotlisten fdlist port = some i) :
    ∃ f, fdlist[i]? = some f ∧ f.islistening = false ∧ f.port = port ∧ 0 ≤ port := by
  simp only [getnotlisten] at h
  split at h
  · simp at h
  · obtain ⟨hi, heq, _⟩ := List.findIdx?_eq_some_iff_getElem.mp h
    simp only [Bool.and_eq_true, Bool.not_eq_true', beq_iff_eq] at heq
    exact ⟨fdlist[i], List.getElem?_eq_getElem hi, heq.1, heq.2, by omega⟩

theorem getnotlisten_lt {port : Int} (h : getnotlisten fdlist port = some i) : i < fdlist.length := by
  obtain ⟨f, hf, _⟩ := getnotlisten_some h
  exact (List.getElem?_eq_some_iff.mp hf).1

/-- Two indices with one number are one index. -/
theorem Sorted.index_inj (h : Sorted fdlist) (hi : fdlist[i]? = some f) (hj : fdlist[j]? = some g)
    (heq : f.fdn = g.fdn) : i = j := by
  obtain ⟨hi', rfl⟩ := List.getElem?_eq_some_iff.mp hi
  obtain ⟨hj', rfl⟩ := List.getElem?_eq_some_iff.mp hj
  rcases Nat.lt_trichotomy i j with hlt | rfl | hgt
  · have := List.pairwise_iff_getElem.mp h.increasing i j hi' hj' hlt
    omega
  · rfl
  · have := List.pairwise_iff_getElem.mp h.increasing j i hj' hi' hgt
    omega

/-- **`espm_getind` finds exactly the entry of a number.** -/
theorem Sorted.getind_eq_some_iff (h : Sorted fdlist) :
    getind fdlist fd = some i ↔ ∃ f, fdlist[i]? = some f ∧ f.fdn = fd := by
  refine ⟨getind_some, ?_⟩
  rintro ⟨f, hf, rfl⟩
  have hpos := (h.bounds f (List.mem_of_getElem? hf)).1
  have hsome : (fdlist.findIdx? fun g => f.fdn == g.fdn).isSome := by
    rw [List.findIdx?_isSome, List.any_eq_true]
    exact ⟨f, List.mem_of_getElem? hf, by simp⟩
  obtain ⟨k, hk⟩ := Option.isSome_iff_exists.mp hsome
  have hgetind : getind fdlist f.fdn = some k := by
    rw [getind, if_neg (by omega), hk]
  obtain ⟨g, hg, hgf⟩ := getind_some hgetind
  rw [hgetind, h.index_inj hg hf hgf]

theorem Sorted.getind_isSome_iff (h : Sorted fdlist) :
    (getind fdlist fd).isSome ↔ ∃ f ∈ fdlist, f.fdn = fd := by
  rw [Option.isSome_iff_exists]
  constructor
  · rintro ⟨i, hi⟩
    obtain ⟨f, hf, heq⟩ := getind_some hi
    exact ⟨f, List.mem_of_getElem? hf, heq⟩
  · rintro ⟨f, hf, heq⟩
    obtain ⟨i, hi⟩ := List.mem_iff_getElem?.mp hf
    exact ⟨i, h.getind_eq_some_iff.mpr ⟨f, hi, heq⟩⟩

/-- The last entry has the largest number. -/
theorem Sorted.le_getLast (h : Sorted fdlist) (hf : f ∈ fdlist) (hg : fdlist.getLast? = some g) :
    f.fdn ≤ g.fdn := by
  obtain ⟨l, rfl⟩ := List.getLast?_eq_some_iff.mp hg
  obtain ⟨_, _, hlast⟩ := List.pairwise_append.mp h.increasing
  rcases List.mem_append.mp hf with hf | hf
  · exact (hlast f hf g (by simp)).le
  · obtain rfl : f = g := by simpa using hf
    exact le_refl _

/-- **A new descriptor gets a number above all others.** -/
theorem Sorted.nextfdn_spec (h : Sorted fdlist) {n : Int} (hn : nextfdn fdlist = some n) :
    0 < n ∧ n ≤ INT32_MAX ∧ ∀ f ∈ fdlist, f.fdn < n := by
  simp only [nextfdn] at hn
  split at hn
  · rename_i hnil
    obtain rfl : n = 1 := by simpa using hn.symm
    rw [List.getLast?_eq_none_iff] at hnil
    simp [hnil, INT32_MAX]
  · rename_i g hg
    split at hn
    · simp at hn
    · rename_i hmax
      obtain rfl : n = g.fdn + 1 := by simpa using hn.symm
      have hb := h.bounds g (List.mem_of_getLast? hg)
      refine ⟨by omega, by omega, fun f hf => ?_⟩
      have := h.le_getLast hf hg
      omega

theorem Sorted.append (h : Sorted fdlist) {n : Int} (hn : nextfdn fdlist = some n)
    (hf : f.fdn = n) : Sorted (fdlist ++ [f]) := by
  obtain ⟨hpos, hmax, hlt⟩ := h.nextfdn_spec hn
  refine ⟨List.pairwise_append.mpr ⟨h.increasing, by simp, fun g hg k hk => ?_⟩, fun g hg => ?_⟩
  · obtain rfl : k = f := by simpa using hk
    have := hlt g hg
    omega
  · rcases List.mem_append.mp hg with hg | hg
    · exact h.bounds g hg
    · obtain rfl : g = f := by simpa using hg
      omega

theorem Sorted.eraseIdx (h : Sorted fdlist) (i : Nat) : Sorted (fdlist.eraseIdx i) :=
  ⟨h.increasing.eraseIdx i, fun f hf => h.bounds f (List.mem_of_mem_eraseIdx hf)⟩

/-- Erasing an entry removes its number and keeps the others. -/
theorem Sorted.mem_eraseIdx (h : Sorted fdlist) (hf : fdlist[i]? = some f) :
    (∃ g ∈ fdlist.eraseIdx i, g.fdn = fd) ↔ (∃ g ∈ fdlist, g.fdn = fd) ∧ fd ≠ f.fdn := by
  have hkey : ∀ g, g ∈ fdlist.eraseIdx i ↔ g ∈ fdlist ∧ g.fdn ≠ f.fdn := by
    intro g
    rw [List.mem_eraseIdx_iff_getElem?]
    constructor
    · rintro ⟨j, hj, hg⟩
      exact ⟨List.mem_of_getElem? hg, fun heq => hj (h.index_inj hg hf heq)⟩
    · rintro ⟨hg, hne⟩
      obtain ⟨j, hj⟩ := List.mem_iff_getElem?.mp hg
      refine ⟨j, fun hji => hne ?_, hj⟩
      subst hji
      rw [hj] at hf
      rw [Option.some.inj hf]
  constructor
  · rintro ⟨g, hg, rfl⟩
    exact ⟨⟨g, ((hkey g).mp hg).1, rfl⟩, ((hkey g).mp hg).2⟩
  · rintro ⟨⟨g, hg, rfl⟩, hne⟩
    exact ⟨g, (hkey g).mpr ⟨hg, hne⟩, rfl⟩

/-- Changes that keep the numbers keep the shape. -/
theorem Sorted.congr {fdlist' : List Fd} (h : Sorted fdlist)
    (heq : fdlist'.map Fd.fdn = fdlist.map Fd.fdn) : Sorted fdlist' := by
  have hpair : (fdlist.map Fd.fdn).Pairwise (· < ·) := List.pairwise_map.mpr h.increasing
  refine ⟨List.pairwise_map.mp (heq ▸ hpair), fun f hf => ?_⟩
  have hmem : f.fdn ∈ fdlist.map Fd.fdn := heq ▸ List.mem_map_of_mem hf
  obtain ⟨g, hg, hgf⟩ := List.mem_map.mp hmem
  rw [← hgf]
  exact h.bounds g hg

end Sorted

/-- Changing an entry leaves the field alone that the change leaves alone. -/
theorem update_map {α : Type} {fdlist : List Fd} {g : Fd → Fd} (p : Fd → α)
    (hg : ∀ f, p (g f) = p f) (ind : Nat) : (update fdlist ind g).map p = fdlist.map p := by
  apply List.ext_getElem?
  intro i
  simp only [update, List.getElem?_map, List.getElem?_modify]
  cases fdlist[i]? with
  | none => simp
  | some f =>
    simp only [Option.map_some]
    split <;> simp [hg]

theorem update_fdn {fdlist : List Fd} {g : Fd → Fd} (hg : ∀ f, (g f).fdn = f.fdn) (ind : Nat) :
    (update fdlist ind g).map Fd.fdn = fdlist.map Fd.fdn :=
  update_map Fd.fdn hg ind

end Espmod.Socket
