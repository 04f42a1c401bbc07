/-
# Espmod.Socket.Integrity — descriptor numbers along runs

A run from the table `fillbuffers` creates, watched from outside: next to the state, the numbers the
callers hold (`opened`) and whether a step broke a rule of the language. `Intact` is what the callers
rely on — every number they hold has exactly one entry, every other number none, and entry 0 is the
control descriptor — and it holds along every run that closes no owner.

One close of the other kind is enough to lose it: the number that was closed is still there and one
that is held is gone (`descriptors_intact_grandchild`).
-/
import Espmod.Socket.Effects
import Espmod.Lib.Run

namespace Espmod.Socket

open Espmod.Lib Espmod.Lib.Text

/-! ## §1 — the callers' view -/

/-- The state, the numbers the callers hold, and whether a rule of the language was broken. -/
structure Traced where
  net : Sockets
  opened : List Int
  faulted : Bool

namespace Traced

/-- `fillbuffers` has created the control descriptor. -/
def boot : Traced := ⟨Sockets.boot, [1], false⟩

def step (w : Traced) (e : Event) : Traced where
  net := w.net.step e
  opened := (w.opened ++ w.net.opens e).filter (· ∉ w.net.closes e)
  faulted := w.faulted || w.net.faults e

end Traced

/-- **What the callers rely on.** -/
structure Intact (w : Traced) : Prop where
  running : w.faulted = false
  increasing : w.net.fdlist.Pairwise fun f g => f.fdn < g.fdn
  unique : ∀ fd ∈ w.opened, ∃ i, getind w.net.fdlist fd = some i ∧
    ∀ j f, w.net.fdlist[j]? = some f → (f.fdn = fd ↔ j = i)
  others : ∀ fd, fd ∉ w.opened → getind w.net.fdlist fd = none
  control : w.net.fdlist.head?.map Fd.fdn = some w.net.controlfd
  kept : w.net.controlfd ∈ w.opened

/-! ## §2 — the invariant -/

/-- The shape of the table, and the numbers in it are the numbers held. -/
structure Held (w : Traced) : Prop where
  running : w.faulted = false
  shape : Integrity w.net
  held : ∀ fd, fd ∈ w.opened ↔ fd ∈ w.net.fdlist.map Fd.fdn

theorem Held.intact {w : Traced} (h : Held w) : Intact w where
  running := h.running
  increasing := h.shape.sorted.increasing
  unique := by
    intro fd hfd
    obtain ⟨f, hf, heq⟩ := List.mem_map.mp ((h.held fd).mp hfd)
    obtain ⟨i, hi⟩ := List.mem_iff_getElem?.mp hf
    refine ⟨i, h.shape.sorted.getind_eq_some_iff.mpr ⟨f, hi, heq⟩, fun j g hg => ?_⟩
    constructor
    · intro hgfd
      exact h.shape.sorted.index_inj hg hi (hgfd.trans heq.symm)
    · rintro rfl
      rw [Option.some.inj (hg.symm.trans hi), heq]
  others := by
    intro fd hfd
    rw [← Option.not_isSome_iff_eq_none, h.shape.sorted.getind_isSome_iff]
    rintro ⟨f, hf, heq⟩
    exact hfd ((h.held fd).mpr (List.mem_map.mpr ⟨f, hf, heq⟩))
  control := h.shape.control
  kept := by
    obtain ⟨f, hf, heq⟩ := Option.map_eq_some_iff.mp h.shape.control
    exact (h.held _).mpr (List.mem_map.mpr ⟨f, List.mem_of_head? hf, heq⟩)

theorem Held.boot : Held Traced.boot where
  running := rfl
  shape := ⟨⟨by simp [Traced.boot, Sockets.boot], by
    simp [Traced.boot, Sockets.boot, Fd.new, INT32_MAX]⟩, rfl⟩
  held := by simp [Traced.boot, Sockets.boot, Fd.new]

section Effects

variable {s s' : Sockets} {e : Event} {o c : List Int}

theorem Becomes.integrity {fdlist : List Fd} {portclosed : Bool} (h : Integrity s)
    (hs' : Becomes s s' fdlist portclosed) (hfdn : fdlist.map Fd.fdn = s.fdlist.map Fd.fdn) :
    Integrity s' :=
  h.congr (by rw [hs'.fdlist, hfdn]) hs'.controlfd

/-- Appending an entry with the next number keeps the shape. -/
theorem Becomes.integrity_append {fdlist : List Fd} {f : Fd} {portclosed : Bool} (h : Integrity s)
    (hs' : Becomes s s' (fdlist ++ [f]) portclosed)
    (hfdn : fdlist.map Fd.fdn = s.fdlist.map Fd.fdn) (hf : nextfdn s.fdlist = some f.fdn) :
    Integrity s' := by
  have hsorted : Sorted fdlist := h.sorted.congr hfdn
  refine ⟨?_, ?_⟩
  · rw [hs'.fdlist]
    exact hsorted.append ((nextfdn_congr hfdn).trans hf) rfl
  · have hne : fdlist.map Fd.fdn ≠ [] := by
      rw [hfdn]
      intro hnil
      have hhead := h.control
      rw [← List.head?_map, hnil] at hhead
      simp at hhead
    rw [hs'.fdlist, hs'.controlfd, ← h.control, ← List.head?_map, ← List.head?_map, List.map_append,
      List.head?_append_of_ne_nil _ hne, hfdn]

/-- Erasing an entry other than the control descriptor keeps the shape. -/
theorem Becomes.integrity_erase {fdlist : List Fd} {ind : Nat} {portclosed : Bool} (h : Integrity s)
    (hs' : Becomes s s' (fdlist.eraseIdx ind) portclosed)
    (hfdn : fdlist.map Fd.fdn = s.fdlist.map Fd.fdn) (hpos : 0 < ind) : Integrity s' := by
  have hsorted : Sorted fdlist := h.sorted.congr hfdn
  refine ⟨?_, ?_⟩
  · rw [hs'.fdlist]
    exact hsorted.eraseIdx ind
  · rw [hs'.fdlist, hs'.controlfd, List.head?_eq_getElem?, List.getElem?_eraseIdx_of_lt hpos,
      ← List.head?_eq_getElem?, ← h.control, ← List.head?_map, ← List.head?_map, hfdn]

/-- What a call does to the numbers: nothing, one more at the end, or one less. -/
theorem Sockets.Effect.numbers (h : Integrity s) (he : s.Effect e s' o c) :
    Integrity s' ∧ ∀ fd, fd ∈ s'.fdlist.map Fd.fdn ↔ (fd ∈ s.fdlist.map Fd.fdn ∨ fd ∈ o) ∧ fd ∉ c := by
  -- a change in place that keeps the numbers
  have hsame : ∀ {ind : Nat} {g : Fd → Fd} {portclosed : Bool},
      Becomes s s' (update s.fdlist ind g) portclosed → (∀ f, (g f).fdn = f.fdn) → Integrity s' ∧
        ∀ fd, fd ∈ s'.fdlist.map Fd.fdn ↔ (fd ∈ s.fdlist.map Fd.fdn ∨ fd ∈ ([] : List Int)) ∧
          fd ∉ ([] : List Int) := by
    intro ind g portclosed hs' hg
    refine ⟨hs'.integrity h (update_fdn hg ind), fun fd => ?_⟩
    rw [hs'.fdlist, update_fdn hg ind]
    simp
  cases he with
  | idle hs' =>
    refine ⟨hs'.integrity h rfl, fun fd => ?_⟩
    rw [hs'.fdlist]
    simp
  | created htype hnew hs' =>
    refine ⟨hs'.integrity_append h rfl hnew, fun fd => ?_⟩
    rw [hs'.fdlist]
    simp [Fd.new, or_comm]
  | bound hf hfree hs' => exact hsame hs' fun _ => rfl
  | listening hf hbound htype hs' => exact hsame hs' fun _ => rfl
  | discarded hf hlis hline hfail hs' => exact hsame hs' fun _ => rfl
  | @accepted _ _ _ _ _ _ ind _ _ rest _ hf hlis hline hserves hnew hs' =>
    have hfdn : (update s.fdlist ind (·.consume rest)).map Fd.fdn = s.fdlist.map Fd.fdn :=
      update_fdn (g := (·.consume rest)) (fun _ => rfl) ind
    refine ⟨hs'.integrity_append h hfdn hnew, fun fd => ?_⟩
    rw [hs'.fdlist, List.map_append, hfdn]
    simp [Fd.new, Fd.accepted, or_comm]
  | aborted hf hlis hline hserves hnew hs' => exact hsame hs' fun _ => rfl
  | @closed _ _ n ind f _ hf hctl hs' =>
    have hfdn := released_fdn s.fdlist f
    refine ⟨hs'.integrity_erase h hfdn (h.pos hf hctl), fun fd => ?_⟩
    obtain ⟨g, hg, hgf⟩ : ∃ g, (released s.fdlist f)[ind]? = some g ∧ g.fdn = n := by
      have hmap : (s.fdlist.map Fd.fdn)[ind]? = some n := by
        rw [List.getElem?_map, hf.entry, Option.map_some, hf.fdn]
      rw [← hfdn, List.getElem?_map] at hmap
      obtain ⟨g, hg, hgf⟩ := Option.map_eq_some_iff.mp hmap
      exact ⟨g, hg, hgf⟩
    have hmem : (∃ g' ∈ (released s.fdlist f).eraseIdx ind, g'.fdn = fd) ↔
        (∃ g' ∈ released s.fdlist f, g'.fdn = fd) ∧ fd ≠ g.fdn :=
      (h.sorted.congr hfdn).mem_eraseIdx hg
    rw [hs'.fdlist, List.mem_map, hmem, ← List.mem_map, hfdn, hgf]
    simp
  | taken hf hs' => exact hsame hs' fun _ => rfl

end Effects

/-- **One step keeps the invariant.** -/
theorem Held.step {w : Traced} (h : Held w) {e : Event} (hok : w.net.orderly e) :
    Held (w.step e) := by
  by_cases hcall : e.isCall
  · obtain ⟨heff, hfault⟩ := w.net.step_effect h.shape hcall hok
    obtain ⟨hshape, hnumbers⟩ := heff.numbers h.shape
    refine ⟨by simp [Traced.step, h.running, hfault], hshape, fun fd => ?_⟩
    show fd ∈ (w.opened ++ w.net.opens e).filter (· ∉ w.net.closes e) ↔
      fd ∈ (w.net.step e).fdlist.map Fd.fdn
    rw [hnumbers fd, List.mem_filter, List.mem_append, h.held, decide_eq_true_iff]
  · obtain ⟨room, c, rfl⟩ := Event.eq_rx hcall
    have hsame := w.net.rx_numbers room c
    refine ⟨?_, h.shape.congr hsame.1 hsame.2, fun fd => ?_⟩
    · simp [Traced.step, Sockets.faults, h.running]
    · show fd ∈ (w.opened ++ []).filter (· ∉ []) ↔ fd ∈ (w.net.rx room c).fdlist.map Fd.fdn
      rw [hsame.1, ← h.held]
      simp

/-! ## §3 — runs -/

/-- **Descriptor integrity.** In every state of every run whose closes close no owner, the callers'
view of the table is right. -/
theorem descriptors_intact (es : List Event)
    (hok : Throughout (fun w e => w.net.orderly e) Traced.step Traced.boot es) :
    Always (fun _ w => Intact w) Traced.step [] Traced.boot es :=
  always_of_throughout (I := fun _ w => Held w) (fun _ _ h => h.intact) (fun _ _ _ h he => h.step he)
    es [] Traced.boot Held.boot hok

/-- A server accepts a connection, opens another socket, and closes both of them again. -/
def acceptAndClose : List Event :=
  ([.socket AF_INET .STREAM 0, .bind 2 (some 80), .listen 2 1] : List Event) ++
    Event.feed 100 (0xff :: str "c 1.2.3.4:80\r\n") ++
    ([.accept 100 5 [] 0 2, .socket AF_INET .STREAM 0, .close 100 5 3, .close 100 5 2] : List Event)

theorem descriptors_intact_acceptAndClose :
    Always (fun _ w => Intact w) Traced.step [] Traced.boot acceptAndClose :=
  descriptors_intact acceptAndClose (by decide +kernel)

/-- The accepted connection listens in its turn and is closed: its owner goes first, and the entry
erased afterwards is the one of descriptor 4. -/
def grandchild : List Event :=
  ([.socket AF_INET .STREAM 0, .bind 2 (some 80), .listen 2 1] : List Event) ++
    Event.feed 100 (0xff :: str "c 1.2.3.4:80\r\n") ++
    ([.accept 100 5 [] 0 2, .socket AF_INET .STREAM 0, .bind 3 (some 81), .listen 3 1,
      .close 100 5 3] : List Event)

/-- **The invariant fails on that run**: descriptor 4 is held and has no entry. -/
theorem descriptors_intact_grandchild :
    ¬ Always (fun _ w => Intact w) Traced.step [] Traced.boot grandchild := by
  intro h
  obtain ⟨i, hi, -⟩ := h.last.unique 4 (by decide +kernel)
  have hnone : getind (grandchild.foldl Traced.step Traced.boot).net.fdlist 4 = none := by
    decide +kernel
  rw [hnone] at hi
  simp at hi

end Espmod.Socket
