/-
# Espmod.Socket.Isolation — calls that use the index of their own descriptor

A call computes the index of its descriptor once and goes on using it behind its waits. Descriptors
that are opened are appended and disturb nobody. A close erases an entry in the middle of `_fdlist`,
and every entry behind it moves down by one: an index held by a thread in a wait then names the next
descriptor, or lies outside the vector.

The invariant is that every index held in a wait still has the descriptor of its call. Everything keeps
it but an erase below or at an index that another thread holds.
-/
import Espmod.Socket.Effects
import Espmod.Socket.Threads

namespace Espmod.Socket

open Espmod.Lib Espmod.Lib.Text

/-! ## §1 — indices held in waits -/

/-- The descriptors and indices a call goes on with. -/
def ReadFor.held : ReadFor → List (Int × Nat)
  | recv _ _ _ _ => []
  | accept fd ind => [(fd, ind)]
  | connect fd ind => [(fd, ind)]

def CloseFrame.held (frame : CloseFrame) : Int × Nat := (frame.fd, frame.ind)

def WriteFor.held : WriteFor → List (Int × Nat)
  | accept fd ind _ => [(fd, ind)]
  | connect fd ind => [(fd, ind)]
  | close fd ind callers => (fd, ind) :: callers.map CloseFrame.held

def Task.held : Task → List (Int × Nat)
  | idle => []
  | readSem k => k.held
  | reading k ind _ _ _ => (k.fd, ind) :: k.held
  | writeSem k _ => k.held
  | sending k _ _ => k.held
  | closing frames => frames.map CloseFrame.held

/-- No nested close is under way, and the control descriptor is not being closed. -/
def Task.Flat (controlfd : Int) : Task → Prop
  | writeSem (.close fd _ callers) _ => fd ≠ controlfd ∧ callers = []
  | sending (.close fd _ callers) _ _ => fd ≠ controlfd ∧ callers = []
  | closing _ => False
  | _ => True

namespace Firmware

/-- **Every use of an entry is by a call on its descriptor**, and inside the vector. -/
def OwnEntries (_ : List Step) (w : Firmware) : Prop := ∀ a ∈ w.accesses, a.entry = some a.fd

instance (es : List Step) (w : Firmware) : Decidable (OwnEntries es w) :=
  inferInstanceAs (Decidable (∀ a ∈ _, _))

/-- The threads other than `r` hold indices below `ind` only. -/
def OthersBelow (w : Firmware) (r ind : Nat) : Prop :=
  ∀ q < w.threads.length, q ≠ r → ∀ p ∈ (w.threads.getD q .idle).held, p.2 < ind

instance (w : Firmware) (r ind : Nat) : Decidable (OthersBelow w r ind) :=
  inferInstanceAs (Decidable (∀ q < _, _))

/-- The index `espm_close(fd)` erases without a wait before: that of an unconnected descriptor. -/
def erasesAtOnce (w : Firmware) (fd : Int) : Option Nat :=
  match getind w.net.fdlist fd with
  | none => none
  | some ind =>
    if fd = w.net.controlfd ∨ (w.net.fdlist.getD ind (Fd.new 0 0)).connected = true then none
    else some ind

/-- A close that may begin now: not of a listening descriptor with an open owner, and when it erases
at once, then above the indices of the others. -/
def ClosesClear (w : Firmware) (r : Nat) (fd : Int) : Prop :=
  ¬ w.net.closesOwner fd ∧ ∀ ind ∈ w.erasesAtOnce fd, OthersBelow w r ind

instance (w : Firmware) (r : Nat) (fd : Int) : Decidable (ClosesClear w r fd) :=
  inferInstanceAs (Decidable (_ ∧ _))

/-- An entry is only erased above the indices that other threads hold in their waits. -/
def ErasesClear (w : Firmware) : Step → Prop
  | .close r fd => ClosesClear w r fd
  | .turn r room =>
    match w.threads[r]? with
    | some (.sending (.close _ ind _) _ left) => left ≤ room → OthersBelow w r ind
    | some (.sending (.accept _ _ afd) 0 left) => left ≤ room → ClosesClear w r afd
    | _ => True
  | _ => True

instance (w : Firmware) (e : Step) : Decidable (ErasesClear w e) := by
  unfold ErasesClear
  split
  · infer_instance
  · split <;> infer_instance
  · infer_instance

/-! ## §2 — the invariant -/

variable {w : Firmware} {r ind : Nat} {fd : Int}

/-- Every index held in a wait is that of its descriptor, and so was every one used. -/
structure Placed (w : Firmware) : Prop where
  shape : Integrity w.net
  held : ∀ (q : Nat) (t : Task), w.threads[q]? = some t → ∀ p ∈ t.held, w.entryAt p.2 = some p.1
  flat : ∀ (q : Nat) (t : Task), w.threads[q]? = some t → t.Flat w.net.controlfd
  own : ∀ a ∈ w.accesses, a.entry = some a.fd

theorem entryAt_eq (w : Firmware) (i : Nat) : w.entryAt i = (w.net.fdlist.map Fd.fdn)[i]? := by
  unfold entryAt
  rw [List.getElem?_map]

/-- A computed index is that of its descriptor. -/
theorem entryAt_getind (h : getind w.net.fdlist fd = some ind) : w.entryAt ind = some fd := by
  obtain ⟨f, hf, heq⟩ := getind_some h
  unfold entryAt
  rw [hf, Option.map_some, heq]

theorem entry_of_entryAt (h : w.entryAt ind = some fd) : ∃ f, w.net.fdlist[ind]? = some f ∧ f.fdn = fd :=
  Option.map_eq_some_iff.mp h

/-- Changes that keep the numbers in the vector keep every index. -/
theorem Placed.numbers (h : Placed w) (net : Sockets)
    (hfdn : net.fdlist.map Fd.fdn = w.net.fdlist.map Fd.fdn) (hctl : net.controlfd = w.net.controlfd) :
    Placed { w with net := net } where
  shape := h.shape.congr hfdn hctl
  held q t ht p hp := by
    rw [entryAt_eq]
    show (net.fdlist.map Fd.fdn)[p.2]? = _
    rw [hfdn, ← entryAt_eq]
    exact h.held q t ht p hp
  flat q t ht := by
    show t.Flat net.controlfd
    rw [hctl]
    exact h.flat q t ht
  own := h.own

theorem Placed.update (h : Placed w) (i : Nat) {g : Fd → Fd} (hg : ∀ f, (g f).fdn = f.fdn) :
    Placed (w.setFdlist (update w.net.fdlist i g)) :=
  h.numbers { w.net with fdlist := Socket.update w.net.fdlist i g } (update_fdn hg i) rfl

/-- A descriptor more, at the end. -/
theorem Placed.append (h : Placed w) {fdlist : List Fd} {n : Int}
    (hnext : nextfdn w.net.fdlist = some n)
    (hfdn : fdlist.map Fd.fdn = w.net.fdlist.map Fd.fdn ++ [n]) : Placed (w.setFdlist fdlist) where
  shape := by
    have hsorted : Sorted (w.net.fdlist ++ [Fd.new n (-1)]) := h.shape.sorted.append hnext rfl
    refine ⟨hsorted.congr ?_, ?_⟩
    · rw [List.map_append]
      exact hfdn
    · show fdlist.head?.map Fd.fdn = some w.net.controlfd
      have hctl := h.shape.control
      rw [← List.head?_map] at hctl ⊢
      rw [hfdn]
      cases hmap : w.net.fdlist.map Fd.fdn with
      | nil =>
        rw [hmap] at hctl
        cases hctl
      | cons x xs =>
        rw [hmap] at hctl
        exact hctl
  held q t ht p hp := by
    rw [entryAt_eq]
    show (fdlist.map Fd.fdn)[p.2]? = _
    have hold := h.held q t ht p hp
    rw [entryAt_eq] at hold
    rw [hfdn, List.getElem?_append_left (List.getElem?_eq_some_iff.mp hold).1]
    exact hold
  flat := h.flat
  own := h.own

/-- A use of an entry through its own index. -/
theorem Placed.touch (h : Placed w) (hent : w.entryAt ind = some fd) (taken : Bytes) :
    Placed (w.touch fd ind taken) where
  shape := h.shape
  held := h.held
  flat := h.flat
  own a ha := by
    rcases List.mem_append.mp ha with hold | hnew
    · exact h.own a hold
    · rw [List.mem_singleton.mp hnew]
      exact hent

/-- The next wait of a thread. -/
theorem Placed.setTask (h : Placed w) {t : Task} (hheld : ∀ p ∈ t.held, w.entryAt p.2 = some p.1)
    (hflat : t.Flat w.net.controlfd) : Placed (w.setTask r t) where
  shape := h.shape
  held q t' ht' := by
    have ht'' : (w.threads.set r t)[q]? = some t' := ht'
    rw [List.getElem?_set] at ht''
    split at ht''
    · split at ht''
      · cases ht''
        exact hheld
      · cases ht''
    · exact h.held q t' ht''
  flat q t' ht' := by
    have ht'' : (w.threads.set r t)[q]? = some t' := ht'
    rw [List.getElem?_set] at ht''
    split at ht''
    · split at ht''
      · cases ht''
        exact hflat
      · cases ht''
    · exact h.flat q t' ht''
  own := h.own

/-- A thread that leaves its call. -/
theorem Placed.idle (h : Placed w) : Placed (w.setTask r .idle) := by
  apply h.setTask
  · intro p hp
    cases hp
  · trivial

theorem Placed.crash (h : Placed w) : Placed (w.crash r) :=
  (h.numbers { w.net with pc := .crashed } rfl rfl).idle

theorem Placed.semaphores (h : Placed w) (oneread onewrite : Bool) :
    Placed { w with oneread := oneread, onewrite := onewrite } := ⟨h.shape, h.held, h.flat, h.own⟩

/-! ## §3 — what the calls do -/

theorem Placed.readFail (h : Placed w) : Placed (w.readFail r) :=
  (h.semaphores false w.onewrite).idle

/-- `espm_accept` behind its line, with the index it has held. -/
theorem Placed.acceptLine (h : Placed w) (hent : w.entryAt ind = some fd) (msg : Bytes) :
    Placed (w.acceptLine r fd ind msg) := by
  unfold Firmware.acceptLine
  split
  · exact h.idle
  · cases halloc : alloc w.net.fdlist fd with
    | none => exact h.idle
    | some new =>
      obtain ⟨afd, fdlist⟩ := new
      obtain ⟨n, hnext, hnew⟩ := Option.map_eq_some_iff.mp halloc
      cases hnew
      have hgrown : Placed (w.setFdlist (w.net.fdlist ++ [Fd.new afd fd])) :=
        h.append hnext (by simp [Fd.new])
      have hfound : getind (w.net.fdlist ++ [Fd.new afd fd]) afd = some w.net.fdlist.length :=
        getind_append h.shape.sorted hnext rfl
      obtain ⟨f, hf, hfd⟩ := entry_of_entryAt hent
      have hlt := (List.getElem?_eq_some_iff.mp hf).1
      have hf' : (w.net.fdlist ++ [Fd.new afd fd])[ind]? = some f := by
        rw [List.getElem?_append_left hlt]
        exact hf
      dsimp only
      rw [hfound]
      dsimp only
      rw [hf']
      dsimp only
      have hent' : (w.setFdlist (w.net.fdlist ++ [Fd.new afd fd])).entryAt ind = some fd := by
        show ((w.net.fdlist ++ [Fd.new afd fd])[ind]?).map Fd.fdn = some fd
        rw [hf', Option.map_some, hfd]
      have hnewent : ((w.setFdlist (w.net.fdlist ++ [Fd.new afd fd])).touch fd ind []).entryAt
          w.net.fdlist.length = some afd := entryAt_getind hfound
      have htouched := (hgrown.touch hent' []).touch hnewent []
      have hset := htouched.update w.net.fdlist.length (g := fun a => a.accepted f) fun _ => rfl
      apply hset.setTask
      · intro p hp
        rw [List.mem_singleton.mp hp, entryAt_eq]
        show ((Socket.update (w.net.fdlist ++ [Fd.new afd fd]) w.net.fdlist.length
          fun a => a.accepted f).map Fd.fdn)[ind]? = some fd
        rw [update_fdn (g := fun a => a.accepted f) (fun _ => rfl), List.getElem?_map, hf',
          Option.map_some, hfd]
      · trivial

/-- `espm_connect` behind its line. -/
theorem Placed.connectLine (h : Placed w) (hent : w.entryAt ind = some fd) (msg : Bytes) :
    Placed (w.connectLine r fd ind msg) := by
  unfold Firmware.connectLine
  split
  · dsimp only
    split
    · exact (h.touch hent []).crash
    · exact ((h.touch hent []).update ind
        (g := fun f => { f with connected := true, bound := false }) fun _ => rfl).idle
  · exact h.idle

/-- What comes behind a read, with the indices held while reading. -/
theorem Placed.readDone (h : Placed w) {k : ReadFor} (hk : ∀ p ∈ k.held, w.entryAt p.2 = some p.1)
    (got : Bytes) : Placed (w.readDone r k got) := by
  cases k with
  | recv fd len waitall dontwait => exact h.idle
  | accept fd ind => exact h.acceptLine (hk (fd, ind) (List.mem_singleton_self _)) _
  | connect fd ind => exact h.connectLine (hk (fd, ind) (List.mem_singleton_self _)) _

/-- **A read through its own index** takes characters from its own buffer only. -/
theorem Placed.read (h : Placed w) {k : ReadFor} (hent : w.entryAt ind = some k.fd)
    (hk : ∀ p ∈ k.held, w.entryAt p.2 = some p.1) (reader : Reader) (got : Bytes) :
    Placed (w.read r k ind reader got) := by
  obtain ⟨f, hf, hfd⟩ := entry_of_entryAt hent
  unfold Firmware.read
  rw [hf]
  dsimp only
  generalize reader.run f.buffer = out
  obtain ⟨reader', rest⟩ := out
  dsimp only
  have hread : Placed ((w.touch k.fd ind (f.buffer.take (f.buffer.length - rest.length))).setFdlist
      (Socket.update w.net.fdlist ind (·.consume rest))) :=
    (h.touch hent _).update ind (g := (·.consume rest)) fun _ => rfl
  have hsame : ∀ i, ((w.touch k.fd ind (f.buffer.take (f.buffer.length - rest.length))).setFdlist
      (Socket.update w.net.fdlist ind (·.consume rest))).entryAt i = w.entryAt i := by
    intro i
    rw [entryAt_eq, entryAt_eq]
    show ((Socket.update w.net.fdlist ind (·.consume rest)).map Fd.fdn)[i]? = _
    rw [update_fdn (g := (·.consume rest)) fun _ => rfl]
  cases reader' with
  | some reader' =>
    apply hread.setTask
    · intro p hp
      rw [hsame]
      rcases List.mem_cons.mp hp with rfl | hp
      · exact hent
      · exact hk p hp
    · trivial
  | none =>
    apply Placed.readDone (hread.semaphores false w.onewrite)
    intro p hp
    exact (hsame p.2).trans (hk p hp)

theorem Placed.receive (h : Placed w) (len : Nat) (waitall dontwait : Bool) :
    Placed (w.receive r fd len waitall dontwait) := by
  unfold Firmware.receive
  cases hfound : getind w.net.fdlist fd with
  | none => exact h.readFail
  | some ind =>
    dsimp only
    have hent := entryAt_getind hfound
    split_ifs
    · exact h.readFail
    · exact h.readFail
    · exact h.readFail
    · exact h.readFail
    · exact h.readFail
    · exact h.read (k := .recv fd len waitall dontwait) hent (fun p hp => by cases hp) _ _
    · exact ((h.touch hent _).update ind
        (g := (·.consume ((w.net.fdlist.getD ind (Fd.new 0 0)).buffer.drop len)))
        fun _ => rfl).readFail

theorem Placed.startRead (h : Placed w) {k : ReadFor} (hk : ∀ p ∈ k.held, w.entryAt p.2 = some p.1) :
    Placed (w.startRead r k) := by
  cases k with
  | recv fd len waitall dontwait => exact h.receive len waitall dontwait
  | accept fd ind₀ =>
    unfold Firmware.startRead
    dsimp only
    cases hfound : getind w.net.fdlist fd with
    | none => exact h.readFail
    | some ind => exact h.read (k := .accept fd ind₀) (entryAt_getind hfound) hk _ _
  | connect fd ind₀ =>
    have hent : w.entryAt ind₀ = some fd := hk (fd, ind₀) (List.mem_singleton_self _)
    obtain ⟨f, hf, hfd⟩ := entry_of_entryAt hent
    have htouched := h.touch hent []
    unfold Firmware.startRead
    dsimp only
    have hf' : (w.touch fd ind₀ []).net.fdlist[ind₀]? = some f := hf
    rw [hf']
    dsimp only
    cases hfound : getind (w.touch fd ind₀ []).net.fdlist f.fdn with
    | none => exact htouched.readFail
    | some ind =>
      have hent' : (w.touch fd ind₀ []).entryAt ind = some fd := (entryAt_getind hfound).trans (by rw [hfd])
      exact htouched.read (k := .connect fd ind₀) hent' hk _ _

/-! ## §4 — closing -/

/-- The index of an entry is not the control descriptor's. -/
theorem Placed.pos (h : Placed w) (hent : w.entryAt ind = some fd) (hne : fd ≠ w.net.controlfd) :
    0 < ind := by
  obtain ⟨f, hf, hfd⟩ := entry_of_entryAt hent
  exact h.shape.pos ⟨h.shape.sorted.getind_eq_some_iff.mpr ⟨f, hf, hfd⟩, hf⟩ hne

/-- **An erase above the others' indices.** -/
theorem Placed.erase (h : Placed w) (hent : w.entryAt ind = some fd) (hne : fd ≠ w.net.controlfd)
    (hothers : OthersBelow w r ind) : Placed (w.erase r fd ind []) := by
  have hpos := h.pos hent hne
  obtain ⟨f, hf, hfd⟩ := entry_of_entryAt hent
  have hlt : ind < (w.touch fd ind []).net.fdlist.length := (List.getElem?_eq_some_iff.mp hf).1
  have htouched := h.touch hent []
  unfold Firmware.erase
  dsimp only
  rw [if_pos hlt]
  have hidle : ∀ q t, (w.threads.set r .idle)[q]? = some t →
      t = .idle ∨ q ≠ r ∧ w.threads[q]? = some t := by
    intro q t ht
    rw [List.getElem?_set] at ht
    split at ht
    · split at ht
      · exact Or.inl (Option.some.inj ht).symm
      · cases ht
    next hqr => exact Or.inr ⟨Ne.symm hqr, ht⟩
  refine ⟨⟨h.shape.sorted.eraseIdx ind, ?_⟩, ?_, ?_, htouched.own⟩
  · show (w.net.fdlist.eraseIdx ind).head?.map Fd.fdn = some w.net.controlfd
    rw [List.head?_eq_getElem?, List.getElem?_eraseIdx_of_lt hpos, ← List.head?_eq_getElem?]
    exact h.shape.control
  · intro q t ht p hp
    rcases hidle q t ht with rfl | ⟨hqr, hold⟩
    · cases hp
    · -- the index of another thread is below the erased one
      have hqlt : q < w.threads.length := (List.getElem?_eq_some_iff.mp hold).1
      have hget : w.threads.getD q .idle = t := by
        rw [List.getD_eq_getElem?_getD, hold]
        rfl
      have hbelow : p.2 < ind := hothers q hqlt hqr p (hget ▸ hp)
      show ((w.net.fdlist.eraseIdx ind)[p.2]?).map Fd.fdn = some p.1
      rw [List.getElem?_eraseIdx_of_lt hbelow]
      exact h.held q t hold p hp
  · intro q t ht
    rcases hidle q t ht with rfl | ⟨_, hold⟩
    · trivial
    · exact h.flat q t hold

/-- The end of an `espm_close` that was not called from another one. -/
theorem Placed.closeFinish (h : Placed w) (hent : w.entryAt ind = some fd)
    (hne : fd ≠ w.net.controlfd)
    (hothers : (w.net.fdlist.getD ind (Fd.new 0 0)).connected = false → OthersBelow w r ind) :
    Placed (w.closeFinish r fd ind []) := by
  obtain ⟨f, hf, hfd⟩ := entry_of_entryAt hent
  have htouched := h.touch hent []
  have hf' : (w.touch fd ind []).net.fdlist[ind]? = some f := hf
  unfold Firmware.closeFinish
  dsimp only
  rw [hf']
  dsimp only
  split
  next =>
    apply htouched.setTask
    · intro p hp
      rw [List.mem_singleton.mp hp]
      exact hent
    · exact ⟨hne, rfl⟩
  next hcon =>
    apply htouched.erase hent hne
    apply hothers
    rw [getD_of_getElem? hf]
    exact Bool.eq_false_iff.mpr hcon

/-- **`espm_close`** of a descriptor that may be closed now. -/
theorem Placed.closeEnter (h : Placed w) (hclear : ClosesClear w r fd) :
    Placed (w.closeEnter r fd []) := by
  unfold Firmware.closeEnter
  cases hfound : getind w.net.fdlist fd with
  | none => exact h.idle
  | some ind =>
    dsimp only
    split
    next => exact h.idle
    next hne =>
      have hent := entryAt_getind hfound
      obtain ⟨f, hf, hfd⟩ := entry_of_entryAt hent
      have hget : w.net.fdlist.getD ind (Fd.new 0 0) = f := getD_of_getElem? hf _
      have hothers : f.connected = false → OthersBelow w r ind := by
        intro hcon
        apply hclear.2 ind
        unfold erasesAtOnce
        rw [hfound]
        dsimp only
        rw [hget, hcon, if_neg (by simp [hne])]
        rfl
      rw [hget]
      cases howner : getind w.net.fdlist f.owner with
      | none =>
        apply h.closeFinish hent hne
        rw [hget]
        exact hothers
      | some o =>
        dsimp only
        split
        next hlis =>
          -- a listening descriptor with an open owner
          exact absurd ⟨ind, f, ⟨hfound, hf⟩, hlis, by rw [howner]; rfl⟩ hclear.1
        next =>
          have hreleased := h.update o (g := Fd.release) fun _ => rfl
          have hent' : (w.setFdlist (Socket.update w.net.fdlist o Fd.release)).entryAt ind = some fd := by
            rw [entryAt_eq]
            show ((Socket.update w.net.fdlist o Fd.release).map Fd.fdn)[ind]? = some fd
            rw [update_fdn (g := Fd.release) fun _ => rfl, ← entryAt_eq]
            exact hent
          apply hreleased.closeFinish hent' hne
          have hget' : (Socket.update w.net.fdlist o Fd.release).getD ind (Fd.new 0 0) =
              if o = ind then f.release else f := getD_of_getElem? (update_getElem? hf o Fd.release) _
          intro hcon
          apply hothers
          have hcon' : ((Socket.update w.net.fdlist o Fd.release).getD ind (Fd.new 0 0)).connected = false :=
            hcon
          rw [hget'] at hcon'
          split at hcon'
          · exact hcon'
          · exact hcon'

/-! ## §5 — sending -/

/-- The message of a call goes out, and the call keeps the indices it has. -/
theorem Placed.startWrite (h : Placed w) {k : WriteFor} {room : Nat} {msg : Bytes}
    (hk : ∀ p ∈ k.held, w.entryAt p.2 = some p.1)
    (hflat : Task.Flat w.net.controlfd (.writeSem k msg)) : Placed (w.startWrite r room k msg) := by
  have hsent : ∀ v : Firmware, Placed v → v.net.fdlist = w.net.fdlist →
      v.net.controlfd = w.net.controlfd → ∀ (tx : Bytes) (lastport : Int) (resp left : Nat),
      Placed ({ v with net := { v.net with tx := tx, lastport := lastport } }.setTask r
        (.sending k resp left)) := by
    intro v hv hfd hctl tx lastport resp left
    apply (hv.numbers { v.net with tx := tx, lastport := lastport } rfl rfl).setTask
    · intro p hp
      show (v.net.fdlist[p.2]?).map Fd.fdn = some p.1
      rw [hfd]
      exact hk p hp
    · show Task.Flat v.net.controlfd (.sending k resp left)
      rw [hctl]
      cases k with
      | accept fd ind afd => trivial
      | connect fd ind => trivial
      | close fd ind callers => exact hflat
  unfold Firmware.startWrite
  cases k with
  | accept fd ind afd => exact hsent w h rfl rfl _ _ _ _
  | connect fd ind =>
    exact hsent _ (h.touch (hk (fd, ind) (List.mem_singleton_self _)) []) rfl rfl _ _ _ _
  | close fd ind callers => exact hsent w h rfl rfl _ _ _ _

/-! ## §6 — steps -/

/-- The thread `r` goes on from its wait. -/
theorem Placed.turn (h : Placed w) {room : Nat} (hclear : ErasesClear w (.turn r room)) :
    Placed (w.turn r room) := by
  unfold Firmware.turn
  unfold ErasesClear at hclear
  cases htask : w.threads[r]? with
  | none => exact h
  | some t =>
    have hheld := h.held r t htask
    have hflat := h.flat r t htask
    dsimp only at hclear
    rw [htask] at hclear
    cases t with
    | idle => exact h
    | readSem k =>
      dsimp only
      split
      · exact h
      · exact (h.semaphores true w.onewrite).startRead hheld
    | reading k ind reader got since =>
      dsimp only
      split
      · exact h
      · exact h.read (hheld (k.fd, ind) (List.mem_cons_self ..))
          (fun p hp => hheld p (List.mem_cons_of_mem _ hp)) reader got
    | writeSem k msg =>
      dsimp only
      split
      · exact h
      · exact (h.semaphores w.oneread true).startWrite hheld hflat
    | sending k resp left =>
      dsimp only
      split
      next =>
        have hheld' : ∀ p ∈ (Task.sending k resp (left - room)).held, w.entryAt p.2 = some p.1 := hheld
        apply h.setTask hheld'
        cases k with
        | accept fd ind afd => trivial
        | connect fd ind => trivial
        | close fd ind callers => exact hflat
      next hroom =>
        have hroom' : left ≤ room := Nat.not_lt.mp hroom
        have hposted := h.semaphores w.oneread false
        cases k with
        | connect fd ind => exact hposted.setTask hheld trivial
        | accept fd ind afd =>
          unfold writeDone
          dsimp only
          split
          next hresp =>
            subst hresp
            exact hposted.closeEnter (hclear hroom')
          next => exact (hposted.touch (hheld (fd, ind) (List.mem_singleton_self _)) []).idle
        | close fd ind callers =>
          obtain ⟨hne, rfl⟩ := hflat
          exact hposted.erase (hheld (fd, ind) (List.mem_cons_self ..)) hne (hclear hroom')
    | closing frames => exact hflat.elim

theorem Placed.bind (h : Placed w) (address : Option UInt16) :
    Placed { w with net := (w.net.espmBind fd address).1 } := by
  unfold Sockets.espmBind
  split
  next ind port _ =>
    split
    · exact h
    · exact h.update ind (g := (·.bindTo port)) fun _ => rfl
  next => exact h

theorem Placed.listen (h : Placed w) (backlog : Int) :
    Placed { w with net := (w.net.espmListen fd backlog).1 } := by
  unfold Sockets.espmListen
  split
  next => exact h
  next ind _ =>
    dsimp only
    split
    · exact h
    · split
      · exact h
      · exact h.update ind (g := (·.listenFor backlog)) fun _ => rfl

theorem Placed.socket (h : Placed w) (domain : Int) (type : SockType) (protocol : Int) :
    Placed { w with net := (w.net.espmSocket domain type protocol).1 } := by
  unfold Sockets.espmSocket
  split_ifs
  · exact h
  · exact h
  · exact h
  · cases halloc : alloc w.net.fdlist (-1) with
    | none => exact h
    | some new =>
      obtain ⟨fd, fdlist⟩ := new
      obtain ⟨n, hnext, hnew⟩ := Option.map_eq_some_iff.mp halloc
      cases hnew
      dsimp only
      split
      · exact h.append hnext (by simp [Fd.new])
      · apply h.append hnext
        rw [update_fdn (g := fun f => { f with type := type }) fun _ => rfl]
        simp [Fd.new]

theorem Placed.accept (h : Placed w) : Placed (w.accept r fd) := by
  unfold Firmware.accept
  cases hfound : getind w.net.fdlist fd with
  | none => exact h
  | some ind =>
    dsimp only
    split_ifs
    · exact h
    · exact h
    · exact h
    · exact h
    · apply h.setTask
      · intro p hp
        rw [List.mem_singleton.mp hp]
        exact entryAt_getind hfound
      · trivial

theorem Placed.connect (h : Placed w) (ip : Bytes) (port : UInt16) :
    Placed (w.connect r fd ip port) := by
  unfold Firmware.connect
  cases hfound : getind w.net.fdlist fd with
  | none => exact h
  | some ind =>
    dsimp only
    split_ifs
    · exact h.bind (some port)
    · exact h
    · have hent := entryAt_getind hfound
      apply ((h.touch hent []).update ind (g := fun f => { f with port := port.toNat })
        fun _ => rfl).setTask
      · intro p hp
        rw [List.mem_singleton.mp hp, entryAt_eq]
        show ((Socket.update w.net.fdlist ind fun f => { f with port := port.toNat }).map Fd.fdn)[ind]?
          = some fd
        rw [update_fdn (g := fun f => { f with port := port.toNat }) fun _ => rfl, ← entryAt_eq]
        exact hent
      · trivial

/-- **One step** keeps every index when its erases are above those of the others. -/
theorem Placed.step (h : Placed w) {e : Step} (hclear : ErasesClear w e) : Placed (w.step e) := by
  cases e with
  | rx room c =>
    obtain ⟨hfdn, hctl⟩ := w.net.rx_numbers room c
    exact h.numbers _ hfdn hctl
  | socket domain type protocol => exact h.socket domain type protocol
  | bind fd address => exact h.bind address
  | listen fd backlog => exact h.listen backlog
  | recv r fd len waitall dontwait =>
    show Placed (if w.free r then w.setTask r _ else w)
    split
    · apply h.setTask
      · intro p hp
        cases hp
      · trivial
    · exact h
  | accept r fd =>
    show Placed (if w.free r then w.accept r fd else w)
    split
    · exact h.accept
    · exact h
  | connect r fd ip port =>
    show Placed (if w.free r then w.connect r fd ip port else w)
    split
    · exact h.connect ip port
    · exact h
  | close r fd =>
    show Placed (if w.free r then w.closeEnter r fd [] else w)
    split
    · exact h.closeEnter hclear
    · exact h
  | turn r room => exact h.turn hclear
  | timeout r =>
    unfold Firmware.step
    dsimp only
    split
    · exact h.readFail
    · exact h
  | count p => exact ⟨h.shape, h.held, h.flat, h.own⟩

/-! ## §7 — runs -/

/-- The start of a run: a table in its shape, and no thread in a call. -/
structure AtRest (w : Firmware) : Prop where
  shape : Integrity w.net
  threads : ∀ t ∈ w.threads, t = .idle
  accesses : w.accesses = []

theorem placed_atRest (h : AtRest w) : Placed w where
  shape := h.shape
  held q t ht p hp := by
    rw [h.threads t (List.mem_of_getElem? ht)] at hp
    cases hp
  flat q t ht := by
    rw [h.threads t (List.mem_of_getElem? ht)]
    trivial
  own a ha := by
    rw [h.accesses] at ha
    cases ha

/-- **Reader isolation.** Any number of threads read, accept, connect, open and close, in any
interleaving. As long as no entry is erased at or below an index that another thread holds in a wait,
every call takes characters from, and changes, the entry of its own descriptor only. -/
theorem readers_isolated (h : AtRest w) (es : List Step) (hclear : Throughout ErasesClear step w es) :
    Always OwnEntries step [] w es := by
  refine always_of_throughout (I := fun _ => Placed) ?_ ?_ es [] w (placed_atRest h) hclear
  · intro _ w' h'
    exact h'.own
  · intro _ w' e h' he
    exact h'.step he

/-- Two threads, before any call. -/
def twoReaders : Firmware where
  net := Sockets.boot
  adapter := []
  count := 0
  oneread := false
  onewrite := false
  threads := [.idle, .idle]
  accesses := []

theorem twoReaders_atRest : AtRest twoReaders where
  shape := ⟨⟨by simp [twoReaders, Sockets.boot], by
    simp [twoReaders, Sockets.boot, Fd.new, INT32_MAX]⟩, rfl⟩
  threads := by simp [twoReaders]
  accesses := rfl

/-- Two datagram sockets, bound to the ports 80 and 81. -/
def twoSockets : List Step :=
  [.socket AF_INET .DGRAM 0, .socket AF_INET .DGRAM 0, .bind 2 (some 80), .bind 3 (some 81)]

/-- The first thread waits for a character of descriptor 2 while the second closes descriptor 3. -/
theorem readers_isolated_above :
    Always OwnEntries step [] twoReaders (twoSockets ++
      [Step.recv 0 2 1 true false, .turn 0 100, .close 1 3] ++ (0xff :: str "80:a").map (.rx 100) ++
      [Step.turn 0 100]) :=
  readers_isolated twoReaders_atRest _ (by decide +kernel)

/-- The first thread waits for a character of descriptor 3 while the second closes descriptor 2: it goes
on with an index outside the table. -/
theorem readers_isolated_below :
    ¬ Always OwnEntries step [] twoReaders (twoSockets ++
      [Step.recv 0 3 1 true false, .turn 0 100, .close 1 2] ++ (0xff :: str "81:a").map (.rx 100) ++
      [Step.turn 0 100]) := by
  intro h
  have hlast := h.last
  revert hlast
  decide +kernel

end Firmware

end Espmod.Socket
