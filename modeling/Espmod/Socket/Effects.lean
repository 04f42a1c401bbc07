/-
# Espmod.Socket.Effects — what one call can do to the table

Each call of a firmware thread changes the table in one of a few ways: an entry is appended, an entry
is changed in place, an entry is erased. `Effect` lists them with the guards under which they happen
and the numbers the caller gets or gives back, and `step_effect` says there is nothing else. The
results about runs argue from this list and never unfold a call again.

The list is complete as long as the table has its shape (`Integrity`) and no close is of the one kind
that leaves it: the close of a listening descriptor that was itself accepted from an open one closes
that owner in the middle, and then erases at an index computed before. `closesOwner` names it.
-/
import Espmod.Socket.Calls

namespace Espmod.Socket

open Espmod.Lib Espmod.Lib.Text

/-! ## §1 — the shape of the table -/

/-- **The shape of the table**: numbers strictly increase and the control descriptor is the first
entry. -/
structure Integrity (s : Sockets) : Prop where
  sorted : Sorted s.fdlist
  control : s.fdlist.head?.map Fd.fdn = some s.controlfd

/-- The descriptor `fd` is the entry `f` at index `ind`. -/
structure Sockets.Entry (s : Sockets) (fd : Int) (ind : Nat) (f : Fd) : Prop where
  found : getind s.fdlist fd = some ind
  entry : s.fdlist[ind]? = some f

/-- A call leaves this table and this flag, and nothing else the receiver looks at. -/
structure Becomes (s s' : Sockets) (fdlist : List Fd) (portclosed : Bool) : Prop where
  fdlist : s'.fdlist = fdlist
  portclosed : s'.portclosed = portclosed
  controlfd : s'.controlfd = s.controlfd
  pc : s'.pc = s.pc
  ind : s'.ind = s.ind
  port : s'.port = s.port
  notified : s'.notified = s.notified

theorem Becomes.refl (s : Sockets) : Becomes s s s.fdlist s.portclosed :=
  ⟨rfl, rfl, rfl, rfl, rfl, rfl, rfl⟩

theorem Becomes.update (s : Sockets) (fdlist : List Fd) :
    Becomes s { s with fdlist } fdlist s.portclosed :=
  ⟨rfl, rfl, rfl, rfl, rfl, rfl, rfl⟩

section Lists

variable {fdlist : List Fd} {i : Nat} {f : Fd}

theorem getD_of_getElem? (h : fdlist[i]? = some f) (d : Fd) : fdlist.getD i d = f := by
  rw [List.getD_eq_getElem?_getD, h, Option.getD_some]

/-- Changing the entry just appended. -/
theorem update_append_length (fdlist : List Fd) (x : Fd) (g : Fd → Fd) :
    update (fdlist ++ [x]) fdlist.length g = fdlist ++ [g x] := by
  rw [update, List.modify_eq_take_cons_drop (by simp)]
  simp

/-- Changing an entry before the one just appended. -/
theorem update_append_of_lt (h : i < fdlist.length) (x : Fd) (g : Fd → Fd) :
    update (fdlist ++ [x]) i g = update fdlist i g ++ [x] := by
  have hdrop : (fdlist ++ [x]).drop (i + 1) = fdlist.drop (i + 1) ++ [x] :=
    List.drop_append_of_le_length (by omega)
  rw [update, update, List.modify_eq_take_cons_drop (by simp; omega),
    List.modify_eq_take_cons_drop h, List.take_append_of_le_length (by omega), hdrop,
    List.getElem_append_left h]
  simp

theorem update_getElem? (h : fdlist[i]? = some f) (j : Nat) (g : Fd → Fd) :
    (update fdlist j g)[i]? = some (if j = i then g f else f) := by
  rw [update, List.getElem?_modify, h]
  split <;> simp_all

theorem mem_update {j : Nat} {g : Fd → Fd} (h : f ∈ update fdlist j g) :
    ∃ i f₀, fdlist[i]? = some f₀ ∧ f = if j = i then g f₀ else f₀ := by
  obtain ⟨i, hi⟩ := List.mem_iff_getElem?.mp h
  rw [update, List.getElem?_modify] at hi
  obtain ⟨f₀, hf₀, heq⟩ := Option.map_eq_some_iff.mp hi
  exact ⟨i, f₀, hf₀, heq.symm⟩

theorem update_update (i : Nat) (g g' : Fd → Fd) :
    update (update fdlist i g) i g' = update fdlist i fun f => g' (g f) := by
  rw [update, update, List.modify_modify_eq]
  rfl

/-- The new descriptor of `alloc` is the last entry. -/
theorem getind_append {fd : Int} (h : Sorted fdlist) (hn : nextfdn fdlist = some fd)
    (hf : f.fdn = fd) : getind (fdlist ++ [f]) fd = some fdlist.length :=
  (h.append hn hf).getind_eq_some_iff.mpr ⟨f, by simp, hf⟩

/-- The next number only depends on the numbers there are. -/
theorem nextfdn_congr {fdlist' : List Fd} (h : fdlist'.map Fd.fdn = fdlist.map Fd.fdn) :
    nextfdn fdlist' = nextfdn fdlist := by
  have hlast : fdlist'.getLast?.map Fd.fdn = fdlist.getLast?.map Fd.fdn := by
    rw [← List.getLast?_map, ← List.getLast?_map, h]
  unfold nextfdn
  cases h' : fdlist'.getLast? with
  | none => cases h'' : fdlist.getLast? with
    | none => rfl
    | some f => simp [h', h''] at hlast
  | some f' => cases h'' : fdlist.getLast? with
    | none => simp [h', h''] at hlast
    | some f =>
      have heq : f'.fdn = f.fdn := by simpa [h', h''] using hlast
      simp only [heq]

end Lists

section Shape

variable {s s' : Sockets} {fd : Int} {ind : Nat} {f : Fd}

theorem Sockets.Entry.fdn (h : s.Entry fd ind f) : f.fdn = fd := by
  obtain ⟨g, hg, heq⟩ := getind_some h.found
  rw [h.entry] at hg
  rw [Option.some.inj hg, heq]

theorem Sockets.Entry.of_getind (h : getind s.fdlist fd = some ind) : ∃ f, s.Entry fd ind f := by
  obtain ⟨f, hf, _⟩ := getind_some h
  exact ⟨f, h, hf⟩

theorem Sockets.Entry.lt (h : s.Entry fd ind f) : ind < s.fdlist.length := getind_lt h.found

/-- Only the control descriptor is at index 0. -/
theorem Integrity.pos (h : Integrity s) (hf : s.Entry fd ind f) (hne : fd ≠ s.controlfd) :
    0 < ind := by
  refine Nat.pos_of_ne_zero fun h0 => hne ?_
  subst h0
  have hhead := h.control
  rw [List.head?_eq_getElem?, hf.entry] at hhead
  rw [← hf.fdn]
  exact Option.some.inj hhead

/-- Changes of the entries that keep their numbers keep the shape. -/
theorem Integrity.congr (h : Integrity s) (hfdn : s'.fdlist.map Fd.fdn = s.fdlist.map Fd.fdn)
    (hctl : s'.controlfd = s.controlfd) : Integrity s' := by
  refine ⟨h.sorted.congr hfdn, ?_⟩
  rw [hctl, ← h.control, ← List.head?_map, ← List.head?_map, hfdn]

end Shape

namespace Sockets

variable {s : Sockets} {fd : Int} {ind : Nat} {f : Fd}

/-! ## §2 — closing -/

/-- The descriptor is listening and was accepted from one that is still open. -/
def closesOwner (s : Sockets) (fd : Int) : Prop :=
  ∃ ind f, s.Entry fd ind f ∧ f.islistening = true ∧ (getind s.fdlist f.owner).isSome

theorem closesOwner_iff : s.closesOwner fd ↔ ∃ ind ∈ getind s.fdlist fd, ∃ f ∈ s.fdlist[ind]?,
    f.islistening = true ∧ (getind s.fdlist f.owner).isSome := by
  constructor
  · rintro ⟨ind, f, hf, h⟩
    exact ⟨ind, hf.found, f, hf.entry, h⟩
  · rintro ⟨ind, hind, f, hf, h⟩
    exact ⟨ind, f, ⟨hind, hf⟩, h⟩

instance : Decidable (s.closesOwner fd) := decidable_of_iff _ closesOwner_iff.symm

/-- The entries after an accepted connection has given its place back. -/
def released (fdlist : List Fd) (f : Fd) : List Fd :=
  if f.islistening then fdlist
  else
    match getind fdlist f.owner with
    | none => fdlist
    | some o => update fdlist o Fd.release

theorem released_fdn (fdlist : List Fd) (f : Fd) :
    (released fdlist f).map Fd.fdn = fdlist.map Fd.fdn := by
  unfold released
  split
  · rfl
  · split
    · rfl
    · exact update_fdn (g := Fd.release) (fun _ => rfl) _

/-- The loop does nothing where there is no owner to close. -/
theorem closeOwners_false (close : Sockets → Int → Except Fault (Sockets × List Int))
    (is : List Nat) (closed : List Int) : closeOwners close false is s closed = .ok (s, closed) := by
  induction is with
  | nil => rfl
  | cons i is ih =>
    unfold closeOwners
    split
    · rfl
    · exact ih

/-- Erasing at an index of the table. -/
theorem eraseAt_of_getElem? (room : Nat) (closed : List Int) (fd : Int)
    (hf : s.fdlist[ind]? = some f) :
    ∃ s', s.eraseAt room ind closed fd = .ok (s', closed ++ [fd]) ∧
      Becomes s s' (s.fdlist.eraseIdx ind) true := by
  simp only [eraseAt, hf]
  refine ⟨_, rfl, ?_⟩
  split <;> exact ⟨rfl, rfl, rfl, rfl, rfl, rfl, rfl⟩

/-- **What `espm_close` does** when it does not close an owner: it refuses, or it erases exactly the
entry of its descriptor. -/
theorem espmClose_cases (room depth : Nat) (hok : ¬ s.closesOwner fd) :
    (getind s.fdlist fd = none ∨ fd = s.controlfd) ∧ s.espmClose room depth fd = .ok (s, []) ∨
    ∃ ind f s', s.Entry fd ind f ∧ fd ≠ s.controlfd ∧
      s.espmClose room depth fd = .ok (s', [fd]) ∧
      Becomes s s' ((released s.fdlist f).eraseIdx ind) true := by
  rw [espmClose, closeRec]
  cases hind : getind s.fdlist fd with
  | none => exact .inl ⟨.inl rfl, rfl⟩
  | some ind =>
    by_cases hctl : fd = s.controlfd
    · exact .inl ⟨.inr hctl, by simp only [hctl, if_true]⟩
    · obtain ⟨f, hf⟩ := Entry.of_getind hind
      simp only [hctl, if_false, getD_of_getElem? hf.entry]
      by_cases hlis : f.islistening = true
      · have howner : (getind s.fdlist f.owner).isSome = false := by
          rw [← Bool.not_eq_true]
          exact fun hsome => hok ⟨ind, f, hf, hlis, hsome⟩
        obtain ⟨s', heq, hs'⟩ := eraseAt_of_getElem? room [] fd hf.entry
        refine .inr ⟨ind, f, s', hf, hctl, ?_, ?_⟩
        · simp only [hlis, if_true, howner, closeOwners_false]
          exact heq
        · rwa [released, if_pos hlis]
      · have hrel : released s.fdlist f = match getind s.fdlist f.owner with
            | none => s.fdlist
            | some o => update s.fdlist o Fd.release := by
          rw [released, if_neg hlis]
        rw [if_neg hlis]
        cases howner : getind s.fdlist f.owner with
        | none =>
          simp only [howner] at hrel ⊢
          obtain ⟨s', heq, hs'⟩ := eraseAt_of_getElem? room [] fd hf.entry
          exact .inr ⟨ind, f, s', hf, hctl, heq, by rwa [hrel]⟩
        | some o =>
          simp only [howner] at hrel ⊢
          obtain ⟨s', heq, hs'⟩ := eraseAt_of_getElem?
            (s := { s with fdlist := update s.fdlist o Fd.release }) room [] fd
            (update_getElem? hf.entry o Fd.release)
          refine .inr ⟨ind, f, s', hf, hctl, heq, ?_⟩
          rw [hrel]
          exact ⟨hs'.1, hs'.2, hs'.3, hs'.4, hs'.5, hs'.6, hs'.7⟩

/-! ## §3 — accepting -/

/-- The line is a connect request `espm_accept` can read. -/
def parses (msg : Bytes) : Prop := (scanf fmtAccept (cstr msg)).length = 5

instance (msg : Bytes) : Decidable (parses msg) := by
  unfold parses
  infer_instance

/-- The connection that could not be announced is closed again, and its place is given back. -/
theorem espmClose_accepted (hs : Sorted s.fdlist) (room depth : Nat) {fdlist : List Fd} {owner : Int}
    (hind : getind fdlist owner = some ind) (hlist : s.fdlist = fdlist ++ [(Fd.new fd owner).accepted f])
    (hctl : fd ≠ s.controlfd) :
    ∃ s', s.espmClose room depth fd = .ok (s', [fd]) ∧
      Becomes s s' (update fdlist ind Fd.release) true := by
  have hlast : s.fdlist[fdlist.length]? = some ((Fd.new fd owner).accepted f) := by simp [hlist]
  have hfound : getind s.fdlist fd = some fdlist.length := hs.getind_eq_some_iff.mpr ⟨_, hlast, rfl⟩
  have hentry : s.Entry fd fdlist.length ((Fd.new fd owner).accepted f) := ⟨hfound, hlast⟩
  have hlis : ((Fd.new fd owner).accepted f).islistening = false := by
    simp [Fd.islistening, Fd.accepted]
  have howner : getind s.fdlist owner = some ind := by
    obtain ⟨g, hg, hgo⟩ := getind_some hind
    refine hs.getind_eq_some_iff.mpr ⟨g, ?_, hgo⟩
    rw [hlist, List.getElem?_append_left (getind_lt hind), hg]
  have hok : ¬ s.closesOwner fd := by
    rintro ⟨j, g, hg, hglis, -⟩
    have hj : j = fdlist.length := Option.some.inj (hg.found.symm.trans hfound)
    rw [hj] at hg
    rw [Option.some.inj (hg.entry.symm.trans hlast), hlis] at hglis
    simp at hglis
  rcases s.espmClose_cases room depth hok with
    ⟨hrefuse, -⟩ | ⟨j, g, s', hg, -, heq, hs'⟩
  · rcases hrefuse with hnone | hc
    · simp [hnone] at hfound
    · exact absurd hc hctl
  · have hj : j = fdlist.length := Option.some.inj (hg.found.symm.trans hfound)
    subst hj
    obtain rfl := Option.some.inj (hg.entry.symm.trans hlast)
    refine ⟨s', heq, ?_⟩
    have hrel : (released s.fdlist ((Fd.new fd owner).accepted f)).eraseIdx fdlist.length =
        update fdlist ind Fd.release := by
      have hown : ((Fd.new fd owner).accepted f).owner = owner := rfl
      rw [released, hlis, if_neg (by simp), hown, howner, hlist]
      simp only
      rw [update_append_of_lt (getind_lt hind), List.eraseIdx_append_of_length_le (by simp [update])]
      simp [update]
    rwa [hrel] at hs'

/-- The checks of `espm_accept`: it blocks, it refuses, or it goes on with a line. -/
theorem espmAccept_line (room depth : Nat) (text : Bytes) (p : BitVec 32) (fd : Int) :
    s.espmAccept room depth text p fd = none ∨ s.espmAccept room depth text p fd = some (.ok (s, -1)) ∨
    ∃ ind f msg rest, s.Entry fd ind f ∧ f.islistening = true ∧
      readline false [] f.buffer = some (msg, rest) ∧
      s.espmAccept room depth text p fd = some (s.acceptLine room depth text p fd ind f msg rest) := by
  unfold espmAccept
  cases hind : getind s.fdlist fd with
  | none => exact .inr (.inl rfl)
  | some ind =>
    obtain ⟨f, hf⟩ := Entry.of_getind hind
    simp only [getD_of_getElem? hf.entry]
    split_ifs with htype hlis hclosed hblock
    · exact .inr (.inl rfl)
    · exact .inr (.inl rfl)
    · exact .inr (.inl rfl)
    · exact .inr (.inl rfl)
    · cases hline : readline false [] f.buffer with
      | none => exact .inl rfl
      | some line => exact .inr (.inr ⟨ind, f, line.1, line.2, hf, by simpa using hlis, hline, rfl⟩)

/-- `espm_accept` goes on with the line: its count is no error, and it is a connect request. -/
def serves (p : BitVec 32) (msg : Bytes) : Prop := 0 ≤ lineCount p msg ∧ parses msg

instance (p : BitVec 32) (msg : Bytes) : Decidable (serves p msg) := by
  unfold serves
  infer_instance

/-- **What `espm_accept` does with a line.** One whose count is negative, that is no connect request, or
for which no number is left, is gone; otherwise a descriptor is appended, and taken away again when it
cannot be announced. -/
theorem acceptLine_cases (h : Integrity s) (hf : s.Entry fd ind f) (room depth : Nat)
    (text : Bytes) (p : BitVec 32) (msg rest : Bytes) :
    (¬ serves p msg ∨ nextfdn s.fdlist = none) ∧
        (∃ s', s.acceptLine room depth text p fd ind f msg rest = .ok (s', -1) ∧
          Becomes s s' (update s.fdlist ind (·.consume rest)) s.portclosed) ∨
      serves p msg ∧ ∃ afd, nextfdn s.fdlist = some afd ∧
        ((∃ s', s.acceptLine room depth text p fd ind f msg rest = .ok (s', afd) ∧
            Becomes s s' (update s.fdlist ind (·.consume rest) ++ [(Fd.new afd fd).accepted f])
              s.portclosed) ∨
          ∃ s', s.acceptLine room depth text p fd ind f msg rest = .ok (s', -1) ∧
            Becomes s s' (update s.fdlist ind fun f => (f.consume rest).release) true) := by
  set fdlist := update s.fdlist ind (·.consume rest) with hfdlist
  have hfdn : fdlist.map Fd.fdn = s.fdlist.map Fd.fdn :=
    update_fdn (g := (·.consume rest)) (fun _ => rfl) ind
  have hsorted : Sorted fdlist := h.sorted.congr hfdn
  have hnext : nextfdn fdlist = nextfdn s.fdlist := nextfdn_congr hfdn
  by_cases hserves : serves p msg
  · obtain ⟨hcount, hparse⟩ := hserves
    cases hnew : nextfdn s.fdlist with
    | none =>
      refine .inl ⟨.inr rfl, _, ?_, Becomes.update s fdlist⟩
      rw [acceptLine, if_neg hcount.not_gt, if_neg (by simpa [parses] using hparse), ← hfdlist, alloc, hnext, hnew]
      rfl
    | some afd =>
      refine .inr ⟨⟨hcount, hparse⟩, afd, rfl, ?_⟩
      have hafd := getind_append hsorted (f := Fd.new afd fd) (hnext.trans hnew) rfl
      set out := sendmsg s.lastport room (fun _ => 0) controlport
        (cstr (acceptMsg f.port text)) .ESCAPENONE true with hout
      set s' : Sockets := { s with
        fdlist := fdlist ++ [(Fd.new afd fd).accepted f]
        tx := s.tx ++ out.1
        lastport := nextLastport controlport } with hs'
      have hrun : s.acceptLine room depth text p fd ind f msg rest =
          if out.2 = 0 then (s'.espmClose room depth afd).map fun p => (p.1, -1)
          else .ok (s', afd) := by
        rw [acceptLine, if_neg hcount.not_gt, if_neg (by simpa [parses] using hparse), ← hfdlist, alloc, hnext, hnew]
        simp only [Option.map_some, hafd, update_append_length]
        rfl
      rw [hrun]
      by_cases hresp : out.2 = 0
      · have hs'sorted : Sorted s'.fdlist := hsorted.append (hnext.trans hnew) rfl
        have hctl : afd ≠ s'.controlfd := by
          have hhead := h.control
          rw [Option.map_eq_some_iff] at hhead
          obtain ⟨g, hg, hgc⟩ := hhead
          have := (h.sorted.nextfdn_spec hnew).2.2 g (List.mem_of_head? hg)
          show afd ≠ s.controlfd
          omega
        have hind : getind fdlist fd = some ind :=
          hsorted.getind_eq_some_iff.mpr ⟨_, update_getElem? hf.entry ind _, by
            simpa [Fd.consume] using hf.fdn⟩
        obtain ⟨s'', heq, hs''⟩ := espmClose_accepted hs'sorted room depth hind rfl hctl
        refine .inr ⟨s'', by rw [if_pos hresp, heq]; rfl, ?_⟩
        rw [hfdlist, update_update] at hs''
        exact ⟨hs''.1, hs''.2, hs''.3, hs''.4, hs''.5, hs''.6, hs''.7⟩
      · exact .inl ⟨s', by rw [if_neg hresp], rfl, rfl, rfl, rfl, rfl, rfl, rfl⟩
  · refine .inl ⟨.inl hserves, _, ?_, Becomes.update s fdlist⟩
    rw [acceptLine]
    by_cases hcount : lineCount p msg < 0
    · rw [if_pos hcount]
    · have hparse : ¬ (scanf fmtAccept (cstr msg)).length = 5 := fun h => hserves ⟨not_lt.mp hcount, h⟩
      rw [if_neg hcount, if_pos hparse]

/-! ## §4 — every call -/

/-- The number a call returns, when it is one. -/
def granted (fd : Int) : List Int := if 0 ≤ fd then [fd] else []

/-- The numbers the callers get in a step. -/
def opens (s : Sockets) : Event → List Int
  | .socket domain type protocol => granted (s.espmSocket domain type protocol).2
  | .accept room depth text p fd =>
    match s.espmAccept room depth text p fd with
    | some (.ok (_, afd)) => granted afd
    | _ => []
  | _ => []

/-- The numbers that are closed in a step, nested closes included. -/
def closes (s : Sockets) : Event → List Int
  | .close room depth fd =>
    match s.espmClose room depth fd with
    | .ok (_, closed) => closed
    | .error _ => []
  | _ => []

/-- The step breaks a rule of the language. -/
def faults (s : Sockets) : Event → Bool
  | .accept room depth text p fd =>
    match s.espmAccept room depth text p fd with
    | some (.error _) => true
    | _ => false
  | .close room depth fd =>
    match s.espmClose room depth fd with
    | .error _ => true
    | .ok _ => false
  | _ => false

/-- The step closes no owner. -/
def orderly (s : Sockets) : Event → Prop
  | .close _ _ fd => ¬ s.closesOwner fd
  | _ => True

/-- **What a call does to the table**, with the numbers it opens and the numbers it closes. -/
inductive Effect (s : Sockets) : Event → Sockets → List Int → List Int → Prop
  | idle {e : Event} {s' : Sockets} (hs' : Becomes s s' s.fdlist s.portclosed) : Effect s e s' [] []
  | created {domain protocol : Int} {type : SockType} {fd : Int} {s' : Sockets}
      (htype : type = .STREAM ∨ type = .DGRAM) (hnew : nextfdn s.fdlist = some fd)
      (hs' : Becomes s s' (s.fdlist ++ [{ Fd.new fd (-1) with type }]) s.portclosed) :
      Effect s (.socket domain type protocol) s' [fd] []
  | bound {fd : Int} {port : UInt16} {ind : Nat} {f : Fd} {s' : Sockets} (hf : s.Entry fd ind f)
      (hfree : f.bound = false)
      (hs' : Becomes s s' (update s.fdlist ind (·.bindTo port)) s.portclosed) :
      Effect s (.bind fd (some port)) s' [] []
  | listening {fd backlog : Int} {ind : Nat} {f : Fd} {s' : Sockets} (hf : s.Entry fd ind f)
      (hbound : f.bound = true) (htype : f.type = .STREAM ∨ f.type = .SEQPACKET)
      (hs' : Becomes s s' (update s.fdlist ind (·.listenFor backlog)) s.portclosed) :
      Effect s (.listen fd backlog) s' [] []
  | discarded {room depth : Nat} {text : Bytes} {p : BitVec 32} {fd : Int} {ind : Nat} {f : Fd} {msg rest : Bytes}
      {s' : Sockets} (hf : s.Entry fd ind f) (hlis : f.islistening = true)
      (hline : readline false [] f.buffer = some (msg, rest))
      (hfail : ¬ serves p msg ∨ nextfdn s.fdlist = none)
      (hs' : Becomes s s' (update s.fdlist ind (·.consume rest)) s.portclosed) :
      Effect s (.accept room depth text p fd) s' [] []
  | accepted {room depth : Nat} {text : Bytes} {p : BitVec 32} {fd afd : Int} {ind : Nat} {f : Fd}
      {msg rest : Bytes} {s' : Sockets} (hf : s.Entry fd ind f) (hlis : f.islistening = true)
      (hline : readline false [] f.buffer = some (msg, rest)) (hserves : serves p msg)
      (hnew : nextfdn s.fdlist = some afd)
      (hs' : Becomes s s' (update s.fdlist ind (·.consume rest) ++ [(Fd.new afd fd).accepted f])
        s.portclosed) :
      Effect s (.accept room depth text p fd) s' [afd] []
  | aborted {room depth : Nat} {text : Bytes} {p : BitVec 32} {fd afd : Int} {ind : Nat} {f : Fd}
      {msg rest : Bytes} {s' : Sockets} (hf : s.Entry fd ind f) (hlis : f.islistening = true)
      (hline : readline false [] f.buffer = some (msg, rest)) (hserves : serves p msg)
      (hnew : nextfdn s.fdlist = some afd)
      (hs' : Becomes s s' (update s.fdlist ind fun f => (f.consume rest).release) true) :
      Effect s (.accept room depth text p fd) s' [] []
  | closed {room depth : Nat} {fd : Int} {ind : Nat} {f : Fd} {s' : Sockets} (hf : s.Entry fd ind f)
      (hctl : fd ≠ s.controlfd)
      (hs' : Becomes s s' ((released s.fdlist f).eraseIdx ind) true) :
      Effect s (.close room depth fd) s' [] [fd]
  | taken {fd : Int} {n ind : Nat} {f : Fd} {s' : Sockets} (hf : s.Entry fd ind f)
      (hs' : Becomes s s' (update s.fdlist ind fun f => f.consume (f.buffer.drop n)) s.portclosed) :
      Effect s (.take fd n) s' [] []

instance (e : Event) : Decidable (s.orderly e) := by
  cases e <;> unfold orderly <;> infer_instance

theorem granted_of_pos (h : 0 < fd) : granted fd = [fd] := if_pos h.le

theorem socket_effect (h : Integrity s) (domain : Int) (type : SockType) (protocol : Int) :
    Effect s (.socket domain type protocol) (s.step (.socket domain type protocol))
      (s.opens (.socket domain type protocol)) [] := by
  have hrun : s.espmSocket domain type protocol = (s, -1) ∨
      (type = .STREAM ∨ type = .DGRAM) ∧ ∃ fd, nextfdn s.fdlist = some fd ∧
        s.espmSocket domain type protocol =
          ({ s with fdlist := s.fdlist ++ [{ Fd.new fd (-1) with type }] }, fd) := by
    unfold espmSocket
    split_ifs with hdomain htype hprotocol
    · exact .inl rfl
    · exact .inl rfl
    · exact .inl rfl
    · have htype' : type = .STREAM ∨ type = .DGRAM := by tauto
      cases hnew : nextfdn s.fdlist with
      | none => exact .inl (by simp only [alloc, hnew, Option.map_none])
      | some fd =>
        refine .inr ⟨htype', fd, rfl, ?_⟩
        simp only [alloc, hnew, Option.map_some, getind_append h.sorted (f := Fd.new fd (-1)) hnew rfl,
          update_append_length]
  simp only [step, opens]
  rcases hrun with heq | ⟨htype, fd, hnew, heq⟩
  · rw [heq]
    exact .idle (Becomes.refl s)
  · rw [heq, granted_of_pos (h.sorted.nextfdn_spec hnew).1]
    exact .created htype hnew (Becomes.update s _)

theorem accept_effect (h : Integrity s) (room depth : Nat) (text : Bytes) (p : BitVec 32) (fd : Int) :
    Effect s (.accept room depth text p fd) (s.step (.accept room depth text p fd))
      (s.opens (.accept room depth text p fd)) [] ∧ s.faults (.accept room depth text p fd) = false := by
  simp only [step, opens, faults]
  rcases s.espmAccept_line room depth text p fd with heq | heq |
    ⟨ind, f, msg, rest, hf, hlis, hline, heq⟩
  · rw [heq]
    exact ⟨.idle (Becomes.refl s), rfl⟩
  · rw [heq]
    exact ⟨.idle (Becomes.refl s), rfl⟩
  · rw [heq]
    rcases acceptLine_cases h hf room depth text p msg rest with ⟨hfail, s', hs, hb⟩ |
      ⟨hserves, afd, hnew, ⟨s', hs, hb⟩ | ⟨s', hs, hb⟩⟩
    · rw [hs]
      exact ⟨.discarded hf hlis hline hfail hb, rfl⟩
    · rw [hs]
      simp only [granted_of_pos (h.sorted.nextfdn_spec hnew).1]
      exact ⟨.accepted hf hlis hline hserves hnew hb, trivial⟩
    · rw [hs]
      exact ⟨.aborted hf hlis hline hserves hnew hb, rfl⟩

/-- **Every call has one of these effects.** -/
theorem step_effect (h : Integrity s) {e : Event} (hcall : e.isCall) (he : s.orderly e) :
    Effect s e (s.step e) (s.opens e) (s.closes e) ∧ s.faults e = false := by
  cases e with
  | rx room c => exact hcall.elim
  | socket domain type protocol => exact ⟨socket_effect h domain type protocol, rfl⟩
  | bind fd address =>
    refine ⟨?_, rfl⟩
    simp only [step, opens, closes, espmBind]
    cases hind : getind s.fdlist fd with
    | none => exact .idle (Becomes.refl s)
    | some ind =>
      cases address with
      | none => exact .idle (Becomes.refl s)
      | some port =>
        obtain ⟨f, hf⟩ := Entry.of_getind hind
        simp only [getD_of_getElem? hf.entry]
        split_ifs with hbound
        · exact .idle (Becomes.refl s)
        · exact .bound hf (by simpa using hbound) (Becomes.update s _)
  | listen fd backlog =>
    refine ⟨?_, rfl⟩
    simp only [step, opens, closes, espmListen]
    cases hind : getind s.fdlist fd with
    | none => exact .idle (Becomes.refl s)
    | some ind =>
      obtain ⟨f, hf⟩ := Entry.of_getind hind
      simp only [getD_of_getElem? hf.entry]
      split_ifs with hbound htype
      · exact .idle (Becomes.refl s)
      · exact .idle (Becomes.refl s)
      · exact .listening hf (by simpa using hbound) (by tauto) (Becomes.update s _)
  | accept room depth text p fd => exact accept_effect h room depth text p fd
  | close room depth fd =>
    simp only [step, opens, closes, faults]
    rcases s.espmClose_cases room depth he with ⟨-, heq⟩ | ⟨ind, f, s', hf, hctl, heq, hb⟩
    · rw [heq]
      exact ⟨.idle (Becomes.refl s), rfl⟩
    · rw [heq]
      exact ⟨.closed hf hctl hb, rfl⟩
  | take fd n =>
    refine ⟨?_, rfl⟩
    simp only [step, opens, closes]
    cases hind : getind s.fdlist fd with
    | none => exact .idle (Becomes.refl s)
    | some ind =>
      obtain ⟨f, hf⟩ := Entry.of_getind hind
      exact .taken hf (Becomes.update s _)

/-- A call leaves the receiver where it is. -/
theorem Effect.frame {e : Event} {s' : Sockets} {o c : List Int} (h : s.Effect e s' o c) :
    s'.pc = s.pc ∧ s'.ind = s.ind ∧ s'.port = s.port ∧ s'.notified = s.notified := by
  cases h
  all_goals
    rename_i hs'
    exact ⟨hs'.pc, hs'.ind, hs'.port, hs'.notified⟩

/-! ## §5 — requests -/

/-- The text of a request, and the port in it. -/
def requests (msg : Bytes) (port : Int) : Prop :=
  ∃ a₁ a₂ a₃ a₄, scanf fmtRequest (cstr msg) = [a₁, a₂, a₃, a₄, port]

theorem requests_unique {msg : Bytes} {p q : Int} (hp : requests msg p) (hq : requests msg q) :
    p = q := by
  obtain ⟨_, _, _, _, h₁⟩ := hp
  obtain ⟨_, _, _, _, h₂⟩ := hq
  rw [h₁] at h₂
  simp only [List.cons.injEq] at h₂
  exact h₂.2.2.2.2.1

/-- **What `takerequest` does with the text of a request.** -/
inductive Answered (s : Sockets) (room : Nat) (msg : Bytes) : Bool → Sockets → Prop
  | null (hmsg : ∀ port, ¬ requests msg port) : Answered s room msg true { s with pc := .crashed }
  | unread (hmsg : ∀ port, ¬ requests msg port) :
      Answered s room msg false { s with pc := .top, ind := none }
  | nobody {port : Int} (hmsg : requests msg port) (hnone : receiver s.fdlist false port = none) :
      Answered s room msg false { s with pc := .top }
  | datagram {port : Int} {it : Nat} {f : Fd} (hmsg : requests msg port)
      (hrec : receiver s.fdlist false port = some it) (hf : s.fdlist[it]? = some f)
      (hlis : f.islistening = true) (hport : f.port = port) (htype : f.type = .SEQPACKET) :
      Answered s room msg false { s with pc := .top, ind := some it }
  | rejected {port : Int} (hmsg : requests msg port) :
      Answered s room msg true ({ s with pc := .top }.sendControl room (rejection port msg))
  | queued {port : Int} {it : Nat} {f : Fd} (hmsg : requests msg port)
      (hrec : receiver s.fdlist true port = some it) (hf : s.fdlist[it]? = some f)
      (hlis : f.islistening = true) (hport : f.port = port) (htype : f.type = .STREAM)
      (hplace : f.connections ≠ f.maxconnect) :
      Answered s room msg true
        { s with pc := .top, fdlist := update s.fdlist it (·.queue msg) }

theorem receiver_some {fdlist : List Fd} {connect : Bool} {port : Int} {it : Nat}
    (h : receiver fdlist connect port = some it) :
    ∃ f, fdlist[it]? = some f ∧ f.islistening = true ∧ f.port = port ∧
      f.type = if connect then .STREAM else .SEQPACKET := by
  obtain ⟨hit, heq, _⟩ := List.findIdx?_eq_some_iff_getElem.mp h
  refine ⟨fdlist[it], List.getElem?_eq_getElem hit, ?_⟩
  simp only [Bool.and_eq_true, Bool.or_eq_true, beq_iff_eq, bne_iff_ne, ne_eq,
    Bool.not_eq_true'] at heq
  obtain ⟨⟨hlis, hport⟩, htype⟩ := heq
  refine ⟨hlis, hport, ?_⟩
  rcases htype with ⟨rfl, htype⟩ | ⟨rfl, htype⟩
  · exact htype
  · -- a listening entry that is no stream
    have hlis' := hlis
    simp only [Fd.islistening, Bool.and_eq_true, Bool.or_eq_true, beq_iff_eq] at hlis'
    simpa [htype] using hlis'.1.1

theorem takerequest_answered (room : Nat) (connect : Bool) (msg : Bytes) :
    Answered s room msg connect (s.takerequest room connect msg) := by
  unfold takerequest
  split
  · rename_i a₁ a₂ a₃ a₄ port hscan
    have hmsg : requests msg port := ⟨a₁, a₂, a₃, a₄, hscan⟩
    split
    · rename_i hrec
      cases connect with
      | true => exact .rejected hmsg
      | false => exact .nobody hmsg hrec
    · rename_i it hrec
      obtain ⟨f, hf, hlis, hport, htype⟩ := receiver_some hrec
      simp only [getD_of_getElem? hf]
      cases connect with
      | true =>
        rw [if_neg (by simpa using htype)]
        split_ifs with hplace
        · exact .rejected hmsg
        · exact .queued hmsg hrec hf hlis hport htype hplace
      | false =>
        have htype' : f.type = .SEQPACKET := htype
        rw [if_pos (by simp [htype'])]
        exact .datagram hmsg hrec hf hlis hport htype'
  · rename_i hscan
    have hmsg : ∀ port, ¬ requests msg port := by
      rintro port ⟨a₁, a₂, a₃, a₄, heq⟩
      exact hscan a₁ a₂ a₃ a₄ port heq
    cases connect with
    | true => exact .null hmsg
    | false => exact .unread hmsg

/-! ## §6 — characters -/

/-- What a character does to the table: it fills one entry, or none. -/
structure Filled (s s' : Sockets) : Prop where
  controlfd : s'.controlfd = s.controlfd
  fdlist : ∃ i bs n, s'.fdlist = update s.fdlist i (·.fill bs n)

theorem Filled.same {s' : Sockets} (hctl : s'.controlfd = s.controlfd)
    (hf : s'.fdlist = s.fdlist) : Filled s s' := by
  have hid : (fun f : Fd => f.fill [] 0) = id := by
    funext f
    simp [Fd.fill]
  exact ⟨hctl, 0, [], 0, by rw [hf, hid, update, List.modify_id]⟩

theorem Filled.pushAt {s' : Sockets} (hctl : s'.controlfd = s.controlfd)
    (hf : s'.fdlist = s.fdlist) (ind : Nat) (bs : Bytes) : Filled s (s'.pushAt ind bs) := by
  unfold Sockets.pushAt
  split
  · refine ⟨hctl, ind, bs, 0, ?_⟩
    have hpush : (fun f : Fd => f.push bs) = fun f => f.fill bs 0 := by
      funext f
      simp [Fd.push, Fd.fill]
    show update s'.fdlist ind (·.push bs) = _
    rw [hf, hpush]
  · exact .same hctl hf

theorem takerequest_filled (room : Nat) (connect : Bool) (msg : Bytes) :
    Filled s (s.takerequest room connect msg) := by
  have hans := s.takerequest_answered room connect msg
  generalize s.takerequest room connect msg = s' at hans
  cases hans with
  | null _ => exact .same rfl rfl
  | unread _ => exact .same rfl rfl
  | nobody _ _ => exact .same rfl rfl
  | datagram _ _ _ _ _ _ => exact .same rfl rfl
  | rejected _ => exact .same rfl rfl
  | @queued _ it _ _ _ _ _ _ _ _ => exact ⟨rfl, it, [0xff, chr 'c', chr ' '] ++ msg, 1, rfl⟩

theorem data_filled (c : UInt8) : Filled s (s.data c) := by
  have hctl : ({ s with pc := .top } : Sockets).refresh.controlfd = s.controlfd := by
    unfold refresh
    split <;> rfl
  have hf : ({ s with pc := .top } : Sockets).refresh.fdlist = s.fdlist := by
    unfold refresh
    split <;> rfl
  unfold data
  dsimp only
  split
  · exact .same hctl hf
  · exact .pushAt (by exact hctl) (by exact hf) _ _

/-- **A character fills one entry, or none.** -/
theorem rx_filled (room : Nat) (c : UInt8) : Filled s (s.rx room c) := by
  unfold rx
  split
  · split
    · exact .same rfl rfl
    · exact data_filled c
  · split
    · exact data_filled c
    · unfold escape
      split_ifs
      · exact .same rfl rfl
      · exact .same rfl rfl
      · exact .same rfl rfl
      · exact .pushAt (by rfl) (by rfl) _ _
  · split
    · exact .same rfl rfl
    · unfold terminator
      split
      · exact .same rfl rfl
      · split_ifs
        · exact .same rfl rfl
        · exact .pushAt (by rfl) (by rfl) _ _
        · exact .same rfl rfl
  · split <;> exact .same rfl rfl
  · split
    · exact .same rfl rfl
    · split <;> exact .pushAt (by rfl) (by rfl) _ _
  · split <;> exact .pushAt (by rfl) (by rfl) _ _
  · split_ifs
    · exact .same rfl rfl
    · exact takerequest_filled room _ _
    · exact .same rfl rfl
  · exact .same rfl rfl

/-- The fields a filled entry keeps are kept along the table. -/
theorem Filled.map {α : Type} {s' : Sockets} (h : Filled s s') (p : Fd → α)
    (hp : ∀ f bs n, p (f.fill bs n) = p f) : s'.fdlist.map p = s.fdlist.map p := by
  obtain ⟨i, bs, n, heq⟩ := h.fdlist
  rw [heq, update_map p (g := (·.fill bs n)) (fun f => hp f bs n) i]

theorem rx_numbers (room : Nat) (c : UInt8) :
    (s.rx room c).fdlist.map Fd.fdn = s.fdlist.map Fd.fdn ∧
      (s.rx room c).controlfd = s.controlfd :=
  ⟨(rx_filled room c).map Fd.fdn fun _ _ _ => rfl, (rx_filled room c).controlfd⟩

end Sockets

end Espmod.Socket
