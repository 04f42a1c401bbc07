/-
# Espmod.Socket.Backlog — the connection counter of a listening descriptor

A listening descriptor counts a connection when the receiver queues its request and gives the place
back when the accepted descriptor is closed. `Ledger` is the balance behind it: every entry counts
its accepted connections and the request lines in its buffer, within its limit, and every accepted
descriptor has its owner in the table.

Three kinds of step lose the balance, and a run without them never does: the close of a descriptor
that still has accepted connections (or of an accepted one that listens, which goes for its owner),
an `espm_accept` that takes a line and returns no descriptor, and an `espm_listen` with a limit below
the count.
-/
import Espmod.Socket.Integrity

namespace Espmod.Socket

open Espmod.Lib Espmod.Lib.Text Sockets

/-! ## §1 — the lines in a buffer -/

/-- The lines `__espm_readline` will find in a buffer; `crseen` is its flag. -/
def lines : Bool → Bytes → Nat
  | _, [] => 0
  | crseen, c :: cs =>
    if c = chr '\n' ∧ crseen then lines false cs + 1 else lines (c = chr '\r') cs

/-- Reading a line takes exactly one away. -/
theorem lines_readline {bs : Bytes} :
    ∀ {crseen : Bool} {acc msg rest : Bytes}, readline crseen acc bs = some (msg, rest) →
      lines crseen bs = lines false rest + 1 := by
  induction bs with
  | nil => intro crseen acc msg rest h; simp [readline] at h
  | cons c cs ih =>
    intro crseen acc msg rest h
    rw [readline] at h
    rw [lines]
    split at h
    · rename_i hend
      obtain ⟨-, rfl⟩ := Prod.mk.inj (Option.some.inj h)
      rw [if_pos hend]
    · rename_i hend
      rw [if_neg hend]
      dsimp only at h
      split at h
      · rename_i hcr
        simpa [hcr] using ih h
      · rename_i hcr
        simpa [hcr] using ih h

/-- What is appended behind a `0xff` starts on its own. -/
theorem lines_append (bs q : Bytes) :
    ∀ crseen : Bool, lines crseen (bs ++ 0xff :: q) = lines crseen bs + lines false q := by
  have hn : (0xff : UInt8) ≠ chr '\n' := by decide
  have hr : (0xff : UInt8) ≠ chr '\r' := by decide
  induction bs with
  | nil => intro crseen; simp [lines, hn, hr]
  | cons c cs ih =>
    intro crseen
    rw [List.cons_append, lines, lines]
    split
    · rw [ih]
      omega
    · exact ih _

/-- A text that ends in CR LF and has no other LF is one line. -/
theorem lines_terminated {msg : Bytes} :
    ∀ crseen : Bool, chr '\n' ∉ msg → msg.getLast? = some (chr '\r') →
      lines crseen (msg ++ [chr '\n']) = 1 := by
  induction msg with
  | nil => intro crseen _ h; simp at h
  | cons c cs ih =>
    intro crseen hlf hlast
    have hc : c ≠ chr '\n' := fun h => hlf (by simp [h])
    rw [List.cons_append, lines, if_neg (fun h => hc h.1)]
    cases cs with
    | nil =>
      obtain rfl : c = chr '\r' := by simpa using hlast
      simp [lines]
    | cons c' cs' =>
      refine ih _ (fun h => hlf (List.mem_cons_of_mem _ h)) ?_
      simpa using hlast

/-- A queued request is one more line. -/
theorem lines_queue {f : Fd} {msg : Bytes} (hlf : chr '\n' ∉ msg)
    (hlast : msg.getLast? = some (chr '\r')) :
    lines false (f.queue (msg ++ [chr '\n'])).buffer = lines false f.buffer + 1 := by
  have hone : lines false (chr 'c' :: chr ' ' :: (msg ++ [chr '\n'])) = 1 := by
    have h1 : chr 'c' ≠ chr '\r' := by decide
    have h2 : chr ' ' ≠ chr '\r' := by decide
    simpa [lines, h1, h2] using lines_terminated false hlf hlast
  show lines false (f.buffer ++ 0xff :: (chr 'c' :: chr ' ' :: (msg ++ [chr '\n']))) = _
  rw [lines_append, hone]

/-! ## §2 — the balance of a table -/

/-- The open descriptors accepted from a number. -/
def children (fdlist : List Fd) (fd : Int) : Nat := (fdlist.map Fd.owner).count fd

/-- **The balance.** -/
structure Ledger (fdlist : List Fd) : Prop where
  balanced : ∀ f ∈ fdlist, f.connections = children fdlist f.fdn + lines false f.buffer
  limited : ∀ f ∈ fdlist, f.islistening = true → f.connections ≤ f.maxconnect
  owned : ∀ f ∈ fdlist, f.owner = -1 ∨ f.owner ∈ fdlist.map Fd.fdn

section Ledger

variable {fdlist : List Fd} {f x : Fd} {ind : Nat} {g : Fd → Fd}

/-- Entries changed in place: the counter moves with the lines, within the limit. -/
theorem Ledger.change (h : Ledger fdlist) (hfdn : ∀ f, (g f).fdn = f.fdn)
    (howner : ∀ f, (g f).owner = f.owner)
    (hbal : ∀ f, fdlist[ind]? = some f →
      (g f).connections + lines false f.buffer = f.connections + lines false (g f).buffer)
    (hlim : ∀ f, fdlist[ind]? = some f → (g f).islistening = true →
      (g f).connections ≤ (g f).maxconnect) :
    Ledger (update fdlist ind g) := by
  have hchildren : ∀ fd, children (update fdlist ind g) fd = children fdlist fd := by
    intro fd
    rw [children, update_map Fd.owner howner, children]
  refine ⟨fun f' hf' => ?_, fun f' hf' hlis => ?_, fun f' hf' => ?_⟩
  · obtain ⟨i, f, hf, rfl⟩ := mem_update hf'
    have hold := h.balanced f (List.mem_of_getElem? hf)
    rw [hchildren]
    split
    · rename_i hi
      subst hi
      have := hbal f hf
      rw [hfdn]
      omega
    · exact hold
  · obtain ⟨i, f, hf, rfl⟩ := mem_update hf'
    split at hlis
    · rename_i hi
      subst hi
      simpa using hlim f hf hlis
    · rename_i hi
      simpa [hi] using h.limited f (List.mem_of_getElem? hf) hlis
  · obtain ⟨i, f, hf, rfl⟩ := mem_update hf'
    rw [update_fdn hfdn]
    have hold := h.owned f (List.mem_of_getElem? hf)
    split
    · rwa [howner]
    · exact hold

/-- A new entry: one place at its owner is taken by it, and nobody has it for an owner yet. -/
theorem ledger_append
    (hbal : ∀ f ∈ fdlist, f.connections =
      children fdlist f.fdn + (if x.owner = f.fdn then 1 else 0) + lines false f.buffer)
    (hlim : ∀ f ∈ fdlist, f.islistening = true → f.connections ≤ f.maxconnect)
    (hown : ∀ f ∈ fdlist, f.owner = -1 ∨ f.owner ∈ fdlist.map Fd.fdn)
    (hnew : 0 < x.fdn ∧ ∀ f ∈ fdlist, f.fdn < x.fdn)
    (hx : x.connections = 0 ∧ x.buffer = [] ∧ x.islistening = false)
    (hxown : x.owner = -1 ∨ x.owner ∈ fdlist.map Fd.fdn) : Ledger (fdlist ++ [x]) := by
  have hchildren : ∀ fd, children (fdlist ++ [x]) fd =
      children fdlist fd + if x.owner = fd then 1 else 0 := by
    intro fd
    simp [children, List.count_append, List.count_singleton]
  -- the numbers of owners lie below the new number
  have hbelow : ∀ o : Int, o = -1 ∨ o ∈ fdlist.map Fd.fdn → o < x.fdn := by
    rintro o (rfl | ho)
    · omega
    · obtain ⟨f, hf, rfl⟩ := List.mem_map.mp ho
      exact hnew.2 f hf
  refine ⟨fun f hf => ?_, fun f hf hlis => ?_, fun f hf => ?_⟩
  · rw [hchildren]
    rcases List.mem_append.mp hf with hf | hf
    · have := hbal f hf
      push_cast
      omega
    · obtain rfl : f = x := by simpa using hf
      have hnone : children fdlist f.fdn = 0 := by
        refine List.count_eq_zero.mpr fun hmem => ?_
        obtain ⟨f', hf', heq⟩ := List.mem_map.mp hmem
        have := hbelow f'.owner (hown f' hf')
        omega
      have hself : f.owner ≠ f.fdn := (hbelow f.owner hxown).ne
      simp [hnone, hself, hx.1, hx.2.1, lines]
  · rcases List.mem_append.mp hf with hf | hf
    · exact hlim f hf hlis
    · obtain rfl : f = x := by simpa using hf
      simp [hx.2.2] at hlis
  · have hmono : ∀ o : Int, o = -1 ∨ o ∈ fdlist.map Fd.fdn →
        o = -1 ∨ o ∈ (fdlist ++ [x]).map Fd.fdn := by
      rintro o (ho | ho)
      · exact .inl ho
      · exact .inr (by rw [List.map_append]; exact List.mem_append_left _ ho)
    rcases List.mem_append.mp hf with hf | hf
    · exact hmono _ (hown f hf)
    · obtain rfl : f = x := by simpa using hf
      exact hmono _ hxown

/-- Giving the place back, entry by entry. -/
theorem released_getElem? (hs : Sorted fdlist) {i : Nat} {f' : Fd}
    (h : (Sockets.released fdlist f)[i]? = some f') :
    ∃ f₀, fdlist[i]? = some f₀ ∧
      f' = if f.islistening = false ∧ f.owner = f₀.fdn then f₀.release else f₀ := by
  unfold Sockets.released at h
  split at h
  · rename_i hlis
    exact ⟨f', h, by simp [hlis]⟩
  · rename_i hlis
    split at h
    · rename_i howner
      refine ⟨f', h, ?_⟩
      rw [if_neg]
      rintro ⟨-, heq⟩
      have hsome := hs.getind_isSome_iff.mpr ⟨f', List.mem_of_getElem? h, heq.symm⟩
      simp [howner] at hsome
    · rename_i o howner
      rw [update, List.getElem?_modify] at h
      obtain ⟨f₀, hf₀, rfl⟩ := Option.map_eq_some_iff.mp h
      refine ⟨f₀, hf₀, ?_⟩
      obtain ⟨fo, hfo, heq⟩ := getind_some howner
      have hiff : o = i ↔ f.owner = f₀.fdn := by
        constructor
        · rintro rfl
          rw [← heq, Option.some.inj (hfo.symm.trans hf₀)]
        · intro ho
          exact hs.index_inj hfo hf₀ (heq.trans ho)
      simp [hlis, hiff]

theorem released_owner (fdlist : List Fd) (f : Fd) :
    (Sockets.released fdlist f).map Fd.owner = fdlist.map Fd.owner := by
  unfold Sockets.released
  split
  · rfl
  · split
    · rfl
    · exact update_map Fd.owner (g := Fd.release) (fun _ => rfl) _

/-- The entries that stay when one is erased, and what they were. -/
theorem mem_erased (hs : Sorted fdlist) (hf : fdlist[ind]? = some f) {f' : Fd}
    (hf' : f' ∈ (Sockets.released fdlist f).eraseIdx ind) :
    ∃ f₀ ∈ fdlist, f₀.fdn ≠ f.fdn ∧
      f' = if f.islistening = false ∧ f.owner = f₀.fdn then f₀.release else f₀ := by
  obtain ⟨i, hi, hget⟩ := List.mem_eraseIdx_iff_getElem?.mp hf'
  obtain ⟨f₀, hf₀, heq⟩ := released_getElem? hs hget
  exact ⟨f₀, List.mem_of_getElem? hf₀, fun hfdn => hi (hs.index_inj hf₀ hf hfdn), heq⟩

/-- The owner of the erased entry has one child less. -/
theorem children_erased (hf : fdlist[ind]? = some f) (fd : Int) :
    children fdlist fd =
      children ((Sockets.released fdlist f).eraseIdx ind) fd + if f.owner = fd then 1 else 0 := by
  have hlt : ind < (fdlist.map Fd.owner).length := by
    simpa using (List.getElem?_eq_some_iff.mp hf).1
  have hget : (fdlist.map Fd.owner)[ind] = f.owner := by
    rw [← Option.some.injEq, ← List.getElem?_eq_getElem, List.getElem?_map, hf, Option.map_some]
  have hperm := List.getElem_cons_eraseIdx_perm hlt
  rw [children, children, ← List.eraseIdx_map, released_owner, ← hperm.count_eq, hget,
    List.count_cons]
  simp

/-- Every number but that of the erased entry is still there. -/
theorem fdn_erased (hs : Sorted fdlist) (hf : fdlist[ind]? = some f) {o : Int}
    (ho : o ∈ fdlist.map Fd.fdn) (hne : o ≠ f.fdn) :
    o ∈ ((Sockets.released fdlist f).eraseIdx ind).map Fd.fdn := by
  have hget : ((Sockets.released fdlist f).map Fd.fdn)[ind]? = some f.fdn := by
    rw [Sockets.released_fdn, List.getElem?_map, hf, Option.map_some]
  rw [List.getElem?_map] at hget
  obtain ⟨f', hf', heq⟩ := Option.map_eq_some_iff.mp hget
  have hkey : (∃ g ∈ (Sockets.released fdlist f).eraseIdx ind, g.fdn = o) ↔
      (∃ g ∈ Sockets.released fdlist f, g.fdn = o) ∧ o ≠ f'.fdn :=
    (hs.congr (Sockets.released_fdn fdlist f)).mem_eraseIdx hf'
  rw [List.mem_map, hkey, ← List.mem_map, Sockets.released_fdn, heq]
  exact ⟨ho, hne⟩

/-- **A close keeps the balance** when the closed entry has no accepted connections, and does not
listen with an owner. -/
theorem Ledger.erase (h : Ledger fdlist) (hs : Sorted fdlist) (hf : fdlist[ind]? = some f)
    (hchild : ∀ g ∈ fdlist, g.owner ≠ f.fdn) (hlis : f.islistening = true → f.owner = -1) :
    Ledger ((Sockets.released fdlist f).eraseIdx ind) := by
  refine ⟨fun f' hf' => ?_, fun f' hf' hlis' => ?_, fun f' hf' => ?_⟩
  · obtain ⟨f₀, hf₀, hne, rfl⟩ := mem_erased hs hf hf'
    have hold := h.balanced f₀ hf₀
    have hcount := children_erased hf f₀.fdn
    have hpos := (hs.bounds f₀ hf₀).1
    split
    · rename_i ho
      rw [if_pos ho.2] at hcount
      show f₀.connections - 1 = children _ f₀.fdn + lines false f₀.buffer
      omega
    · rename_i ho
      have hother : f.owner ≠ f₀.fdn := by
        intro heq
        cases hl : f.islistening with
        | false => exact ho ⟨hl, heq⟩
        | true => have := hlis hl; omega
      rw [if_neg hother] at hcount
      omega
  · obtain ⟨f₀, hf₀, hne, rfl⟩ := mem_erased hs hf hf'
    have hold := h.limited f₀ hf₀
    split at hlis'
    · rename_i ho
      have : f₀.connections ≤ f₀.maxconnect := hold hlis'
      rw [if_pos ho]
      show f₀.connections - 1 ≤ f₀.maxconnect
      omega
    · rename_i ho
      rw [if_neg ho]
      exact hold hlis'
  · obtain ⟨f₀, hf₀, hne, rfl⟩ := mem_erased hs hf hf'
    have howner : (if f.islistening = false ∧ f.owner = f₀.fdn then f₀.release else f₀).owner =
        f₀.owner := by
      split <;> rfl
    rw [howner]
    rcases h.owned f₀ hf₀ with ho | ho
    · exact .inl ho
    · exact .inr (fdn_erased hs hf ho (hchild f₀ hf₀))

end Ledger

/-! ## §3 — the steps -/

/-- **What the counter promises.** -/
structure Balanced (s : Sockets) : Prop where
  counted : ∀ f ∈ s.fdlist, f.islistening = true →
    f.connections = children s.fdlist f.fdn + lines false f.buffer
  limited : ∀ f ∈ s.fdlist, f.islistening = true → f.connections ≤ f.maxconnect
  owned : ∀ f ∈ s.fdlist, 0 ≤ f.owner → (getind s.fdlist f.owner).isSome

/-- The character continues a connect request, which ends in CR LF. -/
def requestChar (c : UInt8) : Pc → Prop
  | .top => c = 0xff
  | .esc => c = chr 'c'
  | .request true firstcolon msg =>
    c = chr '\n' ∨ c = chr ':' ∧ firstcolon = true → c = chr '\n' ∧ msg.getLast? = some (chr '\r')
  | .crashed => True
  | _ => False

/-- The steps the accounting is about: calls that make and close descriptors, and connect
requests. -/
def requesting (s : Sockets) : Event → Prop
  | .rx _ c => requestChar c s.pc
  | .take _ _ => False
  | _ => True

/-- The steps that keep the balance: no close of a descriptor with accepted connections, none that
closes an owner; no limit below the count; no `espm_accept` that takes a line and then fails. -/
def accountable (s : Sockets) : Event → Prop
  | .close _ _ fd =>
    ¬ s.closesOwner fd ∧
      ((getind s.fdlist fd).isSome → fd ≠ s.controlfd → ∀ g ∈ s.fdlist, g.owner ≠ fd)
  | .listen fd backlog => ∀ f ∈ s.fdlist, f.fdn = fd → backlog < 0 ∨ f.connections ≤ backlog
  | .accept _ _ _ p fd =>
    ∀ ind ∈ getind s.fdlist fd, ∀ f ∈ s.fdlist[ind]?, f.islistening = true →
      ∀ line ∈ readline false [] f.buffer, serves p line.1 ∧ (nextfdn s.fdlist).isSome
  | _ => True

instance (c : UInt8) (pc : Pc) : Decidable (requestChar c pc) := by
  unfold requestChar
  split <;> infer_instance

instance (s : Sockets) : (e : Event) → Decidable (requesting s e)
  | .rx _ c => inferInstanceAs (Decidable (requestChar c s.pc))
  | .take _ _ => inferInstanceAs (Decidable False)
  | .socket _ _ _ | .bind _ _ | .listen _ _ | .accept _ _ _ _ _ | .close _ _ _ =>
    inferInstanceAs (Decidable True)

instance (s : Sockets) : (e : Event) → Decidable (accountable s e)
  | .close _ _ _ => inferInstanceAs (Decidable (_ ∧ _))
  | .listen _ _ => inferInstanceAs (Decidable (∀ f ∈ s.fdlist, _))
  | .accept _ _ _ _ fd => inferInstanceAs (Decidable (∀ ind ∈ getind s.fdlist fd, _))
  | .rx _ _ | .socket _ _ _ | .bind _ _ | .take _ _ => inferInstanceAs (Decidable True)

/-- The balance along a run, with the text of a request that is still being received. -/
structure Accounts (s : Sockets) : Prop where
  shape : Integrity s
  ledger : Ledger s.fdlist
  text : ∀ firstcolon msg, s.pc = .request true firstcolon msg → chr '\n' ∉ msg

theorem Accounts.balanced {s : Sockets} (h : Accounts s) : Balanced s where
  counted f hf _ := h.ledger.balanced f hf
  limited := h.ledger.limited
  owned := by
    intro f hf hown
    rw [h.shape.sorted.getind_isSome_iff]
    rcases h.ledger.owned f hf with ho | ho
    · omega
    · obtain ⟨g, hg, heq⟩ := List.mem_map.mp ho
      exact ⟨g, hg, heq⟩

theorem Accounts.boot : Accounts Sockets.boot where
  shape := Held.boot.shape
  ledger := by
    refine ⟨fun f hf => ?_, fun f hf hlis => ?_, fun f hf => ?_⟩ <;>
      obtain rfl : f = Fd.new 1 (-1) := by simpa [Sockets.boot] using hf
    · decide
    · simp [Fd.islistening, Fd.new] at hlis
    · exact .inl rfl
  text := by simp [Sockets.boot]

section Steps

variable {s s' : Sockets} {e : Event} {o c : List Int}

/-- **An accepted request** is one line less and one child more. -/
theorem Ledger.accepted (hl : Ledger s.fdlist) (hs : Sorted s.fdlist) {fd afd : Int} {ind : Nat} {f : Fd}
    {msg rest : Bytes} (hf : s.Entry fd ind f) (hline : readline false [] f.buffer = some (msg, rest))
    (hnew : nextfdn s.fdlist = some afd) :
    Ledger (update s.fdlist ind (·.consume rest) ++ [(Fd.new afd fd).accepted f]) := by
  obtain ⟨hpos, -, habove⟩ := hs.nextfdn_spec hnew
  have hfdn : (update s.fdlist ind (·.consume rest)).map Fd.fdn = s.fdlist.map Fd.fdn :=
    update_fdn (g := (·.consume rest)) (fun _ => rfl) ind
  have hchildren : ∀ n, children (update s.fdlist ind (·.consume rest)) n = children s.fdlist n := by
    intro n
    rw [children, update_map Fd.owner (g := (·.consume rest)) (fun _ => rfl), children]
  refine ledger_append (fun f' hf' => ?_) (fun f' hf' hlis' => ?_) (fun f' hf' => ?_)
    ⟨hpos, fun f' hf' => ?_⟩ ⟨rfl, rfl, ?_⟩ ?_
  · obtain ⟨i, f₀, hf₀, rfl⟩ := mem_update hf'
    have hold := hl.balanced f₀ (List.mem_of_getElem? hf₀)
    rw [hchildren]
    by_cases hi : ind = i
    · subst hi
      obtain rfl : f = f₀ := Option.some.inj (hf.entry.symm.trans hf₀)
      have hone := lines_readline hline
      have howner : ((Fd.new afd fd).accepted f).owner = (f.consume rest).fdn := hf.fdn.symm
      simp only [if_true, if_pos howner]
      show f.connections = children s.fdlist f.fdn + 1 + (lines false rest : Int)
      rw [hold, hone]
      push_cast
      ring
    · have hne : ((Fd.new afd fd).accepted f).owner ≠ f₀.fdn := by
        intro heq
        exact hi (hs.index_inj hf.entry hf₀ (hf.fdn.trans heq))
      simp only [if_neg hi, if_neg hne]
      simpa using hold
  · obtain ⟨i, f₀, hf₀, rfl⟩ := mem_update hf'
    have hold := hl.limited f₀ (List.mem_of_getElem? hf₀)
    split at hlis' <;> rename_i hi
    · rw [if_pos hi]
      exact hold hlis'
    · rw [if_neg hi]
      exact hold hlis'
  · obtain ⟨i, f₀, hf₀, rfl⟩ := mem_update hf'
    have hold := hl.owned f₀ (List.mem_of_getElem? hf₀)
    rw [hfdn]
    split <;> exact hold
  · obtain ⟨i, f₀, hf₀, rfl⟩ := mem_update hf'
    have hold := habove f₀ (List.mem_of_getElem? hf₀)
    split <;> exact hold
  · simp [Fd.islistening, Fd.accepted]
  · rw [hfdn]
    exact .inr (List.mem_map.mpr ⟨f, List.mem_of_getElem? hf.entry, hf.fdn⟩)

/-- **A call keeps the balance.** -/
theorem Ledger.effect (h : Accounts s) (hadm : requesting s e) (hok : accountable s e)
    (he : s.Effect e s' o c) : Ledger s'.fdlist := by
  have hl := h.ledger
  have hs := h.shape.sorted
  cases he with
  | idle hs' =>
    rw [hs'.fdlist]
    exact hl
  | @created _ _ type fd _ htype hnew hs' =>
    rw [hs'.fdlist]
    obtain ⟨hpos, -, habove⟩ := hs.nextfdn_spec hnew
    refine ledger_append (fun f hf => ?_) hl.limited hl.owned ⟨hpos, habove⟩ ⟨rfl, rfl, ?_⟩ (.inl rfl)
    · have hfpos := (hs.bounds f hf).1
      have hne : (-1 : Int) ≠ f.fdn := by omega
      simpa [Fd.new, hne] using hl.balanced f hf
    · simp [Fd.islistening, Fd.new]
  | bound hf hfree hs' =>
    rw [hs'.fdlist]
    refine hl.change (fun _ => rfl) (fun _ => rfl) (fun _ _ => rfl) fun f _ hlis => ?_
    simp [Fd.islistening, Fd.bindTo] at hlis
  | @listening fd backlog ind f _ hf hbound htype hs' =>
    rw [hs'.fdlist]
    refine hl.change (fun _ => rfl) (fun _ => rfl) (fun _ _ => rfl) fun f' hf' hlis => ?_
    obtain rfl : f = f' := Option.some.inj (hf.entry.symm.trans hf')
    have hbacklog : 0 ≤ backlog := by
      simp only [Fd.islistening, Fd.listenFor, Bool.and_eq_true] at hlis
      exact of_decide_eq_true hlis.2
    rcases hok f (List.mem_of_getElem? hf.entry) hf.fdn with hneg | hle
    · omega
    · exact hle
  | @discarded _ _ _ _ fd ind f msg rest _ hf hlis hline hfail hs' =>
    obtain ⟨hserves, hnew⟩ := hok ind hf.found f hf.entry hlis (msg, rest) hline
    rcases hfail with hs' | hn
    · exact absurd hserves hs'
    · simp [hn] at hnew
  | accepted hf hlis hline hserves hnew hs' =>
    rw [hs'.fdlist]
    exact hl.accepted hs hf hline hnew
  | @aborted _ _ _ _ fd afd ind f msg rest _ hf hlis hline hserves hnew hs' =>
    rw [hs'.fdlist]
    refine hl.change (fun _ => rfl) (fun _ => rfl) (fun f' hf' => ?_) fun f' hf' hlis' => ?_
    · obtain rfl : f = f' := Option.some.inj (hf.entry.symm.trans hf')
      have hone := lines_readline hline
      show f.connections - 1 + (lines false f.buffer : Int) = f.connections + (lines false rest : Int)
      omega
    · have hold := hl.limited f' (List.mem_of_getElem? hf') hlis'
      show f'.connections - 1 ≤ f'.maxconnect
      omega
  | @closed _ _ fd ind f _ hf hctl hs' =>
    rw [hs'.fdlist]
    refine hl.erase hs hf.entry ?_ ?_
    · rw [hf.fdn]
      exact hok.2 (by rw [hf.found]; rfl) hctl
    · intro hlis
      rcases hl.owned f (List.mem_of_getElem? hf.entry) with ho | ho
      · exact ho
      · obtain ⟨g, hg, heq⟩ := List.mem_map.mp ho
        exact absurd ⟨ind, f, hf, hlis, hs.getind_isSome_iff.mpr ⟨g, hg, heq⟩⟩ hok.1
  | taken hf hs' => exact hadm.elim

/-- A queued request is one more connection and one more line, where there is a place for it. -/
theorem Ledger.queue (h : Ledger s.fdlist) {it : Nat} {f : Fd} {msg : Bytes}
    (hf : s.fdlist[it]? = some f) (hlis : f.islistening = true) (hplace : f.connections ≠ f.maxconnect)
    (hlf : chr '\n' ∉ msg) (hlast : msg.getLast? = some (chr '\r')) :
    Ledger (update s.fdlist it (·.queue (msg ++ [chr '\n']))) := by
  refine h.change (fun _ => rfl) (fun _ => rfl) (fun f' _ => ?_) fun f' hf' _ => ?_
  · show f'.connections + 1 + (lines false f'.buffer : Int) = f'.connections + lines false (f'.queue _).buffer
    rw [lines_queue hlf hlast]
    push_cast
    ring
  · obtain rfl : f = f' := Option.some.inj (hf.symm.trans hf')
    have := h.limited f (List.mem_of_getElem? hf) hlis
    show f.connections + 1 ≤ f.maxconnect
    omega

/-- **A character keeps the balance.** -/
theorem Accounts.rx (h : Accounts s) {room : Nat} {token : UInt8}
    (hadm : requesting s (.rx room token)) : Accounts (s.rx room token) := by
  have hnumbers := s.rx_numbers room token
  suffices hsuff : Ledger (s.rx room token).fdlist ∧
      ∀ firstcolon msg, (s.rx room token).pc = .request true firstcolon msg → chr '\n' ∉ msg from
    ⟨h.shape.congr hnumbers.1 hnumbers.2, hsuff.1, hsuff.2⟩
  unfold Sockets.rx
  simp only [requesting, requestChar] at hadm
  cases hpc : s.pc with
  | top =>
    simp only [hpc] at hadm ⊢
    rw [if_pos hadm]
    exact ⟨h.ledger, by simp⟩
  | esc =>
    have hc : chr 'c' ≠ 0xff ∧ isDigit (chr 'c') = false := by decide
    simp only [hpc] at hadm ⊢
    subst hadm
    rw [if_neg hc.1, Sockets.escape, hc.2, if_neg (by simp), if_pos rfl]
    refine ⟨h.ledger, ?_⟩
    rintro firstcolon msg heq
    obtain ⟨-, -, rfl⟩ := Pc.request.inj heq
    simp
  | request connect firstcolon msg =>
    cases connect with
    | false => simp [hpc] at hadm
    | true =>
      simp only [hpc] at hadm ⊢
      have hmsg := h.text firstcolon msg hpc
      split_ifs with hblank hend
      · exact ⟨h.ledger, h.text⟩
      · obtain ⟨rfl, hlast⟩ := hadm hend
        have hans := s.takerequest_answered room true (msg ++ [chr '\n'])
        generalize s.takerequest room true (msg ++ [chr '\n']) = s' at hans ⊢
        cases hans with
        | null _ => exact ⟨h.ledger, by simp⟩
        | rejected _ => exact ⟨h.ledger, by simp⟩
        | queued _ _ hf hlis _ _ hplace => exact ⟨h.ledger.queue hf hlis hplace hmsg hlast, by simp⟩
      · refine ⟨h.ledger, ?_⟩
        rintro _ msg' heq
        obtain ⟨-, -, rfl⟩ := Pc.request.inj heq
        intro hmem
        rcases List.mem_append.mp hmem with hmem | hmem
        · exact hmsg hmem
        · exact hend (.inl (List.mem_singleton.mp hmem).symm)
  | crashed => exact ⟨h.ledger, by simp [hpc]⟩
  | digits => simp [hpc] at hadm
  | flush => simp [hpc] at hadm
  | yn => simp [hpc] at hadm
  | control => simp [hpc] at hadm

/-- **One step keeps the balance.** -/
theorem Accounts.step (h : Accounts s) (hadm : requesting s e) (hok : accountable s e) :
    Accounts (s.step e) := by
  by_cases hcall : e.isCall
  · have hord : s.orderly e := by
      cases e with
      | close room depth fd => exact hok.1
      | _ => trivial
    obtain ⟨heff, -⟩ := s.step_effect h.shape hcall hord
    refine ⟨(heff.numbers h.shape).1, Ledger.effect h hadm hok heff, ?_⟩
    rw [heff.frame.1]
    exact h.text
  · obtain ⟨room, token, rfl⟩ := Event.eq_rx hcall
    exact h.rx hadm

end Steps

/-! ## §4 — runs -/

/-- **Backlog accounting.** In every state of every run of these steps, every listening descriptor
counts the descriptors accepted from it and the requests in its buffer, within its limit, and every
accepted descriptor has its owner. -/
theorem backlog_balanced (es : List Event)
    (h : Throughout (fun s e => requesting s e ∧ accountable s e) Sockets.step Sockets.boot es) :
    Always (fun _ s => Balanced s) Sockets.step [] Sockets.boot es :=
  always_of_throughout (I := fun _ s => Accounts s) (fun _ _ ha => ha.balanced)
    (fun _ _ _ ha he => ha.step he.1 he.2) es [] Sockets.boot Accounts.boot h

/-- A server with one place: a connection is made, closed and made again, and a second one is
rejected. -/
def oneAtATime : List Event :=
  ([.socket AF_INET .STREAM 0, .bind 2 (some 80), .listen 2 1] : List Event) ++
    Event.feed 100 (0xff :: str "c 1.2.3.4:80\r\n") ++ ([.accept 100 5 [] 0 2] : List Event) ++
    Event.feed 100 (0xff :: str "c 1.2.3.5:80\r\n") ++ ([.close 100 5 3] : List Event) ++
    Event.feed 100 (0xff :: str "c 1.2.3.6:80\r\n") ++
    ([.accept 100 5 [] 0 2, .close 100 5 3, .close 100 5 2] : List Event)

theorem backlog_balanced_oneAtATime :
    Always (fun _ s => Balanced s) Sockets.step [] Sockets.boot oneAtATime :=
  backlog_balanced oneAtATime (by decide +kernel)

/-- The server closes its listening descriptor before the connection it accepted. -/
def closeListening : List Event :=
  ([.socket AF_INET .STREAM 0, .bind 2 (some 80), .listen 2 1] : List Event) ++
    Event.feed 100 (0xff :: str "c 1.2.3.4:80\r\n") ++
    ([.accept 100 5 [] 0 2, .close 100 5 2] : List Event)

/-- **The balance fails on that run**: descriptor 3 is still open and its owner is gone. -/
theorem backlog_balanced_closeListening :
    ¬ Always (fun _ s => Balanced s) Sockets.step [] Sockets.boot closeListening := by
  intro h
  have howned := h.last.owned
  revert howned
  decide +kernel

end Espmod.Socket
