/-
# Espmod.Web.Tags — a buffer holds characters of its own port

The invariant is that every index held over a wait has the port it was computed for: that of a reader,
that of `fillbuffers` in the line of a close or of an answer, and the control port at index 0. With the
tag of every character beside the buffers it says that a buffer holds characters of its own port only
(`Sound`). `Clear` are the steps that do not touch what another one holds; a character that comes in
such a step is put where it belongs (`Sound.rx`).
-/
import Espmod.Lib.Ledger
import Espmod.Lib.Run
import Espmod.Web.Bench

namespace Espmod.Web

open Espmod.Lib Espmod.Lib.Text
open Espmod.Socket.Sockets (isDigit digit int fmtRequest)

/-! ## §1 — what is asked -/

/-- A character is returned to a read on the port it is tagged for; a change is made in an entry of the
port it is tagged for, inside the vector. -/
def Record.Good : Record → Prop
  | returned port tag => tag = some port
  | changed tag entry => ∃ port, tag = some port ∧ entry = some port

/-- The port and the index a thread goes on with. -/
def Task.held : Task → Option (Int × Nat)
  | reading port ind _ _ => some (port, ind)
  | _ => none

/-- The indices `fillbuffers` goes on with: 0 for control messages, and that of the line it is in. -/
def Webclient.held (s : Webclient) : List Nat :=
  0 :: if s.pc = .flush ∨ s.pc = .yn then s.ind.toList else []

/-- The read is the last one of its call. -/
def ReadFor.finishes : ReadFor → Option UInt8 → Bool
  | .readln _ _ crseen, some c => c == chr '\n' && crseen
  | _, _ => true

namespace Bench

/-- **Port isolation.** -/
def Isolated (_ : List Step) (w : Bench) : Prop :=
  w.client.pc ≠ .crashed ∧ ∀ e ∈ w.records, e.Good

/-- An entry that may be erased by `r`: above every index that another thread or `fillbuffers` holds. -/
def MayErase (w : Bench) (r : Option Nat) (ind : Nat) : Prop :=
  (∀ i ∈ w.client.held, i < ind) ∧
    ∀ q < w.threads.length, some q ≠ r → ∀ p ∈ (w.threads.getD q .idle).held, p.2 < ind

/-- The entry `flush` erases. -/
def flushed (w : Bench) (port : Int) : Option Nat :=
  (getind w.client.portlist port).filter w.closedAt

/-- Data has no place to go, or that of a frame; when an entry was erased since the last character, then
the port of the frame is the one `fillbuffers` remembers. -/
def DataClear (w : Bench) : Prop :=
  w.client.selected ≠ none →
    ∃ port ∈ w.frame, w.client.portclosed = true → w.client.port = port

/-- **The steps that do not touch what another one holds.** -/
def Clear (w : Bench) : Step → Prop
  | .rx c =>
    match w.client.pc with
    | .top => c ≠ 0xff → w.DataClear
    | .esc => c = 0xff → w.DataClear
    | .digits =>
      c = chr '!' ∨ c = chr 'y' ∨ c = chr 'n' → getnotclosed w.client.portlist w.client.port ≠ none
    | _ => True
  | .flush port => ∀ ind ∈ w.flushed port, w.MayErase none ind
  | .expectconnect _ _ port => ∀ ind ∈ w.flushed (asInt port), w.MayErase none ind
  | .connectclient _ _ _ _ => ∀ ind ∈ w.flushed (-1), w.MayErase none ind
  | .turn r _ _ =>
    match w.threads[r]? with
    | some (.reading _ ind k since) =>
      since ≠ some w.client.notified → ∀ e ∈ w.client.portlist[ind]?, drains e = true →
        w.MayErase (some r) ind ∧ k.finishes e.buffer.head? = true
    | some (.line (.connectclient toport) msg) =>
      (isAccepted msg = false → ∀ ind ∈ getind w.client.portlist (asInt toport),
          w.MayErase (some r) ind) ∧
        (isAccepted msg = true → macOk msg = false →
          getind w.client.portlist (asInt toport) ≠ none)
    | _ => True
  | _ => True

instance (w : Bench) (r : Option Nat) (ind : Nat) : Decidable (w.MayErase r ind) := by
  unfold MayErase
  infer_instance

instance (w : Bench) : Decidable w.DataClear := by
  unfold DataClear
  infer_instance

instance (w : Bench) (e : Step) : Decidable (w.Clear e) := by
  unfold Clear
  cases e <;> dsimp only <;> (try split) <;> infer_instance

/-! ## §2 — the invariant -/

/-- The tags of a buffer that holds characters of its port only. -/
def ownTags (e : WifiPort) : List (Option Int) := List.replicate e.buffer.length (some e.port)

/-- **What holds in every state of a clear run.** -/
structure Sound (w : Bench) : Prop where
  fine : w.client.pc ≠ .crashed
  control : w.portAt 0 = some (-1)
  tags : w.tags = w.client.portlist.map ownTags
  held : ∀ (q : Nat) (t : Task), w.threads[q]? = some t → ∀ p ∈ t.held, w.portAt p.2 = some p.1
  /-- the index for data is that of the frame, unless it will be computed again -/
  selected : w.client.portclosed = false → ∀ i ∈ w.client.ind, ∀ port ∈ w.frame,
    w.portAt i = some port
  /-- and so is the index for the rest of a line -/
  line : w.client.pc = .flush ∨ w.client.pc = .yn →
    ∃ i ∈ w.client.ind, ∃ port ∈ w.frame, w.portAt i = some port
  good : ∀ e ∈ w.records, e.Good

variable {w : Bench} {r ind : Nat} {port : Int} {c : UInt8}

theorem portAt_eq (w : Bench) (i : Nat) : w.portAt i = (w.client.portlist.map WifiPort.port)[i]? := by
  unfold portAt
  rw [List.getElem?_map]

theorem portAt_getind {portlist : List WifiPort} (h : getind portlist port = some ind) :
    (portlist[ind]?).map WifiPort.port = some port := by
  obtain ⟨hlt, hport, -⟩ := List.findIdx?_eq_some_iff_getElem.mp h
  rw [List.getElem?_eq_getElem hlt, Option.map_some, beq_iff_eq.mp hport]

theorem portAt_getnotclosed {portlist : List WifiPort} (h : getnotclosed portlist port = some ind) :
    (portlist[ind]?).map WifiPort.port = some port := by
  obtain ⟨hlt, hport, -⟩ := List.findIdx?_eq_some_iff_getElem.mp h
  rw [List.getElem?_eq_getElem hlt, Option.map_some, beq_iff_eq.mp (Bool.and_eq_true_iff.mp hport).2]

theorem lt_of_portAt (h : w.portAt ind = some port) : ind < w.client.portlist.length := by
  obtain ⟨e, he, -⟩ := Option.map_eq_some_iff.mp h
  exact (List.getElem?_eq_some_iff.mp he).1

theorem sound_start (n : Nat) : Sound (start n) where
  fine h := nomatch h
  control := rfl
  tags := rfl
  held q t ht p hp := by
    rw [List.eq_of_mem_replicate (List.mem_of_getElem? ht)] at hp
    exact nomatch hp
  selected _ i hi := nomatch hi
  line h := by rcases h with h | h <;> exact nomatch h
  good e he := nomatch he

/-! ## §3 — characters -/

/-- Characters are appended, or the entry is closed. -/
def Grows (g : WifiPort → WifiPort) : Prop :=
  ∀ e, (g e).port = e.port ∧ e.buffer.length ≤ (g e).buffer.length

theorem grows_push (bs : Bytes) : Grows (·.push bs) := by
  refine fun e => ⟨rfl, ?_⟩
  unfold WifiPort.push
  rw [List.length_append]
  exact Nat.le_add_right _ _

/-- The entries after a character that has this target. -/
def Changes (s s' : Webclient) (target : Option Nat) : Prop :=
  ∃ g, Grows g ∧ s'.portlist = target.elim s.portlist fun i => s.portlist.modify i g

theorem Changes.none {s s' : Webclient} (h : s'.portlist = s.portlist) : Changes s s' none :=
  ⟨id, fun _ => ⟨rfl, Nat.le_refl _⟩, h⟩

theorem Changes.modify {s s' : Webclient} {i : Nat} {g : WifiPort → WifiPort} (hg : Grows g)
    (h : s'.portlist = s.portlist.modify i g) : Changes s s' (some i) := ⟨g, hg, h⟩

theorem pushAt_portlist (s : Webclient) (i : Nat) (bs : Bytes) :
    (s.pushAt i bs).portlist = s.portlist.modify i (·.push bs) := by
  unfold Webclient.pushAt
  split
  · rfl
  · next hge => rw [List.modify_eq_self (Nat.not_lt.mp hge)]

theorem closeAt_portlist (s : Webclient) (i : Nat) :
    (s.closeAt i).portlist = s.portlist.modify i fun e => { e with closed := true } := by
  unfold Webclient.closeAt
  split
  · rfl
  · next hge => rw [List.modify_eq_self (Nat.not_lt.mp hge)]

/-- A data character. -/
theorem data_eq (s : Webclient) (b : UInt8) : s.data b =
    match s.selected with
    | none => { s with pc := .top, ind := none, portclosed := false }
    | some i => ({ s with pc := .top, ind := some i, portclosed := false }.pushAt i [b]).notify := by
  have hrefresh : ({ s with pc := .top } : Webclient).refresh =
      { s with pc := .top, ind := s.selected, portclosed := false } := by
    unfold Webclient.refresh Webclient.selected
    dsimp only
    split
    · rfl
    · next h => rw [← Bool.eq_false_iff.mpr h]
  unfold Webclient.data
  rw [hrefresh]
  cases s.selected <;> rfl

theorem data_changes (s : Webclient) (b : UInt8) : Changes s (s.data b) s.selected := by
  rw [data_eq]
  cases s.selected with
  | none => exact .none rfl
  | some i => exact .modify (grows_push [b]) (pushAt_portlist _ i [b])

/-- **What a character does to the entries.** -/
theorem rx_changes (s : Webclient) (c : UInt8) : Changes s (s.rx c) (s.target c) := by
  unfold Webclient.rx Webclient.target
  cases hpc : s.pc with
  | top =>
    dsimp only
    split
    · exact .none rfl
    · exact data_changes s c
  | esc =>
    dsimp only
    split
    · exact data_changes s c
    · unfold Webclient.escape
      by_cases hdigit : isDigit c = true
      · rw [if_pos hdigit, if_pos (Or.inl hdigit)]
        exact .none rfl
      · by_cases hs : c = chr 's'
        · rw [if_neg hdigit, if_pos hs, if_pos (Or.inr hs)]
          exact .none rfl
        · rw [if_neg hdigit, if_neg hs, if_neg (by simp [hdigit, hs])]
          exact .modify (grows_push _) (pushAt_portlist _ 0 _)
  | digits =>
    dsimp only
    split
    · next hdigit =>
      have hyn : ¬ (c = chr 'y' ∨ c = chr 'n') := by
        rintro (rfl | rfl) <;> exact absurd hdigit (by decide)
      rw [if_neg hyn]
      exact .none rfl
    · unfold Webclient.terminator
      by_cases hyn : c = chr 'y' ∨ c = chr 'n'
      · have hbang : c ≠ chr '!' := by
          rcases hyn with rfl | rfl <;> decide
        rw [if_pos hyn]
        cases getnotclosed s.portlist s.port with
        | none =>
          dsimp only
          rw [if_neg hbang, if_pos hyn]
          exact .none rfl
        | some i =>
          dsimp only
          rw [if_neg hbang, if_pos hyn]
          exact .modify (grows_push _) (pushAt_portlist _ i _)
      · rw [if_neg hyn]
        apply Changes.none
        cases getnotclosed s.portlist s.port <;> dsimp only <;> rw [if_neg hyn] <;> split <;> rfl
  | flush =>
    dsimp only
    split
    · cases s.ind with
      | none => exact .none rfl
      | some i =>
        have hg : Grows fun e => { e with closed := true } := fun e => ⟨rfl, Nat.le_refl _⟩
        exact .modify hg (closeAt_portlist _ i)
    · exact .none rfl
  | yn =>
    dsimp only
    cases s.ind with
    | none => exact .none rfl
    | some i =>
      dsimp only
      split
      · exact .modify (grows_push _) (pushAt_portlist _ i _)
      · exact .modify (grows_push _) (pushAt_portlist _ i _)
  | header firstcolon msg =>
    dsimp only
    split
    · apply Changes.none
      unfold Webclient.takesend
      split
      · split <;> rfl
      · rfl
    · exact .none rfl
  | dump =>
    dsimp only
    split <;> exact .none rfl
  | control =>
    dsimp only
    split
    · exact .modify (grows_push _) (pushAt_portlist _ 0 _)
    · exact .modify (grows_push _) (pushAt_portlist _ 0 _)
  | crashed => exact .none rfl

theorem retag_own {e e' : WifiPort} {tag : Option Int} (hport : e'.port = e.port)
    (hlen : e.buffer.length ≤ e'.buffer.length)
    (htag : e.buffer.length < e'.buffer.length → tag = some e.port) :
    retag tag e' (ownTags e) = ownTags e' := by
  unfold retag ownTags
  rw [List.length_replicate, hport]
  rcases Nat.eq_or_lt_of_le hlen with heq | hlt
  · rw [heq, Nat.sub_self, List.replicate_zero, List.append_nil]
  · rw [htag hlt, List.replicate_append_replicate, Nat.add_sub_cancel' hlen]

/-- Characters of the entry's own port are appended, so all tags are still its own. -/
theorem retag_portlist {s s' : Webclient} {target : Option Nat} {tag : Option Int} (h : Changes s s' target)
    (htag : ∀ i ∈ target, ∃ port, tag = some port ∧ (s.portlist[i]?).map WifiPort.port = some port) :
    List.zipWith (retag tag) s'.portlist (s.portlist.map ownTags) = s'.portlist.map ownTags := by
  obtain ⟨g, hg, hs'⟩ := h
  apply List.ext_getElem?
  intro j
  rw [List.getElem?_zipWith, List.getElem?_map, List.getElem?_map]
  have hget : ∃ g' : WifiPort → WifiPort, s'.portlist[j]? = (s.portlist[j]?).map g' ∧
      ∀ e ∈ s.portlist[j]?, (g' e).port = e.port ∧ e.buffer.length ≤ (g' e).buffer.length ∧
        (e.buffer.length < (g' e).buffer.length → tag = some e.port) := by
    cases target with
    | none =>
      refine ⟨id, ?_, fun e _ => ⟨rfl, Nat.le_refl _, fun h => absurd h (Nat.lt_irrefl _)⟩⟩
      rw [Option.map_id, hs']
      rfl
    | some i =>
      have hs' : s'.portlist = s.portlist.modify i g := hs'
      refine ⟨fun e => if i = j then g e else e, ?_, fun e he => ?_⟩
      · rw [hs', List.getElem?_modify]
        rfl
      · dsimp only
        split
        · next hij =>
          subst hij
          refine ⟨(hg e).1, (hg e).2, fun _ => ?_⟩
          obtain ⟨port, htag, hport⟩ := htag i rfl
          rw [he, Option.map_some] at hport
          rw [htag, ← hport]
        · exact ⟨rfl, Nat.le_refl _, fun h => absurd h (Nat.lt_irrefl _)⟩
  obtain ⟨g', hget, hg'⟩ := hget
  rw [hget]
  cases he : s.portlist[j]? with
  | none => rfl
  | some e =>
    obtain ⟨hport, hlen, htag⟩ := hg' e he
    exact congrArg some (retag_own hport hlen htag)

theorem Changes.ports {s s' : Webclient} {target : Option Nat} (h : Changes s s' target) (i : Nat) :
    (s'.portlist[i]?).map WifiPort.port = (s.portlist[i]?).map WifiPort.port := by
  obtain ⟨g, hg, hs'⟩ := h
  cases target with
  | none =>
    have hs' : s'.portlist = s.portlist := hs'
    rw [hs']
  | some j =>
    have hs' : s'.portlist = s.portlist.modify j g := hs'
    rw [hs', List.getElem?_modify]
    cases s.portlist[i]? with
    | none => rfl
    | some e =>
      show some ((if j = i then g e else e).port) = some e.port
      split
      · rw [(hg e).1]
      · rfl

/-- **A character for an entry of its own port**, with what `fillbuffers` goes on with. -/
theorem Sound.rx_of (h : Sound w)
    (htarget : ∀ i ∈ w.client.target c, ∃ port,
      w.client.tag c (w.client.nextFrame c w.frame) = some port ∧ w.portAt i = some port)
    (hfine : (w.client.rx c).pc ≠ .crashed)
    (hsel : (w.client.rx c).portclosed = false → ∀ i ∈ (w.client.rx c).ind,
      ∀ port ∈ w.client.nextFrame c w.frame, w.portAt i = some port)
    (hline : (w.client.rx c).pc = .flush ∨ (w.client.rx c).pc = .yn → ∃ i ∈ (w.client.rx c).ind,
      ∃ port ∈ w.client.nextFrame c w.frame, w.portAt i = some port) : Sound (w.rx c) := by
  have hchanges := rx_changes w.client c
  have hport (i : Nat) : (w.rx c).portAt i = w.portAt i := hchanges.ports i
  refine ⟨hfine, (hport 0).trans h.control, ?_, fun q t ht p hp => ?_, fun hclosed i hi port hp => ?_,
    fun hpc => ?_, fun e he => ?_⟩
  · show List.zipWith _ (w.client.rx c).portlist w.tags = _
    rw [h.tags]
    exact retag_portlist hchanges htarget
  · rw [hport]
    exact h.held q t ht p hp
  · rw [hport]
    exact hsel hclosed i hi port hp
  · obtain ⟨i, hi, port, hp, hat⟩ := hline hpc
    exact ⟨i, hi, port, hp, (hport i).trans hat⟩
  · rcases List.mem_append.mp he with hold | hnew
    · exact h.good e hold
    · obtain ⟨i, hi, rfl⟩ := Option.map_eq_some_iff.mp (Option.mem_toList.mp hnew)
      exact htarget i hi

/-- Characters that change no entry. -/
theorem Sound.rx_quiet (h : Sound w) (htarget : w.client.target c = none)
    (hfine : (w.client.rx c).pc ≠ .crashed)
    (hsel : (w.client.rx c).portclosed = false → ∀ i ∈ (w.client.rx c).ind,
      ∀ port ∈ w.client.nextFrame c w.frame, w.portAt i = some port)
    (hline : (w.client.rx c).pc = .flush ∨ (w.client.rx c).pc = .yn → ∃ i ∈ (w.client.rx c).ind,
      ∃ port ∈ w.client.nextFrame c w.frame, w.portAt i = some port) : Sound (w.rx c) := by
  refine h.rx_of (fun i hi => ?_) hfine hsel hline
  rw [htarget] at hi
  exact nomatch hi

/-- Neither in a close nor in an answer. -/
theorem not_line {pc : Pc} (hpc : pc ≠ .flush ∧ pc ≠ .yn) : ¬ (pc = .flush ∨ pc = .yn) := by
  rintro (h | h)
  · exact hpc.1 h
  · exact hpc.2 h

/-- A character that nothing comes of: the parser goes on, but not into a line for a port. -/
theorem Sound.goesOn (h : Sound w) {pc : Pc} (htarget : w.client.target c = none)
    (hpc : (w.client.rx c).pc = pc) (hfine : pc ≠ .crashed) (hline : pc ≠ .flush ∧ pc ≠ .yn)
    (hclosed : (w.client.rx c).portclosed = w.client.portclosed)
    (hind : (w.client.rx c).ind = w.client.ind) (hframe : w.client.nextFrame c w.frame = w.frame) :
    Sound (w.rx c) := by
  refine h.rx_quiet htarget ?_ ?_ ?_
  · rw [hpc]
    exact hfine
  · rw [hclosed, hind, hframe]
    exact h.selected
  · rw [hpc]
    exact fun hpc => absurd hpc (not_line hline)

/-- Where data goes, it goes to the port of the frame. -/
theorem Sound.place (h : Sound w) (hclear : w.DataClear) :
    ∀ i ∈ w.client.selected, ∃ port ∈ w.frame, w.portAt i = some port := by
  intro i hi
  obtain ⟨port, hport, hsame⟩ := hclear (by rw [hi]; exact Option.some_ne_none i)
  refine ⟨port, hport, ?_⟩
  unfold Webclient.selected at hi
  split at hi
  · next hclosed =>
    rw [← hsame hclosed]
    exact portAt_getind hi
  · next hclosed => exact h.selected (Bool.eq_false_iff.mpr hclosed) i hi port hport

/-- A data character. -/
theorem Sound.data (h : Sound w) (hclear : w.DataClear) (hrx : w.client.rx c = w.client.data c)
    (htarget : w.client.target c = w.client.selected) (hframe : w.client.nextFrame c w.frame = w.frame)
    (htag : w.client.tag c w.frame = w.frame) : Sound (w.rx c) := by
  have hplace := h.place hclear
  have hdata := data_eq w.client c
  cases hsel : w.client.selected with
  | none =>
    rw [hsel] at hdata htarget
    refine h.rx_quiet htarget ?_ ?_ ?_
    · rw [hrx, hdata]
      exact fun h => nomatch h
    · rw [hrx, hdata]
      exact fun _ i hi => nomatch hi
    · rw [hrx, hdata]
      exact fun hpc => absurd hpc (not_line ⟨fun h => (nomatch h), fun h => nomatch h⟩)
  | some i =>
    obtain ⟨port, hport, hat⟩ := hplace i hsel
    rw [hsel] at hdata htarget
    dsimp only at hdata
    rw [Webclient.pushAt_of_lt (by exact lt_of_portAt hat)] at hdata
    refine h.rx_of ?_ ?_ ?_ ?_
    · rw [htarget, hframe, htag]
      intro j hj
      obtain rfl := Option.some.inj hj
      exact ⟨port, hport, hat⟩
    · rw [hrx, hdata]
      exact fun h => nomatch h
    · rw [hrx, hdata, hframe]
      intro _ j hj port' hport'
      obtain rfl := Option.some.inj hj
      obtain rfl : port = port' := Option.some.inj (hport.symm.trans hport')
      exact hat
    · rw [hrx, hdata]
      exact fun hpc => absurd hpc (not_line ⟨fun h => (nomatch h), fun h => nomatch h⟩)

/-- A character of a control message. -/
theorem Sound.controlMessage (h : Sound w) (s₁ : Webclient) (bs : Bytes)
    (hs₁ : s₁.portlist = w.client.portlist ∧ s₁.portclosed = w.client.portclosed ∧ s₁.ind = w.client.ind)
    (hpc : s₁.pc = .control ∨ s₁.pc = .top) (hrx : w.client.rx c = s₁.pushAt 0 bs)
    (htarget : w.client.target c = some 0) (hframe : w.client.nextFrame c w.frame = w.frame)
    (htag : w.client.tag c w.frame = some (-1)) : Sound (w.rx c) := by
  have hlt : 0 < s₁.portlist.length := by
    rw [hs₁.1]
    exact lt_of_portAt h.control
  rw [Webclient.pushAt_of_lt hlt] at hrx
  refine h.rx_of ?_ ?_ ?_ ?_
  · rw [htarget, hframe, htag]
    intro j hj
    obtain rfl := Option.some.inj hj
    exact ⟨-1, rfl, h.control⟩
  · rw [hrx]
    rcases hpc with hpc | hpc <;> exact fun hcrash => nomatch hpc.symm.trans hcrash
  · rw [hrx, hframe]
    intro hclosed i hi port hport
    exact h.selected (hs₁.2.1.symm.trans hclosed) i (hs₁.2.2.symm.trans hi) port hport
  · rw [hrx]
    rintro (hline | hline) <;> rcases hpc with hpc | hpc <;> exact nomatch hpc.symm.trans hline

/-- Behind the digits of a port that is open, or at no close and no answer. -/
theorem Sound.terminated (h : Sound w) (hpc : w.client.pc = .digits) (hdigit : isDigit c = false)
    (hopen : c = chr '!' ∨ c = chr 'y' ∨ c = chr 'n' →
      getnotclosed w.client.portlist w.client.port ≠ none) : Sound (w.rx c) := by
  have hframe : w.client.nextFrame c w.frame = some w.client.port := by
    unfold Webclient.nextFrame
    rw [hpc]
    dsimp only
    rw [if_neg (Bool.eq_false_iff.mp hdigit)]
  have htarget : w.client.target c = if c = chr 'y' ∨ c = chr 'n' then
      getnotclosed w.client.portlist w.client.port else none := by
    unfold Webclient.target
    rw [hpc]
  have hrx : w.client.rx c = w.client.terminator c := by
    unfold Webclient.rx
    rw [hpc]
    dsimp only
    rw [if_neg (Bool.eq_false_iff.mp hdigit)]
  have htag : w.client.tag c (some w.client.port) = some w.client.port := by
    unfold Webclient.tag
    rw [hpc]
  unfold Webclient.terminator at hrx
  cases hind : getnotclosed w.client.portlist w.client.port with
  | none =>
    have hplain : ¬ (c = chr '!' ∨ c = chr 'y' ∨ c = chr 'n') := fun hc => hopen hc hind
    rw [not_or] at hplain
    rw [hind] at hrx
    dsimp only at hrx
    rw [if_neg hplain.1, if_neg hplain.2] at hrx
    refine h.rx_quiet (by rw [htarget, if_neg hplain.2]) ?_ ?_ ?_
    · rw [hrx]
      exact fun hcrash => nomatch hcrash
    · rw [hrx]
      exact fun _ i hi => nomatch hi
    · rw [hrx]
      exact fun hline => absurd hline (not_line ⟨fun h => (nomatch h), fun h => nomatch h⟩)
  | some i =>
    have hat : w.portAt i = some w.client.port := portAt_getnotclosed hind
    rw [hind] at hrx htarget
    dsimp only at hrx
    rw [Webclient.pushAt_of_lt (by exact lt_of_portAt hat)] at hrx
    have hafter : (w.client.rx c).pc ≠ .crashed ∧ (w.client.rx c).ind = some i := by
      rw [hrx]
      split
      · exact ⟨fun h => (nomatch h), rfl⟩
      · split
        · exact ⟨fun h => (nomatch h), rfl⟩
        · exact ⟨fun h => (nomatch h), rfl⟩
    refine h.rx_of ?_ hafter.1 ?_ ?_
    · rw [htarget, hframe, htag]
      intro j hj
      split at hj
      · obtain rfl := Option.some.inj hj
        exact ⟨_, rfl, hat⟩
      · exact nomatch hj
    · rw [hafter.2, hframe]
      intro _ j hj port hport
      obtain rfl := Option.some.inj hj
      obtain rfl := Option.some.inj hport
      exact hat
    · rw [hafter.2, hframe]
      exact fun _ => ⟨i, rfl, _, rfl, hat⟩

/-- In the line of a close. -/
theorem Sound.closing (h : Sound w) (hpc : w.client.pc = .flush) (hind : ind ∈ w.client.ind)
    (hport : port ∈ w.frame) (hat : w.portAt ind = some port) : Sound (w.rx c) := by
  have hind : w.client.ind = some ind := hind
  have hport : w.frame = some port := hport
  have hframe : w.client.nextFrame c w.frame = some port := by
    unfold Webclient.nextFrame
    rw [hpc, hport]
  have hafter : (w.client.rx c).pc ≠ .crashed ∧ (w.client.rx c).ind = some ind := by
    unfold Webclient.rx
    rw [hpc, hind]
    dsimp only
    split
    · unfold Webclient.closeAt
      rw [if_pos (by exact lt_of_portAt hat)]
      exact ⟨fun h => (nomatch h), rfl⟩
    · rw [hpc]
      exact ⟨fun h => (nomatch h), hind⟩
  refine h.rx_of ?_ hafter.1 ?_ ?_
  · intro j hj
    unfold Webclient.target at hj
    rw [hpc] at hj
    dsimp only at hj
    split at hj
    · obtain rfl := Option.some.inj (hind.symm.trans hj)
      unfold Webclient.tag
      rw [hpc, hframe]
      exact ⟨port, rfl, hat⟩
    · exact nomatch hj
  · rw [hafter.2, hframe]
    intro _ j hj port' hport'
    obtain rfl := Option.some.inj hj
    obtain rfl := Option.some.inj hport'
    exact hat
  · rw [hafter.2, hframe]
    exact fun _ => ⟨ind, rfl, port, rfl, hat⟩

/-- In the line of an answer. -/
theorem Sound.answering (h : Sound w) (hpc : w.client.pc = .yn) (hind : ind ∈ w.client.ind)
    (hport : port ∈ w.frame) (hat : w.portAt ind = some port) : Sound (w.rx c) := by
  have hind : w.client.ind = some ind := hind
  have hport : w.frame = some port := hport
  have hframe : w.client.nextFrame c w.frame = some port := by
    unfold Webclient.nextFrame
    rw [hpc, hport]
  have hafter : (w.client.rx c).pc ≠ .crashed ∧ (w.client.rx c).ind = some ind := by
    unfold Webclient.rx
    rw [hpc, hind]
    dsimp only
    rw [Webclient.pushAt_of_lt (by exact lt_of_portAt hat),
      Webclient.pushAt_of_lt (by exact lt_of_portAt hat)]
    split
    · exact ⟨fun h => (nomatch h), rfl⟩
    · dsimp only
      rw [hpc]
      exact ⟨fun h => (nomatch h), hind⟩
  refine h.rx_of ?_ hafter.1 ?_ ?_
  · intro j hj
    unfold Webclient.target at hj
    rw [hpc, hind] at hj
    obtain rfl := Option.some.inj hj
    unfold Webclient.tag
    rw [hpc, hframe]
    exact ⟨port, rfl, hat⟩
  · rw [hafter.2, hframe]
    intro _ j hj port' hport'
    obtain rfl := Option.some.inj hj
    obtain rfl := Option.some.inj hport'
    exact hat
  · rw [hafter.2, hframe]
    exact fun _ => ⟨ind, rfl, port, rfl, hat⟩

/-- In a datagram header. -/
theorem Sound.addressed (h : Sound w) {firstcolon : Bool} {msg : Bytes}
    (hpc : w.client.pc = .header firstcolon msg) : Sound (w.rx c) := by
  have htarget : w.client.target c = none := by
    unfold Webclient.target
    rw [hpc]
  by_cases hend : c = chr ':' ∧ firstcolon = true
  · have hrx : w.client.rx c = w.client.takesend (msg ++ [c]) := by
      unfold Webclient.rx
      rw [hpc]
      exact if_pos hend
    unfold Webclient.takesend at hrx
    have hafter : ((w.client.rx c).pc = .dump ∧ w.client.nextFrame c w.frame = none) ∨
        ∃ i port, (w.client.rx c).pc = .top ∧ (w.client.rx c).ind = some i ∧
          w.client.nextFrame c w.frame = some port ∧ w.portAt i = some port := by
      rw [hrx]
      unfold Webclient.nextFrame
      rw [hpc]
      dsimp only
      rw [if_pos hend]
      rcases scanf fmtRequest (cstr (msg ++ [c])) with
        _ | ⟨_, _ | ⟨_, _ | ⟨_, _ | ⟨_, _ | ⟨port, _ | _⟩⟩⟩⟩⟩
      case cons.cons.cons.cons.cons.nil =>
        dsimp only
        cases hind : getnotclosed w.client.portlist port with
        | none => exact Or.inl ⟨rfl, rfl⟩
        | some i => exact Or.inr ⟨i, port, rfl, rfl, rfl, portAt_getnotclosed hind⟩
      all_goals exact Or.inl ⟨rfl, rfl⟩
    rcases hafter with ⟨hdump, hnone⟩ | ⟨i, port, htop, hind, hsome, hat⟩
    · refine h.rx_quiet htarget ?_ ?_ ?_
      · rw [hdump]
        exact fun hcrash => nomatch hcrash
      · rw [hnone]
        exact fun _ _ _ port hport => nomatch hport
      · rw [hdump]
        exact fun hline => absurd hline (not_line ⟨fun h => (nomatch h), fun h => nomatch h⟩)
    · refine h.rx_quiet htarget ?_ ?_ ?_
      · rw [htop]
        exact fun hcrash => nomatch hcrash
      · rw [hind, hsome]
        intro _ j hj port' hport'
        obtain rfl := Option.some.inj hj
        obtain rfl := Option.some.inj hport'
        exact hat
      · rw [htop]
        exact fun hline => absurd hline (not_line ⟨fun h => (nomatch h), fun h => nomatch h⟩)
  · have hrx : w.client.rx c =
        { w.client with pc := .header (firstcolon || c == chr ':') (msg ++ [c]) } := by
      unfold Webclient.rx
      rw [hpc]
      exact if_neg hend
    refine h.goesOn htarget (congrArg Webclient.pc hrx) Pc.noConfusion ⟨Pc.noConfusion, Pc.noConfusion⟩
      (by rw [hrx]) (by rw [hrx]) ?_
    unfold Webclient.nextFrame
    rw [hpc]
    exact if_neg hend

/-- Between frames: the start of an escape, or data. -/
theorem Sound.unescaped (h : Sound w) (hpc : w.client.pc = .top) (hclear : c ≠ 0xff → w.DataClear) :
    Sound (w.rx c) := by
  have hframe : w.client.nextFrame c w.frame = w.frame := by
    unfold Webclient.nextFrame
    rw [hpc]
  by_cases hc : c = 0xff
  · have hrx : w.client.rx c = { w.client with pc := .esc } := by
      unfold Webclient.rx
      rw [hpc]
      exact if_pos hc
    refine h.goesOn ?_ (congrArg Webclient.pc hrx) Pc.noConfusion ⟨Pc.noConfusion, Pc.noConfusion⟩
      (by rw [hrx]) (by rw [hrx]) hframe
    unfold Webclient.target
    rw [hpc]
    exact if_pos hc
  · refine h.data (hclear hc) ?_ ?_ hframe ?_
    · unfold Webclient.rx
      rw [hpc]
      exact if_neg hc
    · unfold Webclient.target
      rw [hpc]
      exact if_neg hc
    · unfold Webclient.tag
      rw [hpc]

/-- **Behind an escape**: data, the number of a port, a datagram, or a control message. -/
theorem Sound.escaped (h : Sound w) (hpc : w.client.pc = .esc) (hclear : c = 0xff → w.DataClear) :
    Sound (w.rx c) := by
  have hframe : w.client.nextFrame c w.frame = w.frame := by
    unfold Webclient.nextFrame
    rw [hpc]
  by_cases hc : c = 0xff
  · refine h.data (hclear hc) ?_ ?_ hframe ?_
    · unfold Webclient.rx
      rw [hpc]
      exact if_pos hc
    · unfold Webclient.target
      rw [hpc]
      exact if_pos hc
    · unfold Webclient.tag
      rw [hpc]
      exact if_pos hc
  · have hrx : w.client.rx c = w.client.escape c := by
      unfold Webclient.rx
      rw [hpc]
      exact if_neg hc
    have htarget : w.client.target c = if isDigit c ∨ c = chr 's' then none else some 0 := by
      unfold Webclient.target
      rw [hpc]
      exact if_neg hc
    unfold Webclient.escape at hrx
    by_cases hdigit : isDigit c = true
    · rw [if_pos hdigit] at hrx
      exact h.goesOn (by rw [htarget, if_pos (Or.inl hdigit)]) (congrArg Webclient.pc hrx) Pc.noConfusion
        ⟨Pc.noConfusion, Pc.noConfusion⟩ (by rw [hrx]) (by rw [hrx]) hframe
    · rw [if_neg hdigit] at hrx
      by_cases hsend : c = chr 's'
      · rw [if_pos hsend] at hrx
        exact h.goesOn (by rw [htarget, if_pos (Or.inr hsend)]) (congrArg Webclient.pc hrx) Pc.noConfusion
          ⟨Pc.noConfusion, Pc.noConfusion⟩ (by rw [hrx]) (by rw [hrx]) hframe
      · rw [if_neg hsend] at hrx
        refine h.controlMessage { w.client with pc := .control } _ ⟨rfl, rfl, rfl⟩ (Or.inl rfl) hrx
          (by rw [htarget, if_neg (not_or.mpr ⟨hdigit, hsend⟩)]) hframe ?_
        unfold Webclient.tag
        rw [hpc]
        exact if_neg hc

/-- In the number of a port, or at its end. -/
theorem Sound.numbered (h : Sound w) (hpc : w.client.pc = .digits)
    (hclear : c = chr '!' ∨ c = chr 'y' ∨ c = chr 'n' →
      getnotclosed w.client.portlist w.client.port ≠ none) : Sound (w.rx c) := by
  by_cases hdigit : isDigit c = true
  · have hrx : w.client.rx c = { w.client with port := int (w.client.port * 10 + digit c) } := by
      unfold Webclient.rx
      rw [hpc]
      dsimp only
      rw [if_pos hdigit, hpc]
    refine h.goesOn ?_ ((congrArg Webclient.pc hrx).trans hpc) Pc.noConfusion
      ⟨Pc.noConfusion, Pc.noConfusion⟩ (by rw [hrx]) (by rw [hrx]) ?_
    · unfold Webclient.target
      rw [hpc]
      refine if_neg ?_
      rintro (rfl | rfl) <;> exact absurd hdigit (by decide)
    · unfold Webclient.nextFrame
      rw [hpc]
      exact if_pos hdigit
  · exact h.terminated hpc (Bool.eq_false_iff.mpr hdigit) hclear

/-- The rest of an illegal datagram. -/
theorem Sound.dumped (h : Sound w) (hpc : w.client.pc = .dump) : Sound (w.rx c) := by
  have hsame : ((w.client.rx c).pc = .top ∨ (w.client.rx c).pc = .dump) ∧
      (w.client.rx c).portclosed = w.client.portclosed ∧ (w.client.rx c).ind = w.client.ind := by
    unfold Webclient.rx
    rw [hpc]
    dsimp only
    split
    · exact ⟨Or.inl rfl, rfl, rfl⟩
    · exact ⟨Or.inr hpc, rfl, rfl⟩
  have htarget : w.client.target c = none := by
    unfold Webclient.target
    rw [hpc]
  have hframe : w.client.nextFrame c w.frame = w.frame := by
    unfold Webclient.nextFrame
    rw [hpc]
  rcases hsame.1 with htop | hdump
  · exact h.goesOn htarget htop Pc.noConfusion ⟨Pc.noConfusion, Pc.noConfusion⟩ hsame.2.1 hsame.2.2 hframe
  · exact h.goesOn htarget hdump Pc.noConfusion ⟨Pc.noConfusion, Pc.noConfusion⟩ hsame.2.1 hsame.2.2 hframe

/-- In a control message. -/
theorem Sound.controlled (h : Sound w) (hpc : w.client.pc = .control) : Sound (w.rx c) := by
  have hframe : w.client.nextFrame c w.frame = w.frame := by
    unfold Webclient.nextFrame
    rw [hpc]
  have htarget : w.client.target c = some 0 := by
    unfold Webclient.target
    rw [hpc]
  have htag : w.client.tag c w.frame = some (-1) := by
    unfold Webclient.tag
    rw [hpc]
  by_cases hc : c = chr '\n'
  · refine h.controlMessage ({ w.client with pc := .top } : Webclient).notify [c]
      ⟨rfl, rfl, rfl⟩ (Or.inr rfl) ?_ htarget hframe htag
    unfold Webclient.rx
    rw [hpc]
    exact if_pos hc
  · refine h.controlMessage w.client [c] ⟨rfl, rfl, rfl⟩ (Or.inl hpc) ?_ htarget hframe htag
    unfold Webclient.rx
    rw [hpc]
    exact if_neg hc

/-- **One character** for `fillbuffers`. -/
theorem Sound.rx (h : Sound w) (hclear : w.Clear (.rx c)) : Sound (w.rx c) := by
  unfold Clear at hclear
  cases hpc : w.client.pc with
  | top =>
    rw [hpc] at hclear
    exact h.unescaped hpc hclear
  | esc =>
    rw [hpc] at hclear
    exact h.escaped hpc hclear
  | digits =>
    rw [hpc] at hclear
    exact h.numbered hpc hclear
  | flush =>
    obtain ⟨i, hi, port, hport, hat⟩ := h.line (Or.inl hpc)
    exact h.closing hpc hi hport hat
  | yn =>
    obtain ⟨i, hi, port, hport, hat⟩ := h.line (Or.inr hpc)
    exact h.answering hpc hi hport hat
  | header firstcolon msg => exact h.addressed hpc
  | dump => exact h.dumped hpc
  | control => exact h.controlled hpc
  | crashed => exact absurd hpc h.fine

end Bench

end Espmod.Web
