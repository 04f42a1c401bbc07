/-
# Espmod.Web.Isolation — reads on a port and the characters tagged for it

What breaks the invariant is an erase at or below an index that is held, a line that goes on behind the
read that has drained its closed port, a close or an answer for a port that is not open, and data that
is stored by an index left over from another frame. In every run without these a read returns characters
tagged for its port only, and `fillbuffers` changes entries of the port in the frame only
(`ports_isolated`).
-/
import Espmod.Web.Tags

namespace Espmod.Web

open Espmod.Lib Espmod.Lib.Text

namespace Bench

variable {w : Bench} {r ind : Nat} {port : Int}

/-! ## §1 — entries -/

/-- **What leaves the indices alone**: entries stay where they are, with their tags. -/
theorem Sound.of_ports (h : Sound w) {w' : Bench}
    (hclient : w'.client.pc = w.client.pc ∧ w'.client.portclosed = w.client.portclosed ∧
      w'.client.ind = w.client.ind)
    (hrest : w'.frame = w.frame ∧ w'.threads = w.threads)
    (hports : ∀ i port, w.portAt i = some port → w'.portAt i = some port)
    (htags : w'.tags = w'.client.portlist.map ownTags)
    (hgood : ∀ e ∈ w'.records, e.Good) : Sound w' := by
  obtain ⟨hpc, hclosed, hind⟩ := hclient
  obtain ⟨hframe, hthreads⟩ := hrest
  refine ⟨?_, hports _ _ h.control, htags, fun q t ht p hp => ?_, fun hc i hi port hport => ?_,
    fun hline => ?_, hgood⟩
  · rw [hpc]
    exact h.fine
  · rw [hthreads] at ht
    exact hports _ _ (h.held q t ht p hp)
  · rw [hclosed] at hc
    rw [hind] at hi
    rw [hframe] at hport
    exact hports _ _ (h.selected hc i hi port hport)
  · rw [hpc] at hline
    obtain ⟨i, hi, port, hport, hat⟩ := h.line hline
    rw [hind, hframe]
    exact ⟨i, hi, port, hport, hports _ _ hat⟩

/-- A thread goes on with an index of its port, or with none. -/
theorem Sound.setTask (h : Sound w) {t : Task} (ht : ∀ p ∈ t.held, w.portAt p.2 = some p.1) :
    Sound (w.setTask r t) := by
  refine ⟨h.fine, h.control, h.tags, fun q t' ht' p hp => ?_, h.selected, h.line, h.good⟩
  have ht' : (w.threads.set r t)[q]? = some t' := ht'
  rcases eq_or_ne r q with rfl | hne
  · rw [List.getElem?_set_self'] at ht'
    obtain ⟨_, -, rfl⟩ := Option.map_eq_some_iff.mp ht'
    exact ht p hp
  · rw [List.getElem?_set_ne hne] at ht'
    exact h.held q t' ht' p hp

/-- A thread that goes on without an index. -/
theorem Sound.release (h : Sound w) {t : Task} (ht : t.held = none) : Sound (w.setTask r t) := by
  apply h.setTask
  rw [ht]
  exact fun _ hp => nomatch hp

theorem Sound.pushBack (h : Sound w) : Sound (w.pushBack port) := by
  refine h.of_ports ⟨rfl, rfl, rfl⟩ ⟨rfl, rfl⟩ (fun i p hat => ?_) ?_ h.good
  · show ((w.client.portlist ++ [⟨port, false, []⟩])[i]?).map WifiPort.port = some p
    rw [List.getElem?_append_left (lt_of_portAt hat)]
    exact hat
  · show w.tags ++ [[]] = (w.client.portlist ++ [WifiPort.mk port false []]).map ownTags
    rw [List.map_append, h.tags]
    rfl

theorem Sound.clear (h : Sound w) : Sound (w.clear ind) := by
  refine h.of_ports ⟨rfl, rfl, rfl⟩ ⟨rfl, rfl⟩ (fun i p hat => ?_) ?_ h.good
  · rw [portAt_eq] at hat ⊢
    rw [← hat]
    exact congrArg (·[i]?) (map_modify_of_eq (fun e => by rfl) w.client.portlist ind)
  · show w.tags.modify ind (fun _ => []) = _
    rw [h.tags]
    exact (map_modify_comm (fun e => by rfl) w.client.portlist ind).symm

/-- **A character taken from an entry of its port is tagged for it.** -/
theorem Sound.popFront (h : Sound w) {e : WifiPort} (he : w.client.portlist[ind]? = some e)
    (hport : e.port = port) (hbuffer : e.buffer ≠ []) : Sound (w.popFront port ind) := by
  have htail (e : WifiPort) : ownTags { e with buffer := e.buffer.tail } = (ownTags e).tail := by
    unfold ownTags
    rw [List.tail_replicate, List.length_tail]
  refine h.of_ports ⟨rfl, rfl, rfl⟩ ⟨rfl, rfl⟩ (fun i p hat => ?_) ?_ fun e' he' => ?_
  · rw [portAt_eq] at hat ⊢
    rw [← hat]
    exact congrArg (·[i]?) (map_modify_of_eq (fun e => by rfl) w.client.portlist ind)
  · show w.tags.modify ind List.tail = _
    rw [h.tags]
    exact (map_modify_comm htail w.client.portlist ind).symm
  · rcases List.mem_append.mp he' with hold | hnew
    · exact h.good e' hold
    · obtain rfl := List.mem_singleton.mp hnew
      have htags : w.tags[ind]? = some (ownTags e) := by
        rw [h.tags, List.getElem?_map, he]
        rfl
      show (w.tags[ind]?.bind List.head?).join = some port
      obtain ⟨b, bs, hbs⟩ := List.exists_cons_of_ne_nil hbuffer
      rw [htags, Option.bind_some, ownTags, hbs, hport]
      rfl

/-- **An entry is erased** above every index that is held. -/
theorem Sound.eraseAt (h : Sound w) (hmay : w.MayErase none ind) : Sound (w.eraseAt ind) := by
  have hbelow (i : Nat) (hi : i < ind) : (w.eraseAt ind).portAt i = w.portAt i := by
    show ((w.client.portlist.eraseIdx ind)[i]?).map WifiPort.port = _
    rw [List.getElem?_eraseIdx_of_lt hi]
    rfl
  refine ⟨h.fine, ?_, ?_, fun q t ht p hp => ?_, fun hclosed => (nomatch hclosed), fun hline => ?_, h.good⟩
  · rw [hbelow 0 (hmay.1 0 (List.mem_cons_self ..))]
    exact h.control
  · show w.tags.eraseIdx ind = (w.client.portlist.eraseIdx ind).map ownTags
    rw [h.tags, List.eraseIdx_map]
  · have hq : q < w.threads.length := (List.getElem?_eq_some_iff.mp ht).1
    have hget : w.threads.getD q .idle = t := by
      rw [List.getD_eq_getElem?_getD, show w.threads[q]? = some t from ht, Option.getD_some]
    rw [hbelow _ (hmay.2 q hq (fun hr => nomatch hr) p (by rwa [hget]))]
    exact h.held q t ht p hp
  · obtain ⟨i, hi, port, hport, hat⟩ := h.line hline
    have hi' : w.client.ind = some i := hi
    have hlt : i < ind := by
      have hline : w.client.pc = .flush ∨ w.client.pc = .yn := hline
      apply hmay.1
      unfold Webclient.held
      rw [if_pos hline, hi']
      exact List.mem_cons_of_mem _ (List.mem_singleton_self i)
    exact ⟨i, hi, port, hport, (hbelow i hlt).trans hat⟩

/-- The thread that erases lets go of what it holds. -/
theorem MayErase.idle (h : w.MayErase (some r) ind) : (w.setTask r .idle).MayErase none ind := by
  refine ⟨h.1, fun q hq _ p hp => ?_⟩
  have hq : q < (w.threads.set r .idle).length := hq
  have hp : p ∈ ((w.threads.set r .idle).getD q .idle).held := hp
  rw [List.length_set] at hq
  rw [List.getD_eq_getElem?_getD] at hp
  rcases eq_or_ne r q with rfl | hne
  · rw [List.getElem?_set_self hq] at hp
    exact nomatch hp
  · rw [List.getElem?_set_ne hne, ← List.getD_eq_getElem?_getD] at hp
    exact h.2 q hq (fun hr => hne (Option.some.inj hr).symm) p hp

/-- **An entry is erased by a thread** that goes on without an index. -/
theorem Sound.erased (h : Sound w) (hmay : w.MayErase (some r) ind) {t : Task} (ht : t.held = none) :
    Sound ((w.eraseAt ind).setTask r t) := by
  have hlet : Sound (((w.setTask r .idle).eraseAt ind).setTask r t) :=
    ((h.release rfl).eraseAt hmay.idle).release ht
  have heq : ((w.setTask r .idle).eraseAt ind).setTask r t = (w.eraseAt ind).setTask r t := by
    unfold Bench.setTask Bench.eraseAt
    dsimp only
    rw [List.set_set]
  rwa [heq] at hlet

theorem Sound.flush (h : Sound w) (hmay : ∀ i ∈ w.flushed port, w.MayErase none i) :
    Sound (w.flush port) := by
  unfold Bench.flush
  unfold flushed at hmay
  split
  · exact h
  · next i hi =>
    split
    · next hclosed =>
      refine h.clear.eraseAt (hmay i ?_)
      rw [hi, Option.filter_some, if_pos hclosed]
      rfl
    · exact h.clear

/-! ## §2 — threads -/

/-- **How a call goes on behind a read.** -/
theorem goOn_spec (r : Nat) (port : Int) (ind : Nat) (k : ReadFor) (got : Option UInt8) :
    ∃ t : Task, (∀ w : Bench, w.goOn r port ind k got = w.setTask r t) ∧
      (∀ p ∈ t.held, p = (port, ind)) ∧ (k.finishes got = true → t.held = none) := by
  cases k with
  | read => exact ⟨.idle, fun _ => rfl, fun p hp => (nomatch hp), fun _ => rfl⟩
  | readln k msg crseen =>
    cases got with
    | none => exact ⟨.line k msg, fun _ => rfl, fun p hp => (nomatch hp), fun _ => rfl⟩
    | some c =>
      by_cases hend : c = chr '\n' ∧ crseen = true
      · refine ⟨.line k msg, fun w => ?_, fun p hp => (nomatch hp), fun _ => rfl⟩
        unfold goOn
        exact if_pos hend
      · have hmore : ReadFor.finishes (.readln k msg crseen) (some c) = false := by
          unfold ReadFor.finishes
          rw [Bool.eq_false_iff]
          exact fun h => hend ((Bool.and_eq_true_iff.mp h).imp_left beq_iff_eq.mp)
        unfold goOn
        by_cases hcr : c = chr '\r'
        · refine ⟨.reading port ind (.readln k (if crseen then msg ++ [chr '\r'] else msg) true) none,
            fun w => ?_, fun p hp => (Option.some.inj hp).symm, fun h => nomatch hmore.symm.trans h⟩
          dsimp only
          rw [if_neg hend, if_pos hcr]
        · refine ⟨.reading port ind
              (.readln k ((if crseen then msg ++ [chr '\r'] else msg) ++ [c]) false) none,
            fun w => ?_, fun p hp => (Option.some.inj hp).symm, fun h => nomatch hmore.symm.trans h⟩
          dsimp only
          rw [if_neg hend, if_neg hcr]

/-- **A read goes on.** -/
theorem Sound.readAt (h : Sound w) {k : ReadFor} (hat : w.portAt ind = some port)
    (hdrained : ∀ e ∈ w.client.portlist[ind]?, drains e = true →
      w.MayErase (some r) ind ∧ k.finishes e.buffer.head? = true) : Sound (w.readAt r port ind k) := by
  obtain ⟨e, he, hport⟩ := Option.map_eq_some_iff.mp hat
  have hdrained := hdrained e he
  obtain ⟨t, hgo, hheld, hdone⟩ := goOn_spec r port ind k e.buffer.head?
  unfold Bench.readAt
  rw [he]
  dsimp only
  split
  · next hnil =>
    rw [hnil] at hgo hdone
    split
    · next hclosed =>
      obtain ⟨hmay, hfin⟩ := hdrained (by unfold drains; rw [hnil, hclosed]; rfl)
      rw [hnil] at hfin
      rw [show (w.eraseAt ind).goOn r port ind k none = _ from hgo _]
      exact h.erased hmay (hdone hfin)
    · exact h.setTask fun p hp => by rw [← Option.some.inj hp, hat]
  · next b bs hcons =>
    rw [hcons] at hgo hdone hdrained
    have hpop : Sound (w.popFront port ind) := h.popFront he hport (by rw [hcons]; exact List.cons_ne_nil _ _)
    split
    · next hdrains =>
      obtain ⟨hmay, hfin⟩ := hdrained hdrains
      rw [show ((w.popFront port ind).eraseAt ind).goOn r port ind k (some b) = _ from hgo _]
      exact hpop.erased hmay (hdone hfin)
    · rw [show (w.popFront port ind).goOn r port ind k (some b) = _ from hgo _]
      apply hpop.setTask
      intro p hp
      rw [hheld p hp, portAt_eq]
      rw [portAt_eq] at hat
      rw [← hat]
      exact congrArg (·[ind]?) (map_modify_of_eq (fun e => by rfl) w.client.portlist ind)

theorem Sound.startRead (h : Sound w) : Sound (w.startRead r port) := by
  unfold Bench.startRead
  split
  · exact h
  · next i hi => exact h.setTask fun p hp => by rw [← Option.some.inj hp]; exact portAt_getind hi

theorem Sound.startLine (h : Sound w) {k : LineFor} : Sound (w.startLine r port k) := by
  unfold Bench.startLine
  split
  · exact h.release rfl
  · next i hi => exact h.setTask fun p hp => by rw [← Option.some.inj hp]; exact portAt_getind hi

theorem Sound.sendf (h : Sound w) {room : Nat} {k : SendFor} {text : Bytes} :
    Sound (w.sendf r room k text) := by
  unfold Bench.sendf
  refine Sound.release ?_ rfl
  exact ⟨h.fine, h.control, h.tags, h.held, h.selected, h.line, h.good⟩

theorem Sound.sent (h : Sound w) {k : SendFor} : Sound (w.sent r k) := by
  cases k with
  | connectclient toport => exact h.pushBack.startLine
  | done => exact h.release rfl

variable {fromString : Bytes → Option UInt32}

/-- **A call goes on behind its line.** -/
theorem Sound.lineDone (h : Sound w) {room : Nat} {luck : Bool} {k : LineFor} {msg : Bytes}
    (hclear : ∀ toport, k = .connectclient toport →
      (isAccepted msg = false → ∀ i ∈ getind w.client.portlist (asInt toport), w.MayErase (some r) i) ∧
        (isAccepted msg = true → macOk msg = false →
          getind w.client.portlist (asInt toport) ≠ none)) :
    Sound (w.lineDone fromString r room luck k msg) := by
  cases k with
  | readln => exact h.release rfl
  | expectconnect ip port =>
    unfold Bench.lineDone
    dsimp only
    split
    · exact h.pushBack.sendf
    · exact h.sendf
  | connectclient toport =>
    obtain ⟨hrefused, hmalformed⟩ := hclear toport rfl
    unfold Bench.lineDone
    dsimp only
    by_cases haccepted : isAccepted msg = false
    · rw [if_pos haccepted]
      split
      · exact h.release rfl
      · next i hi => exact h.erased (hrefused haccepted i hi) rfl
    · rw [if_neg haccepted]
      split
      · next hmac =>
        split
        · next hnone => exact absurd hnone (hmalformed (Bool.eq_true_of_not_eq_false haccepted) hmac)
        · exact h.release rfl
      · exact h.release rfl

/-- **A thread goes on.** -/
theorem Sound.turn (h : Sound w) {room : Nat} {luck : Bool} (hclear : w.Clear (.turn r room luck)) :
    Sound (w.turn fromString r room luck) := by
  unfold Clear at hclear
  dsimp only at hclear
  unfold Bench.turn
  cases htask : w.threads[r]? with
  | none => exact h
  | some t =>
    rw [htask] at hclear
    cases t with
    | idle => exact h
    | reading port ind k since =>
      dsimp only
      split
      · exact h
      · next hsince => exact h.readAt (h.held r _ htask (port, ind) rfl) (hclear hsince)
    | line k msg =>
      apply h.lineDone
      rintro toport rfl
      exact hclear
    | sending k left =>
      dsimp only
      split
      · exact h.release rfl
      · exact h.sent

/-- **One step.** -/
theorem Sound.step (h : Sound w) {e : Step} (hclear : w.Clear e) : Sound (w.step fromString e) := by
  cases e with
  | rx c => exact h.rx hclear
  | read r port =>
    show Sound (if w.free r then w.startRead r port else w)
    split
    · exact h.startRead
    · exact h
  | readln r port =>
    show Sound (if w.free r then w.startLine r port .readln else w)
    split
    · exact h.startLine
    · exact h
  | flush port => exact h.flush hclear
  | expectconnect r ip port =>
    show Sound (if w.free r then _ else w)
    split
    · exact (h.flush hclear).startLine
    · exact h
  | connectclient r room toip toport =>
    show Sound (if w.free r then _ else w)
    split
    · exact (h.flush hclear).sendf
    · exact h
  | openudpport port => exact h.pushBack
  | turn r room luck => exact h.turn hclear

/-! ## §3 — runs -/

/-- **Ports are kept apart** in every run whose steps do not touch what another one holds. -/
theorem ports_isolated (fromString : Bytes → Option UInt32) (n : Nat) (es : List Step)
    (hclear : Throughout Clear (step fromString) (start n) es) :
    Always Isolated (step fromString) [] (start n) es :=
  always_of_throughout (I := fun _ => Sound) (fun _ _ h => ⟨h.fine, h.good⟩)
    (fun _ _ _ h hok => h.step hok) es [] (start n) (sound_start n) hclear

/-- Port 81 is opened, gets a character and is closed; it is read until nothing is left of it. -/
def opened : List Step :=
  ([.openudpport 80, .openudpport 81, .read 0 81, .turn 0 0 false] : List Step) ++
    (0xff :: str "81:x").map Step.rx ++ ([.turn 0 0 false] : List Step) ++
    (0xff :: str "81!\n").map Step.rx ++ ([.read 0 81, .turn 0 0 false] : List Step)

theorem ports_isolated_opened :
    Throughout Clear (step fun _ => none) (start 1) opened ∧
      Always Isolated (step fun _ => none) [] (start 1) opened :=
  have h : Throughout Clear (step fun _ => none) (start 1) opened := by decide +kernel
  ⟨h, ports_isolated (fun _ => none) 1 opened h⟩

/-- A read waits on port 81, and port 80, whose entry is before that one, is closed and flushed. Then
data comes for port 82. -/
def shifted : List Step :=
  ([.openudpport 80, .openudpport 81, .openudpport 82, .read 0 81, .turn 0 0 false] : List Step) ++
    (0xff :: str "80!\n").map Step.rx ++ ([.flush 80] : List Step) ++
    (0xff :: str "82:x").map Step.rx ++ ([.turn 0 0 false] : List Step)

/-- The read on port 81 returns it. -/
theorem port_shifted : ¬ Always Isolated (step fun _ => none) [] (start 1) shifted := by
  intro h
  have hlast : (shifted.foldl (step fun _ => none) (start 1)).records =
      [.changed (some 80) (some 80), .changed (some 82) (some 82), .returned 81 (some 82)] := by
    decide +kernel
  have hgood := h.last.2 (.returned 81 (some 82)) (by rw [hlast]; decide)
  exact nomatch (show some (82 : Int) = some 81 from hgood)

end Bench

end Espmod.Web
