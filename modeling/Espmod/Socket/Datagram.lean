/-
# Espmod.Socket.Datagram — where the payload of an incoming datagram goes

A datagram `0xff s a.b.c.d:p:` is meant for the socket of type `DGRAM` bound to port `p`.
`takerequest` looks for a *listening* descriptor, and no `DGRAM` socket ever listens: the index the
payload goes to is the one that was selected before, whoever it belongs to. `datagram_delivered` says
for which states that index happens to be the right one.
-/
import Espmod.Socket.Feed

namespace Espmod.Socket

open Espmod.Lib Espmod.Lib.Text Sockets

/-- The socket a datagram to a port is meant for. -/
def Fd.boundTo (f : Fd) (port : Int) : Prop := f.type = .DGRAM ∧ f.bound = true ∧ f.port = port

instance (f : Fd) (port : Int) : Decidable (f.boundTo port) := by
  unfold Fd.boundTo
  infer_instance

/-! ## §1 — what is promised -/

/-- **The delivery of a datagram**: the payload is appended to the buffer of a socket bound to its
port, or to none when there is no such socket, and the receiver survives. -/
structure Delivered (s r : Sockets) (port : Int) (payload : Bytes) : Prop where
  running : r.pc ≠ .crashed
  found : (∃ f ∈ s.fdlist, f.boundTo port) →
    ∃ i f, s.fdlist[i]? = some f ∧ f.boundTo port ∧ r.fdlist = update s.fdlist i (·.push payload)
  dropped : (∀ f ∈ s.fdlist, ¬ f.boundTo port) → r.fdlist = s.fdlist

/-- The index is that of a socket bound to the port, or none where there is no such socket. -/
def RightIndex (fdlist : List Fd) (port : Int) : Option Nat → Prop
  | none => ∀ f ∈ fdlist, ¬ f.boundTo port
  | some ind => ∃ f ∈ fdlist[ind]?, f.boundTo port

instance (fdlist : List Fd) (port : Int) (sel : Option Nat) :
    Decidable (RightIndex fdlist port sel) := by
  cases sel <;> unfold RightIndex <;> infer_instance

/-- A socket of the third type listens on the port. -/
def Seqpacket (fdlist : List Fd) (port : Int) : Prop :=
  ∃ f ∈ fdlist, f.islistening = true ∧ f.port = port ∧ f.type = .SEQPACKET

instance (fdlist : List Fd) (port : Int) : Decidable (Seqpacket fdlist port) := by
  unfold Seqpacket
  infer_instance

/-- The index selected before the datagram is right for it, and nothing else takes it. -/
def selectedRight (s : Sockets) (port : Int) : Prop :=
  RightIndex s.fdlist port s.selected ∧ (s.portclosed = true ∨ ¬ Seqpacket s.fdlist port)

instance (s : Sockets) (port : Int) : Decidable (selectedRight s port) := by
  unfold selectedRight
  infer_instance

/-! ## §2 — the header -/

section Header

variable {s : Sockets} {port : Int}

/-- The text of a datagram header, as `espm_sendto` prints it. -/
def headerText (a b c d : UInt8) (port : UInt16) : Bytes :=
  chr ' ' :: (showNat 10 a.toNat ++ chr '.' :: (showNat 10 b.toNat ++ chr '.' ::
    (showNat 10 c.toNat ++ chr '.' :: (showNat 10 d.toNat ++ chr ':' ::
      (showNat 10 port.toNat ++ [chr ':'])))))

/-- **A printed header is a header** of its port. -/
theorem header_printed (a b c d : UInt8) (port : UInt16) :
    Header (headerText a b c d port) port.toNat := by
  have hblank : ∀ n : Nat, (showNat 10 n).filter (· ≠ chr ' ') = showNat 10 n := by
    intro n
    refine List.filter_eq_self.mpr fun x hx => ?_
    simpa using fun h : x = chr ' ' => notMem_decimal n (by decide) (h ▸ hx)
  have hlf : ∀ n : Nat, chr '\n' ∉ showNat 10 n := fun n => notMem_decimal n (by decide)
  have hcolon : ∀ n : Nat, chr ':' ∉ showNat 10 n := fun n => notMem_decimal n (by decide)
  have hdot : chr '.' ≠ chr ' ' ∧ chr ':' ≠ chr ' ' ∧ chr '\n' ≠ chr '.' ∧ chr ':' ≠ chr '.' ∧
    chr '\n' ≠ chr ' ' := by decide
  refine ⟨⟨chr ' ' :: (showNat 10 a.toNat ++ chr '.' :: (showNat 10 b.toNat ++ chr '.' ::
    (showNat 10 c.toNat ++ chr '.' :: showNat 10 d.toNat))), showNat 10 port.toNat, ?_, ?_, ?_, hlf _,
    hcolon _⟩, ?_⟩
  · simp [headerText]
  · simp [hlf, hdot]
  · simp [hcolon, hdot]
  · have hfilter : (headerText a b c d port).filter (· ≠ chr ' ') =
        showNat 10 a.toNat ++ chr '.' :: (showNat 10 b.toNat ++ chr '.' ::
          (showNat 10 c.toNat ++ chr '.' :: (showNat 10 d.toNat ++ chr ':' ::
            (showNat 10 port.toNat ++ [chr ':'])))) := by
      simp only [headerText, List.filter_append, List.filter_cons, hblank]
      simp [hdot]
    have hcstr : cstr ((headerText a b c d port).filter (· ≠ chr ' ')) =
        (headerText a b c d port).filter (· ≠ chr ' ') := by
      have hzero : ∀ n : Nat, (0 : UInt8) ∉ showNat 10 n := fun n => notMem_decimal n (by decide)
      have hne : (0 : UInt8) ≠ chr '.' ∧ (0 : UInt8) ≠ chr ':' := by decide
      refine cstr_of_notMem ?_
      rw [hfilter]
      simp [hzero, hne]
    have hstop : ∀ (x : UInt8) (xs : Bytes), x = chr '.' ∨ x = chr ':' → DecimalStop (x :: xs) := by
      rintro x xs (rfl | rfl)
      · exact decimalStop_cons (by decide) (by decide)
      · exact decimalStop_cons (by decide) (by decide)
    have hbyte : ∀ x : UInt8, x.toNat < 2 ^ 31 := fun x => by have := x.toNat_lt; omega
    have hport : port.toNat < 2 ^ 31 := by have := port.toNat_lt; omega
    refine ⟨a.toNat, b.toNat, c.toNat, d.toNat, ?_⟩
    rw [hcstr, hfilter, fmtRequest, scanf_convD (hbyte a) (hstop _ _ (.inl rfl)), scanf_lit,
      scanf_convD (hbyte b) (hstop _ _ (.inl rfl)), scanf_lit,
      scanf_convD (hbyte c) (hstop _ _ (.inl rfl)), scanf_lit,
      scanf_convD (hbyte d) (hstop _ _ (.inr rfl)), scanf_lit,
      scanf_convD hport (hstop _ _ (.inr rfl))]
    rfl

theorem receiver_datagram_none :
    receiver s.fdlist false port = none ↔ ¬ Seqpacket s.fdlist port := by
  rw [receiver, List.findIdx?_eq_none_iff]
  constructor
  · rintro h ⟨f, hf, hlis, hport, htype⟩
    have hno := h f hf
    rw [hlis, hport, htype] at hno
    simp at hno
  · intro h f hf
    rw [Bool.eq_false_iff]
    intro htrue
    simp only [Bool.and_eq_true, Bool.or_eq_true, beq_iff_eq, bne_iff_ne, ne_eq,
      Bool.not_eq_true'] at htrue
    obtain ⟨⟨hlis, hport⟩, ⟨hfalse, -⟩ | ⟨-, htype⟩⟩ := htrue
    · simp at hfalse
    · refine h ⟨f, hf, hlis, hport, ?_⟩
      simp only [Fd.islistening, Bool.and_eq_true, Bool.or_eq_true, beq_iff_eq] at hlis
      exact hlis.1.1.resolve_left htype

/-- **A datagram header leaves the table alone and selects a socket of the third type, or leaves the
selection alone.** -/
theorem takerequest_datagram {msg : Bytes} (hmsg : requests msg port) (room : Nat) :
    ∃ ind, s.takerequest room false msg = { s with pc := .top, ind := ind } ∧
      (¬ Seqpacket s.fdlist port → ind = s.ind) ∧
      (Seqpacket s.fdlist port → ∃ it f, ind = some it ∧ s.fdlist[it]? = some f ∧ ¬ f.boundTo port) := by
  have hans := s.takerequest_answered room false msg
  generalize s.takerequest room false msg = r at hans
  cases hans with
  | unread hno => exact absurd hmsg (hno port)
  | @nobody port' hmsg' hnone =>
    obtain rfl := requests_unique hmsg hmsg'
    exact ⟨s.ind, rfl, fun _ => rfl, fun hseq => absurd hseq (receiver_datagram_none.mp hnone)⟩
  | @datagram port' it f hmsg' hrec hf hlis hport htype =>
    obtain rfl := requests_unique hmsg hmsg'
    have hseq : Seqpacket s.fdlist port := ⟨f, List.mem_of_getElem? hf, hlis, hport, htype⟩
    have hother : ¬ f.boundTo port := fun hb => by simp [Fd.boundTo, htype] at hb
    exact ⟨some it, rfl, fun hno => absurd hseq hno, fun _ => ⟨it, f, rfl, hf, hother⟩⟩

end Header

/-! ## §3 — the payload -/

section Payload

variable {s r : Sockets} {port : Int} {payload : Bytes}

/-- Appending something shows where it was appended. -/
theorem update_push_inj {fdlist : List Fd} {i j : Nat} (hne : payload ≠ []) (hi : i < fdlist.length)
    (h : update fdlist i (·.push payload) = update fdlist j (·.push payload)) : i = j := by
  by_contra hij
  have hget : fdlist[i]? = some fdlist[i] := List.getElem?_eq_getElem hi
  have h₁ := update_getElem? hget i (·.push payload)
  have h₂ := update_getElem? hget j (·.push payload)
  rw [if_pos rfl] at h₁
  rw [if_neg (Ne.symm hij), ← h, h₁] at h₂
  have hbuffer := congrArg Fd.buffer (Option.some.inj h₂)
  simp [Fd.push, hne] at hbuffer

theorem update_push_ne {fdlist : List Fd} {i : Nat} (hne : payload ≠ []) (hi : i < fdlist.length) :
    update fdlist i (·.push payload) ≠ fdlist := by
  intro h
  have hget : fdlist[i]? = some fdlist[i] := List.getElem?_eq_getElem hi
  have h₁ := update_getElem? hget i (·.push payload)
  rw [h, hget, if_pos rfl] at h₁
  have hbuffer := congrArg Fd.buffer (Option.some.inj h₁)
  simp [Fd.push, hne] at hbuffer

/-- A payload appended at an index is delivered exactly when the index is right. -/
theorem delivered_iff_rightIndex {sel : Option Nat} (hne : payload ≠ [])
    (hlt : ∀ ind ∈ sel, ind < s.fdlist.length) (htook : Took s r sel payload) :
    Delivered s r port payload ↔ RightIndex s.fdlist port sel := by
  have hrun : r.pc ≠ .crashed := by simp [htook.pc]
  cases sel with
  | none =>
    have hf : r.fdlist = s.fdlist := htook.fdlist
    constructor
    · rintro h f hmem hbound
      obtain ⟨i, g, hg, -, heq⟩ := h.found ⟨f, hmem, hbound⟩
      exact update_push_ne hne (List.getElem?_eq_some_iff.mp hg).1 (heq.symm.trans hf)
    · intro h
      exact ⟨hrun, fun ⟨f, hmem, hbound⟩ => absurd hbound (h f hmem), fun _ => hf⟩
  | some ind =>
    have hf : r.fdlist = update s.fdlist ind (·.push payload) := htook.fdlist
    have hind := hlt ind rfl
    constructor
    · intro h
      by_cases hbound : ∃ f ∈ s.fdlist, f.boundTo port
      · obtain ⟨i, g, hg, hgb, heq⟩ := h.found hbound
        have hi : ind = i := update_push_inj hne hind (hf.symm.trans heq)
        exact ⟨g, hi ▸ hg, hgb⟩
      · have hnone : ∀ f ∈ s.fdlist, ¬ f.boundTo port := fun f hmem hb => hbound ⟨f, hmem, hb⟩
        exact absurd (hf.symm.trans (h.dropped hnone)) (update_push_ne hne hind)
    · rintro ⟨f, hget, hbound⟩
      exact ⟨hrun, fun _ => ⟨ind, f, hget, hbound, hf⟩,
        fun hnone => absurd hbound (hnone f (List.mem_of_getElem? hget))⟩

/-- An empty payload is always delivered. -/
theorem delivered_nil (hrun : r.pc ≠ .crashed) (hf : r.fdlist = s.fdlist) :
    Delivered s r port [] := by
  refine ⟨hrun, ?_, fun _ => hf⟩
  rintro ⟨f, hmem, hbound⟩
  obtain ⟨i, hi⟩ := List.mem_iff_getElem?.mp hmem
  refine ⟨i, f, hi, hbound, ?_⟩
  have hpush : (fun f : Fd => f.push []) = id := by
    funext g
    simp [Fd.push]
  rw [hf, update, hpush, List.modify_id]

/-- **Datagram delivery.** From any table and any earlier selection, a datagram with its payload is
delivered exactly when it has none, or the index selected before it is the right one. -/
theorem datagram_delivered (s : Sockets) (room : Nat) {text : Bytes} {port : Int} (payload : Bytes)
    (hpc : s.pc = .top) (htext : Header text port) :
    Delivered s (s.feed room ((0xff :: chr 's' :: text) ++ escaped payload)) port payload ↔
      payload = [] ∨ selectedRight s port := by
  obtain ⟨ind, hhead, hkeep, hseq⟩ := takerequest_datagram (s := s) htext.request room
  rw [feed_append, feed_header hpc htext, hhead]
  by_cases hne : payload = []
  · subst hne
    simp only [true_or, iff_true]
    exact delivered_nil (by simp [escaped]) rfl
  · simp only [hne, false_or]
    set s₁ : Sockets := { s with pc := .top, ind := ind } with hs₁
    have hsel : s₁.selected = if s.portclosed then getnotlisten s.fdlist s.port else ind := rfl
    -- the payload goes to `s₁.selected`, or outside the table
    have hright : Delivered s (s₁.feed room (escaped payload)) port payload ↔
        RightIndex s.fdlist port s₁.selected := by
      by_cases hlt : ∀ i ∈ s₁.selected, i < s.fdlist.length
      · have htook : Took s (s₁.feed room (escaped payload)) s₁.selected payload := by
          have h : Took s₁ (s₁.feed room (escaped payload)) s₁.selected payload :=
            feed_payload rfl hne hlt
          exact ⟨h.fdlist, h.pc, h.ind, h.portclosed, h.port⟩
        exact delivered_iff_rightIndex hne hlt htook
      · simp only [not_forall, not_lt] at hlt
        obtain ⟨i, hi, hge⟩ := hlt
        have hcrash : (s₁.feed room (escaped payload)).pc = .crashed :=
          feed_payload_crashes rfl hne hi hge
        constructor
        · intro h
          exact absurd hcrash h.running
        · intro h
          have hi' : s₁.selected = some i := hi
          rw [hi'] at h
          obtain ⟨f, hget, -⟩ := h
          have := (List.getElem?_eq_some_iff.mp hget).1
          omega
    rw [hright, hsel, selectedRight, selected]
    cases hclosed : s.portclosed with
    | true => simp
    | false =>
      simp only [Bool.false_eq_true, if_false, false_or]
      by_cases hs : Seqpacket s.fdlist port
      · obtain ⟨it, f, rfl, hget, hother⟩ := hseq hs
        constructor
        · rintro ⟨g, hg, hb⟩
          exact absurd (Option.some.inj (hget.symm.trans hg) ▸ hb) hother
        · exact fun h => absurd hs h.2
      · rw [hkeep hs]
        simp [hs]

end Payload

/-! ## §4 — two sockets -/

/-- A `DGRAM` socket bound to port 5000 and a stream socket bound to port 80. -/
def twoSockets : Sockets :=
  [.socket AF_INET .DGRAM 0, .bind 2 (some 5000), .socket AF_INET .STREAM 0,
    .bind 3 (some 80)].foldl Sockets.step Sockets.boot

/-- The data selected before was for port 5000 itself. -/
theorem datagram_delivered_afterItsOwn :
    Delivered (twoSockets.feed 100 (0xff :: str "5000:"))
      ((twoSockets.feed 100 (0xff :: str "5000:")).feed 100
        ((0xff :: chr 's' :: str " 1.2.3.4:5000:") ++ escaped (str "x"))) 5000 (str "x") :=
  (datagram_delivered _ 100 (str "x") (by decide) (header_printed 1 2 3 4 5000)).mpr
    (.inr (by decide))

/-- **After data of the stream socket its payload goes there**: the byte is in the buffer of
descriptor 3, which is no `DGRAM` socket. -/
theorem datagram_delivered_afterStream :
    ¬ Delivered (twoSockets.feed 100 (0xff :: str "80:"))
      ((twoSockets.feed 100 (0xff :: str "80:")).feed 100
        ((0xff :: chr 's' :: str " 1.2.3.4:5000:") ++ escaped (str "x"))) 5000 (str "x") := by
  intro h
  obtain ⟨i, f, hf, hbound, heq⟩ := h.found (by decide)
  have hlen : i < 3 := (List.getElem?_eq_some_iff.mp hf).1
  have hno : ∀ j < 3, ∀ g : Fd, g ∈ (twoSockets.feed 100 (0xff :: str "80:")).fdlist[j]? → g.boundTo 5000 →
      (((twoSockets.feed 100 (0xff :: str "80:")).feed 100
        ((0xff :: chr 's' :: str " 1.2.3.4:5000:") ++ escaped (str "x"))).fdlist)[j]? ≠
        some (g.push (str "x")) := by decide
  have hbuffer : (((twoSockets.feed 100 (0xff :: str "80:")).feed 100
      ((0xff :: chr 's' :: str " 1.2.3.4:5000:") ++ escaped (str "x"))).fdlist)[i]? =
      some (f.push (str "x")) := by
    rw [heq, update_getElem? hf, if_pos rfl]
  exact hno i hlen f hf hbound hbuffer

end Espmod.Socket
