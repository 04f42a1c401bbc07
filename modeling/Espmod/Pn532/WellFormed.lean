/-
# Espmod.Pn532.WellFormed — the responses of the PN532 model are frames

Each branch of `pushresp` names the length of its frame in front of a list of pushes, and the checksum is
added up by `pushandcalc`, which the preamble and the checksum itself must not go through. The length of a
card list depends on the number of cards and on the length of an identifier, of which four bytes are
pushed, whatever it is: the frame is right because there is never more than one card and its identifier
has four bytes.

A response is pushed a byte at a time and longer ones wait for room, while the parser and the card change
what the rest of it is read from. The frame stays one: what was pushed is added to the checksum as it was
pushed, and after the sixteen bytes that have room at once the number of bytes to come is fixed.
-/
import Espmod.Pn532.Ordering

namespace Espmod.Pn532

open Espmod.Lib.Text (Bytes)

/-! ## §1 — frames -/

/-- A preamble, a length and its complement, so many bytes from the TFI on, the checksum that makes their
sum zero, and a zero. -/
def WellFormed (bs : Bytes) : Prop :=
  ∃ (len lcs : UInt8) (payload : Bytes) (dcs : UInt8),
    bs = [0x00, 0x00, 0xFF, len, lcs] ++ payload ++ [dcs, 0x00] ∧ len + lcs = 0 ∧
      payload.length = len.toNat ∧ payload.sum + dcs = 0

/-- `0x100-cksum` makes up a sum. -/
theorem add_dcs (cksum : UInt8) : cksum + UInt8.ofNat (0x100 - cksum.toNat) = 0 := by
  have hlt := cksum.toNat_lt
  apply UInt8.toNat.inj
  rw [UInt8.toNat_add, UInt8.toNat_ofNat', UInt8.toNat_zero, Nat.add_mod_mod]
  have hsum : cksum.toNat + (0x100 - cksum.toNat) = 2 ^ 8 := by omega
  rw [hsum, Nat.mod_self]

/-- `0x100-len` makes up a length that fits in a byte. -/
theorem add_lcs {len : Nat} (h : len < 0x100) : UInt8.ofNat len + UInt8.ofNat (0x100 - len) = 0 := by
  have hbyte : (UInt8.ofNat len).toNat = len := by
    rw [UInt8.toNat_ofNat', Nat.mod_eq_of_lt h]
  have hsum := add_dcs (UInt8.ofNat len)
  rwa [hbyte] at hsum

/-- **A frame with the length of its payload** is well formed. -/
theorem wellFormed_pushframe {len : Nat} (cmd : UInt8) (packet : Bytes) (hlen : packet.length + 2 = len)
    (hbyte : len < 0x100) : WellFormed (pushframe len cmd packet) := by
  refine ⟨UInt8.ofNat len, UInt8.ofNat (0x100 - len), 0xd5 :: cmd :: packet, _, rfl, add_lcs hbyte, ?_, ?_⟩
  · rw [UInt8.toNat_ofNat', Nat.mod_eq_of_lt hbyte, List.length_cons, List.length_cons]
    exact hlen
  · rw [List.sum_cons, List.sum_cons, ← UInt8.add_assoc]
    exact add_dcs _

theorem wellFormed_pushsyntaxerr : WellFormed pushsyntaxerr := ⟨0x01, 0xFF, [0x7F], 0x81, rfl, rfl, rfl, rfl⟩

namespace Mif

variable {m : Mif}

/-- **Each of the responses is a frame.** -/
theorem pushresp_wellFormed (hcard : m.OneCard) {resp : Bytes} (h : m.pushresp = some resp) :
    WellFormed resp := by
  have hframe : ∀ {len : Nat} {cmd : UInt8} {packet : Bytes},
      some (pushframe len cmd packet) = some resp → packet.length + 2 = len → len < 0x100 →
        WellFormed resp := by
    intro len cmd packet hresp hlen hbyte
    rw [← Option.some.inj hresp]
    exact wellFormed_pushframe cmd packet hlen hbyte
  have hway := m.replies
  rw [pushresp_reply] at h
  generalize m.reply = reply at h hway
  cases hway with
  | targets _ _ htags =>
    -- the list of cards: the one length that is computed
    obtain ⟨hone, huid⟩ := hcard.one htags
    refine hframe h ?_ ?_
    · simp [targets, hone, huid]
    · simp [hone, huid]
  | again _ => cases h
  -- a block has sixteen bytes
  | block _ _ _ => exact hframe h (by simp) (by omega)
  | syntaxerr _ _ =>
    rw [← Option.some.inj h]
    exact wellFormed_pushsyntaxerr
  | _ => exact hframe h rfl (by omega)

end Mif

/-! ## §2 — a response that waits -/

/-- The statement pushes one byte and adds it to the checksum, whatever `mif` is. -/
def Put.Plain : Put → Prop
  | .write _ => False
  | .pushandcalc _ => True
  | .data _ => True
  | .targets _ => False
  | .dcs => False

/-- With these bytes pushed and this one to push, what is left makes a frame of them. -/
inductive Framed (pushed : Bytes) (w : Writer) : Prop where
  /-- in the payload -/
  | payload {len lcs : UInt8} {payload : Bytes} {body : List Put}
      (hpushed : pushed = [0x00, 0x00, 0xFF, len, lcs] ++ payload) (hlcs : len + lcs = 0)
      (hcksum : w.cksum = payload.sum + w.byte) (hrest : w.rest = body ++ Mif.closing)
      (hbody : ∀ p ∈ body, p.Plain) (hlen : payload.length + 1 + body.length = len.toNat)
  /-- at the checksum -/
  | dcs {len lcs : UInt8} {payload : Bytes}
      (hpushed : pushed = [0x00, 0x00, 0xFF, len, lcs] ++ payload) (hlcs : len + lcs = 0)
      (hsum : payload.sum + w.byte = 0) (hlen : payload.length = len.toNat)
      (hrest : w.rest = [.write 0x00])
  /-- at the last zero -/
  | zero (hframe : WellFormed (pushed ++ [w.byte])) (hrest : w.rest = [])

/-- What the thread pushed in one go, and where it waits then, after what was pushed before: a frame in
part, or all of one. -/
def Sends (pushed : Bytes) : Bytes × Option Writer → Prop
  | (bs, some w) => Framed (pushed ++ bs) w
  | (bs, none) => bs ≠ [] ∧ WellFormed (pushed ++ bs)

/-- What the thread pushes into so many free places, and where it waits then, with `mif` as it is. -/
def Mif.burst (m : Mif) : Nat → Option Writer → Bytes × Option Writer
  | 0, w => ([], w)
  | _ + 1, none => ([], none)
  | room + 1, some w =>
    let r := m.burst room (m.next w.cksum w.rest)
    (w.byte :: r.1, r.2)

variable {pushed : Bytes} {w : Writer}

/-- A frame in part, or all of one, when one more byte is pushed. -/
theorem Framed.next (h : Framed pushed w) (m : Mif) :
    Sends pushed ([w.byte], m.next w.cksum w.rest) := by
  cases h with
  | @payload len lcs payload body hpushed hlcs hcksum hrest hbody hlen =>
    have hmore : pushed ++ [w.byte] = [0x00, 0x00, 0xFF, len, lcs] ++ (payload ++ [w.byte]) := by
      rw [hpushed, List.append_assoc]
    have hsum : (payload ++ [w.byte]).sum = w.cksum := by
      rw [hcksum, List.sum_append, List.sum_singleton]
    rw [hrest]
    cases body with
    | nil =>
      refine .dcs hmore hlcs ?_ ?_ rfl
      · rw [hsum]
        exact add_dcs w.cksum
      · rw [List.length_append]
        exact hlen
    | cons p body =>
      have hrestBody : ∀ q ∈ body, q.Plain := fun q hq => hbody q (List.mem_cons_of_mem _ hq)
      have hlength : (payload ++ [w.byte]).length + 1 + body.length = len.toNat := by
        rw [← hlen, List.length_append, List.length_singleton, List.length_cons]
        omega
      cases p with
      | pushandcalc src => exact .payload hmore hlcs (by rw [hsum]) rfl hrestBody hlength
      | data q => exact .payload hmore hlcs (by rw [hsum]) rfl hrestBody hlength
      | write b => exact (hbody _ (List.mem_cons_self ..)).elim
      | targets i => exact (hbody _ (List.mem_cons_self ..)).elim
      | dcs => exact (hbody _ (List.mem_cons_self ..)).elim
  | @dcs len lcs payload hpushed hlcs hsum hlen hrest =>
    rw [hrest]
    refine .zero ⟨len, lcs, payload, w.byte, ?_, hlcs, hlen, hsum⟩ rfl
    simp [hpushed]
  | zero hframe hrest =>
    rw [hrest]
    exact ⟨List.cons_ne_nil _ _, hframe⟩

/-- **A frame in part** stays one, or is finished, with any number of bytes more. -/
theorem Framed.burst (m : Mif) : ∀ (room : Nat) {pushed : Bytes} {w : Writer}, Framed pushed w →
    Sends pushed (m.burst room (some w)) := by
  intro room
  induction room with
  | zero =>
    intro pushed w h
    show Framed (pushed ++ []) w
    rw [List.append_nil]
    exact h
  | succ room ih =>
    intro pushed w h
    have hnext := h.next m
    show Sends pushed (w.byte :: (m.burst room (m.next w.cksum w.rest)).1,
      (m.burst room (m.next w.cksum w.rest)).2)
    cases hw : m.next w.cksum w.rest with
    | none =>
      rw [hw] at hnext
      cases room <;> exact hnext
    | some w' =>
      rw [hw] at hnext
      have hrest := ih (show Framed (pushed ++ [w.byte]) w' from hnext)
      generalize m.burst room (some w') = r at hrest
      obtain ⟨bs, w''⟩ := r
      cases w'' with
      | none => exact ⟨List.cons_ne_nil _ _, by simpa using hrest.2⟩
      | some w'' =>
        show Framed (pushed ++ w.byte :: bs) w''
        simpa [Sends] using hrest

theorem Sends.append {front bs : Bytes} {next : Option Writer} (h : Sends (pushed ++ front) (bs, next))
    (hfront : front ≠ []) : Sends pushed (front ++ bs, next) := by
  cases next with
  | none => exact ⟨List.append_ne_nil_of_left_ne_nil hfront bs, by rw [← List.append_assoc]; exact h.2⟩
  | some w =>
    show Framed (pushed ++ (front ++ bs)) w
    rw [← List.append_assoc]
    exact h

namespace Mif

variable {m : Mif}

/-- **A frame of so many bytes**, none of them from the loop over the targets. -/
theorem sends_frame (m : Mif) {len : Nat} (cmd : UInt8) {body : List Put} (hbody : ∀ p ∈ body, p.Plain)
    (hlen : body.length + 2 = len) (hbyte : len < 0x100) :
    Sends [] (m.burst Pn532Base.toSize (m.next 0 (pushpreamble len cmd ++ body ++ closing))) := by
  have hfirst : Framed [0x00, 0x00, 0xFF, UInt8.ofNat len, UInt8.ofNat (0x100 - len)]
      ⟨0xd5, 0 + 0xd5, .pushandcalc (.const cmd) :: body ++ closing, none⟩ := by
    refine .payload (List.append_nil _).symm (add_lcs hbyte) rfl rfl ?_ ?_
    · intro p hp
      rcases List.mem_cons.mp hp with rfl | hp
      · trivial
      · exact hbody p hp
    · rw [UInt8.toNat_ofNat', Nat.mod_eq_of_lt hbyte, List.length_nil, List.length_cons]
      omega
  have hrest : Sends ([] ++ [0x00, 0x00, 0xFF, UInt8.ofNat len, UInt8.ofNat (0x100 - len)]) _ :=
    hfirst.burst m 11
  exact hrest.append (List.cons_ne_nil _ _)

theorem next_targets_one (h : m.tags = 1) (cksum : UInt8) (ps : List Put) :
    m.next cksum (.targets 1 :: ps) = some ⟨1, cksum + 1,
      .pushandcalc .sensHigh :: .pushandcalc .sensLow :: .pushandcalc .selRes ::
        .pushandcalc .uidLength :: .targets 2 :: ps, none⟩ := by
  rw [next, if_pos (by rw [h]; exact Nat.le_refl 1)]
  rfl

theorem next_targets_two (h : m.tags = 1) (cksum : UInt8) (ps : List Put) :
    m.next cksum (.targets 2 :: ps) = m.next cksum ps := by
  rw [next, if_neg (by rw [h]; exact Nat.not_succ_le_self 1)]

/-- **The list of one card**: the loop over the targets is over within the bytes that have room at once. -/
theorem sends_card (hone : m.tags = 1) (huid : m.uidLength = 4) :
    Sends [] (m.burst Pn532Base.toSize (m.next 0 (pushpreamble
      (1 + 1 + m.tags.toNat * (1 + 2 + 1 + 1 + m.uidLength.toNat) + 1) 0x4B ++
        [Put.pushandcalc .tags, .targets 1, .pushandcalc .uid24, .pushandcalc .uid16, .pushandcalc .uid8,
          .pushandcalc .uid0] ++ closing))) := by
  have hlen : 1 + 1 + m.tags.toNat * (1 + 2 + 1 + 1 + m.uidLength.toNat) + 1 = 12 := by
    rw [hone, huid]
    rfl
  -- the first of the bytes behind the loop, after thirteen
  have hcard : Framed ([0x00, 0x00, 0xFF, 12, 0xF4] ++ [0xd5, 0x4B, m.tags, 1,
      Source.sensHigh.read m, Source.sensLow.read m, m.selRes, m.uidLength])
      ⟨Source.uid24.read m, 0 + 0xd5 + 0x4B + m.tags + 1 + Source.sensHigh.read m +
          Source.sensLow.read m + m.selRes + m.uidLength + Source.uid24.read m,
        [Put.pushandcalc .uid16, .pushandcalc .uid8, .pushandcalc .uid0] ++ closing, none⟩ := by
    refine .payload rfl rfl ?_ rfl ?_ rfl
    · simp only [List.sum_cons, List.sum_nil, UInt8.zero_add, UInt8.add_zero, UInt8.add_assoc]
    · simp [Put.Plain]
  have hrest : Sends ([] ++ ([0x00, 0x00, 0xFF, 12, 0xF4, 0xd5, 0x4B, m.tags, 1,
      Source.sensHigh.read m, Source.sensLow.read m, m.selRes, m.uidLength] : Bytes)) _ := hcard.burst m 3
  have hloop : ∀ cksum ps, m.burst 8 (m.next cksum (.targets 1 :: ps)) =
      ([1, Source.sensHigh.read m, Source.sensLow.read m, m.selRes, m.uidLength] ++
        (m.burst 3 (m.next (cksum + 1 + Source.sensHigh.read m + Source.sensLow.read m + m.selRes +
          m.uidLength) ps)).1,
        (m.burst 3 (m.next (cksum + 1 + Source.sensHigh.read m + Source.sensLow.read m + m.selRes +
          m.uidLength) ps)).2) := by
    intro cksum ps
    rw [next_targets_one hone, ← next_targets_two hone]
    rfl
  have hall := hrest.append (List.cons_ne_nil _ _)
  rw [hlen]
  show Sends [] ([0x00, 0x00, 0xFF, 12, 0xF4, 0xd5, 0x4B, m.tags] ++
    (m.burst 8 (m.next (0 + 0xd5 + 0x4B + m.tags) (.targets 1 :: _))).1,
      (m.burst 8 (m.next (0 + 0xd5 + 0x4B + m.tags) (.targets 1 :: _))).2)
  rw [hloop]
  exact hall

/-- A response without data is a frame of six bytes. -/
theorem sends_exchange (m : Mif) (status : UInt8) :
    Sends [] (m.burst Pn532Base.toSize (m.next 0 (exchange status ++ closing))) :=
  sends_frame m 0x41 (by simp [Put.Plain]) rfl (by omega)

/-- **Each of the responses begins as a frame.** -/
theorem sends_program (hcard : m.OneCard) {ps : List Put} (h : m.program = some ps) :
    Sends [] (m.burst Pn532Base.toSize (m.next 0 ps)) := by
  have hway := m.replies
  rw [program_reply] at h
  generalize m.reply = reply at h hway
  cases hway with
  | again _ => cases h
  | targets _ _ htags =>
    obtain ⟨hone, huid⟩ := hcard.one htags
    obtain rfl := Option.some.inj h
    exact sends_card hone huid
  | nobody _ _ =>
    obtain rfl := Option.some.inj h
    exact sends_frame m 0x4B (by simp [Put.Plain]) rfl (by omega)
  | configured _ _ =>
    obtain rfl := Option.some.inj h
    exact sends_frame m 0x15 (List.forall_mem_nil Put.Plain) rfl (by omega)
  | firmware _ _ =>
    obtain rfl := Option.some.inj h
    exact sends_frame m 0x3 (by simp [Put.Plain]) rfl (by omega)
  | exchanged _ status =>
    obtain rfl := Option.some.inj h
    exact sends_exchange m status
  | block _ _ _ =>
    obtain rfl := Option.some.inj h
    refine sends_frame m 0x41 ?_ rfl (by omega)
    intro p hp
    simp only [readBlock, List.mem_append, List.mem_cons, List.mem_map, List.not_mem_nil,
      or_false] at hp
    rcases hp with (rfl | ⟨p, _, rfl⟩) | rfl | rfl <;> trivial
  | syntaxerr _ _ =>
    obtain rfl := Option.some.inj h
    exact ⟨List.cons_ne_nil _ _, wellFormed_pushsyntaxerr⟩

end Mif

/-! ## §3 — the card -/

/-- No byte of the host changes what the length of a card list depends on. -/
theorem Pn532Base.apart_card (s : Pn532Base) (m : UInt8) :
    (s.process m).mif.tags = s.mif.tags ∧ (s.process m).mif.uidLength = s.mif.uidLength := by
  by_cases hcmd : s.AtCommand
  · rw [process_command hcmd]
    exact ⟨rfl, rfl⟩
  by_cases hlock : s.AtLock
  · exact ⟨(locked hlock m).tags, (locked hlock m).uidLength⟩
  by_cases hmid : s.MidFrame
  · exact ⟨(inside hmid hlock m).tags, (inside hmid hlock m).uidLength⟩
  · exact ⟨(heading hmid hcmd m).tags, (heading hmid hcmd m).uidLength⟩

theorem Mif.OneCard.congr {m m' : Mif} (h : m.OneCard)
    (hsame : m'.tags = m.tags ∧ m'.uidLength = m.uidLength) : m'.OneCard := by
  unfold OneCard
  rw [hsame.1, hsame.2]
  exact h

namespace Chip

open Pn532Base (Event toSize)

variable {c d : Chip} {cksum : UInt8} {ps : List Put}

theorem Poured.card (h : Poured c d) :
    d.base.mif.tags = c.base.mif.tags ∧ d.base.mif.uidLength = c.base.mif.uidLength := by
  cases h with
  | waits _ hbase =>
    rw [hbase]
    exact ⟨rfl, rfl⟩
  | done _ hbase =>
    rw [hbase]
    exact ⟨rfl, rfl⟩

theorem card_respth (c : Chip) : c.respth.base.mif.tags = c.base.mif.tags ∧
    c.respth.base.mif.uidLength = c.base.mif.uidLength := by
  by_cases hbusy : c.base.opstate = .busy
  · cases hprogram : c.base.mif.program with
    | none =>
      rw [respth_retry hbusy hprogram]
      exact ⟨rfl, rfl⟩
    | some ps =>
      rw [respth_begin hbusy hprogram]
      exact (poured_begin { c with base := { c.base with toFifo := [] } } 0 ps).card
  · have hbase : c.respth.base = c.base.respth := by
      unfold respth
      cases hop : c.base.opstate <;> first | rfl | exact absurd hop hbusy
    rw [hbase]
    unfold Pn532Base.respth
    cases hop : c.base.opstate with
    | busy => exact absurd hop hbusy
    | ackRdout =>
      dsimp only
      split <;> exact ⟨rfl, rfl⟩
    | _ => exact ⟨rfl, rfl⟩

theorem card_drained (c : Chip) : c.drained.base.mif.tags = c.base.mif.tags ∧
    c.drained.base.mif.uidLength = c.base.mif.uidLength := by
  unfold drained
  split
  next hsome =>
    obtain ⟨w, hwriter⟩ := Option.isSome_iff_exists.mp hsome
    exact (poured_pour hwriter).card
  next =>
    split
    · exact card_respth { c with base := { c.base with ack := false } }
    · exact ⟨rfl, rfl⟩

theorem wake_keeps (c : Chip) : c.wake.writer = c.writer ∧ c.wake.since = c.since ∧
    c.wake.base.toFifo = c.base.toFifo ∧ c.wake.base.mif = c.base.mif := by
  unfold wake
  split_ifs <;> exact ⟨rfl, rfl, rfl, rfl⟩

/-- **There is never more than one card**, and its identifier has four bytes. -/
theorem card_step (h : c.base.mif.OneCard) (e : Event) : (c.step e).base.mif.OneCard := by
  cases e with
  | byte m =>
    have hwake : (c.parse m).wake.base.mif.OneCard := by
      rw [(wake_keeps (c.parse m)).2.2.2]
      exact h.congr (c.base.apart_card m)
    show (c.receive m).base.mif.OneCard
    unfold receive
    dsimp only
    split
    · exact hwake.congr (card_drained _)
    · exact hwake
  | read =>
    unfold step
    dsimp only
    split
    · exact h
    · exact h.congr (card_drained { c with base := { c.base with toFifo := c.base.toFifo.tail } })
  | expire =>
    unfold step
    dsimp only
    split
    · split
      · exact h.congr (card_respth { c with base := { c.base with ack := false } })
      · exact h
    · exact h
  | present uid => exact Or.inr ⟨rfl, rfl⟩
  | remove => exact Or.inl rfl

/-! ## §4 — what a step pushes -/

/-- What `pushresp` writes in a step: what is pushed, but for an acknowledge. -/
def responded (c : Chip) : Event → Bytes
  | .expire => if c.base.opstate = .ack then [] else (c.step .expire).since.drop c.since.length
  | e => (c.step e).since.drop c.since.length

/-- The thread leaves the response as it is, or goes on with it. -/
def Goes (pushed : Bytes) (c d : Chip) : Prop :=
  d.writer = c.writer ∧ d.since = c.since ∨ ∃ bs, d.since = c.since ++ bs ∧ Sends pushed (bs, d.writer)

/-- What was pushed of a response that is not finished. -/
def Pending (pushed : Bytes) : Option Writer → Prop
  | none => pushed = []
  | some w => Framed pushed w

variable {pushed : Bytes} {w : Writer}

theorem pourN_burst : ∀ (room : Nat) (c : Chip),
    (c.pourN room).since = c.since ++ (c.base.mif.burst room c.writer).1 ∧
      (c.pourN room).writer = (c.base.mif.burst room c.writer).2 := by
  intro room
  induction room with
  | zero => exact fun c => ⟨(List.append_nil _).symm, rfl⟩
  | succ room ih =>
    intro c
    cases h : c.writer with
    | none =>
      rw [pourN_none h]
      exact ⟨(List.append_nil _).symm, h⟩
    | some w =>
      rw [pourN_some h, Mif.burst]
      cases hnext : c.base.mif.next w.cksum w.rest with
      | none =>
        have hend : c.base.mif.burst room none = ([], none) := by cases room <;> rfl
        rw [advance_none (c := c.push [w.byte]) hnext, pourN_none rfl, hend]
        exact ⟨rfl, rfl⟩
      | some w' =>
        -- `mif` is the same until the response is finished
        rw [advance_some (c := c.push [w.byte]) hnext]
        obtain ⟨hsince, hwriter⟩ := ih
          { c.push [w.byte] with writer := some w', carried := c.carried ++ w'.block.toList }
        refine ⟨hsince.trans ?_, hwriter⟩
        show (c.since ++ [w.byte]) ++ _ = _
        rw [List.append_assoc]
        rfl

/-- A response begins, with an empty queue. -/
theorem begin_burst (h : c.base.toFifo = []) (ps : List Put) :
    (c.advance 0 ps).pour.since = c.since ++ (c.base.mif.burst toSize (c.base.mif.next 0 ps)).1 ∧
      (c.advance 0 ps).pour.writer = (c.base.mif.burst toSize (c.base.mif.next 0 ps)).2 := by
  cases hnext : c.base.mif.next 0 ps with
  | none =>
    rw [advance_none hnext, pour_none rfl]
    exact ⟨(List.append_nil _).symm, rfl⟩
  | some w =>
    rw [advance_some hnext]
    unfold pour
    rw [show toSize - c.base.toFifo.length = toSize by rw [h]; rfl]
    exact pourN_burst toSize { c with writer := some w, carried := c.carried ++ w.block.toList }

theorem Goes.of_pour (hwriter : c.writer = some w) (h : Framed pushed w) : Goes pushed c c.pour := by
  obtain ⟨hsince, hnext⟩ := pourN_burst (toSize - c.base.toFifo.length) c
  have hsends := h.burst c.base.mif (toSize - c.base.toFifo.length)
  rw [← hwriter] at hsends
  refine Or.inr ⟨_, hsince, ?_⟩
  show Sends pushed (_, (c.pourN _).writer)
  rw [hnext]
  exact hsends

/-- **`resp_th` is woken** for anything but an acknowledge. -/
theorem Goes.of_respth (hcard : c.base.mif.OneCard) (hack : c.base.opstate ≠ .ack) :
    Goes [] c c.respth := by
  by_cases hbusy : c.base.opstate = .busy
  · cases hprogram : c.base.mif.program with
    | none =>
      rw [respth_retry hbusy hprogram]
      exact Or.inl ⟨rfl, rfl⟩
    | some ps =>
      rw [respth_begin hbusy hprogram]
      obtain ⟨hsince, hnext⟩ := begin_burst (c := { c with base := { c.base with toFifo := [] } }) rfl ps
      refine Or.inr ⟨_, hsince, ?_⟩
      rw [hnext]
      exact Mif.sends_program hcard hprogram
  · rw [respth_other hack hbusy]
    exact Or.inl ⟨rfl, rfl⟩

theorem Goes.of_drained (h : Pending pushed c.writer) : Goes pushed c c.drained := by
  unfold drained
  split
  next hsome =>
    obtain ⟨w, hwriter⟩ := Option.isSome_iff_exists.mp hsome
    rw [hwriter] at h
    exact .of_pour hwriter h
  next =>
    split
    next hdone =>
      have hack : c.base.opstate ≠ .ack := by rcases hdone.2 with hop | hop <;> simp [hop]
      have hbusy : c.base.opstate ≠ .busy := by rcases hdone.2 with hop | hop <;> simp [hop]
      rw [respth_other (c := { c with base := { c.base with ack := false } }) hack hbusy]
      exact Or.inl ⟨rfl, rfl⟩
    next => exact Or.inl ⟨rfl, rfl⟩

/-- What a step pushes, from where the response thread is as it was before. -/
theorem Goes.result {c' : Chip} (h : Goes pushed c' d) (hwriter : c'.writer = c.writer)
    (hsince : c'.since = c.since) :
    d.writer = c.writer ∧ d.since.drop c.since.length = [] ∨
      Sends pushed (d.since.drop c.since.length, d.writer) := by
  rcases h with ⟨hw, hs⟩ | ⟨bs, hs, hsends⟩
  · rw [hs, hsince, List.drop_length]
    exact Or.inl ⟨hw.trans hwriter, rfl⟩
  · rw [hs, hsince, List.drop_left]
    exact Or.inr hsends

/-- **A step** leaves a response as it is, or goes on with it. -/
theorem responded_step (hcard : c.base.mif.OneCard) (h : Pending pushed c.writer) (e : Event) :
    (c.step e).writer = c.writer ∧ c.responded e = [] ∨
      Sends pushed (c.responded e, (c.step e).writer) := by
  cases e with
  | byte m =>
    obtain ⟨hwriter, hsince, hfifo, -⟩ := wake_keeps (c.parse m)
    have hw : (c.parse m).wake.writer = c.writer := hwriter
    show (c.receive m).writer = c.writer ∧ (c.receive m).since.drop c.since.length = [] ∨
      Sends pushed ((c.receive m).since.drop c.since.length, (c.receive m).writer)
    unfold receive
    dsimp only
    by_cases hlock : c.base.AtLock
    · -- the last byte of a frame does not look at the queue to the host
      have hkept : (c.parse m).wake.base.toFifo = c.base.toFifo :=
        hfifo.trans (Pn532Base.locked hlock m).toFifo
      have hnone : (c.parse m).wake.since = [] := by
        rw [hsince, parse, if_pos hlock]
      rw [if_neg fun hne => hne.1 (hkept ▸ hne.2), hnone]
      exact Or.inl ⟨hw, List.drop_nil⟩
    · have hs : (c.parse m).wake.since = c.since := by
        rw [hsince, parse, if_neg hlock]
      split
      · exact (Goes.of_drained (hw.symm ▸ h)).result hw hs
      · exact Goes.result (Or.inl ⟨rfl, rfl⟩) hw hs
  | read =>
    have hread : Goes pushed { c with base := { c.base with toFifo := c.base.toFifo.tail } }
        { c with base := { c.base with toFifo := c.base.toFifo.tail } }.drained := .of_drained h
    unfold responded step
    dsimp only
    split
    · exact Goes.result (Or.inl ⟨rfl, rfl⟩) rfl rfl
    · exact hread.result rfl rfl
  | expire =>
    unfold responded
    dsimp only
    by_cases hack : c.base.opstate = .ack
    · rw [if_pos hack]
      refine Or.inl ⟨?_, rfl⟩
      unfold step
      dsimp only
      split_ifs
      · rw [respth_ack (c := { c with base := { c.base with ack := false } }) hack]
      · rfl
      · rfl
    · rw [if_neg hack]
      unfold step
      dsimp only
      split_ifs with hdue hnone
      · have hwriter := Option.isNone_iff_eq_none.mp hnone
        rw [hwriter] at h
        obtain rfl : pushed = [] := h
        exact (Goes.of_respth (c := { c with base := { c.base with ack := false } }) hcard hack).result
          rfl rfl
      · exact Goes.result (Or.inl ⟨rfl, rfl⟩) rfl rfl
      · exact Goes.result (Or.inl ⟨rfl, rfl⟩) rfl rfl
  | present uid => exact Goes.result (Or.inl ⟨rfl, rfl⟩) rfl rfl
  | remove => exact Goes.result (Or.inl ⟨rfl, rfl⟩) rfl rfl

end Chip

/-! ## §5 — the data of the blocks -/

namespace Mif

/-- A byte of a block that can be set from outside is a byte of the block. -/
theorem settable_lt (i : Fin 15) : i.val < 16 := Nat.lt_succ_of_lt i.isLt

/-- The loop of `mifset` and `mifsetn`: the bytes up to the one that is the last, and zeros. -/
def fill (data : Vector UInt8 16) (value : Nat → UInt8) (last : Nat → Bool) : Vector UInt8 16 :=
  ((List.finRange 15).foldl (fun (s : Vector UInt8 16 × Bool) (i : Fin 15) =>
    if s.2 = false then (s.1.set i.val (value i) (settable_lt i), last i)
    else (s.1.set i.val 0 (settable_lt i), true)) (data, false)).1

def setData (m : Mif) (pos : Nat) (value : Nat → UInt8) (last : Nat → Bool) : Mif :=
  { m with mem := Function.update m.mem pos { m.mem pos with data := fill (m.mem pos).data value last } }

/-- `mifset`, for a block that a command can name. -/
def mifset (m : Mif) (pos : Nat) (value : Nat → UInt8) : Mif := m.setData pos value fun i => value i = 0

/-- `mifsetn`, for a block that a command can name. -/
def mifsetn (m : Mif) (pos : Nat) (value : Nat → UInt8) (len : Int) : Mif :=
  m.setData pos value fun i => i = len - 1

end Mif

/-! ## §6 — runs -/

/-- The module, with what each `pushresp` has written. -/
structure Recorder where
  chip : Chip
  /-- of the response that waits for room -/
  pushed : Bytes
  /-- of each that has returned `RESP_OK` -/
  returned : List Bytes

/-- What happens to the module, or the data of a block is set from outside. -/
inductive Change where
  | event (e : Pn532Base.Event)
  | mifset (pos : Nat) (value : Nat → UInt8)
  | mifsetn (pos : Nat) (value : Nat → UInt8) (len : Int)

/-- `mif` is changed from outside. -/
def Chip.setMif (c : Chip) (m : Mif) : Chip := { c with base := { c.base with mif := m } }

namespace Recorder

open Pn532Base (Event)

def event (r : Recorder) (e : Event) : Recorder :=
  let pushed := r.pushed ++ r.chip.responded e
  if (r.chip.step e).writer.isNone ∧ r.chip.responded e ≠ [] then
    ⟨r.chip.step e, [], r.returned ++ [pushed]⟩
  else ⟨r.chip.step e, pushed, r.returned⟩

def step (r : Recorder) : Change → Recorder
  | .event e => r.event e
  | .mifset pos value => { r with chip := r.chip.setMif (r.chip.base.mif.mifset pos value) }
  | .mifsetn pos value len => { r with chip := r.chip.setMif (r.chip.base.mif.mifsetn pos value len) }

def start (m : Mif) : Recorder := ⟨Chip.start m, [], []⟩

def run (r : Recorder) (cs : List Change) : Recorder := cs.foldl step r

/-- What holds in every state. -/
structure Recorded (r : Recorder) : Prop where
  card : r.chip.base.mif.OneCard
  pending : Chip.Pending r.pushed r.chip.writer
  frames : ∀ f ∈ r.returned, WellFormed f

variable {r : Recorder}

theorem event_chip (r : Recorder) (e : Event) : (r.event e).chip = r.chip.step e := by
  unfold event
  dsimp only
  split <;> rfl

/-- Nothing that is pushed gets lost in the record. -/
theorem event_pushed (r : Recorder) (e : Event) :
    (r.event e).returned.flatten ++ (r.event e).pushed =
      r.returned.flatten ++ r.pushed ++ r.chip.responded e := by
  unfold event
  dsimp only
  split <;> simp

theorem Recorded.event (h : Recorded r) (e : Event) : Recorded (r.event e) := by
  have hcard : (r.event e).chip.base.mif.OneCard := by
    rw [event_chip]
    exact Chip.card_step h.card e
  rcases Chip.responded_step h.card h.pending e with ⟨hwriter, hnil⟩ | hsends
  · have hstep : r.event e = ⟨r.chip.step e, r.pushed, r.returned⟩ := by
      unfold Recorder.event
      dsimp only
      rw [if_neg fun hboth => hboth.2 hnil, hnil, List.append_nil]
    refine ⟨hcard, ?_, ?_⟩
    · rw [hstep]
      show Chip.Pending r.pushed (r.chip.step e).writer
      rw [hwriter]
      exact h.pending
    · rw [hstep]
      exact h.frames
  · cases hwriter : (r.chip.step e).writer with
    | some w =>
      rw [hwriter] at hsends
      have hstep : r.event e = ⟨r.chip.step e, r.pushed ++ r.chip.responded e, r.returned⟩ := by
        unfold Recorder.event
        dsimp only
        rw [if_neg fun hboth => by simp [hwriter] at hboth]
      refine ⟨hcard, ?_, ?_⟩
      · rw [hstep]
        show Chip.Pending _ (r.chip.step e).writer
        rw [hwriter]
        exact hsends
      · rw [hstep]
        exact h.frames
    | none =>
      rw [hwriter] at hsends
      obtain ⟨hsome, hframe⟩ := hsends
      have hstep : r.event e =
          ⟨r.chip.step e, [], r.returned ++ [r.pushed ++ r.chip.responded e]⟩ := by
        unfold Recorder.event
        dsimp only
        rw [if_pos ⟨by rw [hwriter]; rfl, hsome⟩]
      refine ⟨hcard, ?_, ?_⟩
      · rw [hstep]
        show Chip.Pending [] (r.chip.step e).writer
        rw [hwriter]
        rfl
      · rw [hstep]
        intro f hf
        rcases List.mem_append.mp hf with hold | hnew
        · exact h.frames f hold
        · rw [List.mem_singleton.mp hnew]
          exact hframe

/-- What is set from outside is not in the way of a response that waits. -/
theorem Recorded.setMif (h : Recorded r) {m : Mif} (hcard : m.OneCard) :
    Recorded { r with chip := r.chip.setMif m } := ⟨hcard, h.pending, h.frames⟩

theorem Recorded.step (h : Recorded r) (c : Change) : Recorded (r.step c) := by
  cases c with
  | event e => exact h.event e
  | mifset pos value => exact h.setMif (m := r.chip.base.mif.mifset pos value) h.card
  | mifsetn pos value len => exact h.setMif (m := r.chip.base.mif.mifsetn pos value len) h.card

theorem recorded_run (m : Mif) (cs : List Change) : Recorded ((start m).run cs) := by
  have hstart : Recorded (start m) := ⟨Or.inl rfl, rfl, fun _ hf => absurd hf List.not_mem_nil⟩
  exact List.foldlRecOn cs step hstart fun _ h c _ => h.step c

/-- **The responses are frames**: whatever the bytes of the host, its reads, the expiries, the cards and
the data of the blocks, in whatever order, what `pushresp` would write in the state they lead to is a
well-formed frame, and so is what each `pushresp` has written that returned `RESP_OK`, with all that
changed while it waited for room. -/
theorem responses_wellFormed (m : Mif) (cs : List Change) :
    (∀ resp, ((start m).run cs).chip.base.mif.pushresp = some resp → WellFormed resp) ∧
      ∀ resp ∈ ((start m).run cs).returned, WellFormed resp :=
  ⟨fun _ h => Mif.pushresp_wellFormed (recorded_run m cs).card h, (recorded_run m cs).frames⟩

/-- A card is presented and listed, and taken away when the first bytes of the list are read. -/
def takenAway : List Change :=
  ((Event.present 0x11223344 ::
    [0x00, 0x00, 0xFF, 0x04, 0xFC, 0xD4, 0x4A, 0x01, 0x00, 0xE1, 0x00].map Event.byte ++
      Event.expire :: List.replicate 6 Event.read ++ [Event.expire, .expire, .remove] ++
        List.replicate 8 Event.read) : List Event).map .event

-- the last byte of the list is read from `mif` before the queue has room for it
example : ((start Mif.zero).run takenAway).returned =
    [[0x00, 0x00, 0xFF, 0x0C, 0xF4, 0xD5, 0x4B, 0x01, 0x01, 0x55, 0x22, 0x00, 0x04, 0x11, 0x22, 0x33,
      0x44, 0xB9, 0x00]] := by decide +kernel

end Recorder

end Espmod.Pn532
