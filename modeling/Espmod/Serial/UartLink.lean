/-
# Espmod.Serial.UartLink — the receiver stays in step

The receiver looks at each data bit half a bit period after it has come to the line, and at its FIFO half
a period after the last of them is over, in the stop bit. From then on it waits for the line to fall; and
that is the next start bit, because the line is high and the stop bit lasts for another half period at
least. So every byte is read as it was sent, and what happens to it depends on the FIFO alone.
-/
import Espmod.Serial.Uart

namespace Espmod.Serial

open Espmod.Lib

namespace Uart

/-! ## §1 — slots -/

/-- What is on the line in the slot `k` of a frame. -/
def symbol (msg : BitVec 8) (k : Nat) : Bool :=
  if k = 0 then false else if k ≤ 8 then msg.getLsbD (k - 1) else true

/-- The sender is in the slot `k` of a frame that began at `T`. -/
structure InSlot (u : Uart) (msg : BitVec 8) (T k : Nat) : Prop where
  begun : T + k * u.period ≤ u.now
  tx : (k ≤ 8 ∧ u.tx = .sending msg k (T + (k + 1) * u.period)) ∨
    (k = 9 ∧ ∃ due, u.tx = .stopping due ∧ T + 10 * u.period ≤ due)
  next : u.line.next = symbol msg k
  cur : u.line.cur = symbol msg k ∨ u.now = T + k * u.period

/-- The receiver has a part of the byte that began at `T`. -/
inductive Reading (u : Uart) (msg : BitVec 8) (T : Nat) : Prop where
  | half (hrx : u.rx = .half (T + u.period / 2))
  | bits (m : BitVec 8) (cnt : Nat) (hcnt : cnt ≤ 8)
      (hrx : u.rx = .bits m cnt (T + u.period / 2 + (cnt + 1) * u.period))
      (hm : ∀ i < 8, m.getLsbD i = (decide (i < cnt) && msg.getLsbD i))

/-- **The middle of a bit**: between `k` and `k + 1` periods there is exactly one look at the line. -/
theorem slot_of_look {p q T n k now : Nat} (hq : 0 < q) (hqp : q < p) (hnow : now = T + q + (n + 1) * p)
    (hlow : T + k * p ≤ now) (hhigh : now ≤ T + (k + 1) * p) : k = n + 1 := by
  have hle : k ≤ n + 1 := by
    by_contra hgt
    have hmul := Nat.mul_le_mul_right p (show n + 2 ≤ k by omega)
    have h2 : (n + 2) * p = (n + 1) * p + p := Nat.succ_mul (n + 1) p
    omega
  have hge : n + 1 ≤ k := by
    by_contra hlt
    have hmul := Nat.mul_le_mul_right p (show k + 1 ≤ n + 1 by omega)
    omega
  omega

/-- One more bit. -/
theorem getLsbD_takeBit {msg m : BitVec 8} {cnt : Nat} (hcnt : cnt < 8)
    (hm : ∀ i < 8, m.getLsbD i = (decide (i < cnt) && msg.getLsbD i)) :
    ∀ i < 8, (takeBit m cnt (msg.getLsbD cnt)).getLsbD i = (decide (i < cnt + 1) && msg.getLsbD i) := by
  intro i hi
  have hbit : (1#8 <<< cnt).getLsbD i = decide (i = cnt) := by
    rw [BitVec.getLsbD_shiftLeft]
    by_cases h : i = cnt
    · subst h
      simp [hi]
    · by_cases hlt : i < cnt
      · simp [h, hlt]
      · have hne : i - cnt ≠ 0 := by omega
        simp [h, hne]
  unfold takeBit
  cases hb : msg.getLsbD cnt with
  | false =>
    rw [if_neg Bool.false_ne_true, hm i hi]
    by_cases h : i = cnt
    · subst h
      simp [hb]
    · have hiff : (i < cnt) ↔ (i < cnt + 1) := by omega
      simp [hiff]
  | true =>
    rw [if_pos rfl, BitVec.getLsbD_or, hm i hi, hbit]
    by_cases h : i = cnt
    · subst h
      simp [hb]
    · have hiff : (i < cnt) ↔ (i < cnt + 1) := by omega
      simp [hiff, h]

/-! ## §2 — the invariant -/

/-- What arrives when all is well: every byte that was sent, nine and a half periods after its start. -/
def expected (u : Uart) : List (BitVec 8 × Nat) :=
  u.sent.map fun s => (s.1, s.2 + u.period / 2 + 9 * u.period)

/-- The way of the last byte that was sent. -/
inductive Way (u : Uart) : Prop where
  /-- the line has not risen yet -/
  | starting (hrx : u.rx = .rising) (hwoken : u.woken = false) (hcur : u.line.cur = false)
      (hnext : u.line.next = true) (htx : u.tx = .idle) (hsent : u.sent = []) (harr : u.arrived = [])
      (hready : u.toFifo.ready = [])
  /-- it rises; the first byte may begin at once -/
  | rising (hrx : u.rx = .rising) (hwoken : u.woken = true) (hcur : u.line.cur = true)
      (harr : u.arrived = [])
      (htx : (u.tx = .idle ∧ u.line.next = true ∧ u.sent = []) ∨
        ∃ msg, u.tx = .sending msg 0 (u.now + u.period) ∧ u.line.next = false ∧ u.sent = [(msg, u.now)])
  /-- nothing is on its way -/
  | ready (hrx : u.rx = .listening) (hwoken : u.woken = false) (hcur : u.line.cur = true)
      (hnext : u.line.next = true) (htx : u.tx = .idle ∨ ∃ due, u.tx = .stopping due)
      (hsent : u.expected = u.arrived.map Prod.fst)
  /-- a byte begins -/
  | falling (msg : BitVec 8) (hrx : u.rx = .listening)
      (hline : (u.woken = false ∧ u.line.cur = true) ∨ (u.woken = true ∧ u.line.cur = false))
      (hnext : u.line.next = false) (htx : u.tx = .sending msg 0 (u.now + u.period))
      (hsent : u.expected = u.arrived.map Prod.fst ++ [(msg, u.now + u.period / 2 + 9 * u.period)])
  /-- the receiver reads it -/
  | receiving (msg : BitVec 8) (T k : Nat) (hwoken : u.woken = false) (hslot : InSlot u msg T k)
      (hread : Reading u msg T)
      (hsent : u.expected = u.arrived.map Prod.fst ++ [(msg, T + u.period / 2 + 9 * u.period)])

/-- **The invariant.** -/
structure Inv (u : Uart) : Prop where
  long : 0 < u.period / 2
  written : u.written = u.sent.map Prod.fst ++ u.toFifo.content
  kept : u.consumed ++ u.fromFifo.content = (kept u.arrived).map Prod.fst
  txDue : ∀ due, u.tx.due = some due → u.now ≤ due
  rxDue : ∀ due, u.rx.due = some due → u.now ≤ due
  way : Way u

variable {u : Uart}

theorem inv_init (level : Bool) {period : Nat} (hp : 0 < period / 2) (stopbits : Int)
    (toSize fromSize : Nat) : Inv (init level period stopbits toSize fromSize) where
  long := hp
  written := rfl
  kept := rfl
  txDue := fun _ h => absurd h.symm (Option.some_ne_none _)
  rxDue := fun _ h => by cases level <;> exact absurd h.symm (Option.some_ne_none _)
  way := by
    cases level with
    | false => exact .starting rfl rfl rfl rfl rfl rfl rfl rfl
    | true => exact .ready rfl rfl rfl rfl (Or.inl rfl) rfl

/-- At most the last byte has not arrived, and it has not been on its way for too long. -/
theorem Inv.onTheWay (h : Inv u) :
    ∃ rest, u.expected = u.arrived.map Prod.fst ++ rest ∧ rest.length ≤ 1 ∧ ∀ s ∈ rest, u.now ≤ s.2 := by
  have hlast : ∀ {s : BitVec 8 × Nat}, u.now ≤ s.2 → u.expected = u.arrived.map Prod.fst ++ [s] →
      ∃ rest, u.expected = u.arrived.map Prod.fst ++ rest ∧ rest.length ≤ 1 ∧
        ∀ s ∈ rest, u.now ≤ s.2 := by
    intro s hs hsent
    refine ⟨[s], hsent, Nat.le_refl _, fun r hr => ?_⟩
    rw [List.mem_singleton.mp hr]
    exact hs
  have hnone : u.expected = u.arrived.map Prod.fst →
      ∃ rest, u.expected = u.arrived.map Prod.fst ++ rest ∧ rest.length ≤ 1 ∧
        ∀ s ∈ rest, u.now ≤ s.2 :=
    fun hsent => ⟨[], by rw [hsent, List.append_nil], Nat.zero_le _, fun _ hr => absurd hr List.not_mem_nil⟩
  cases h.way with
  | starting _ _ _ _ _ hsent harr _ =>
    refine hnone ?_
    unfold expected
    rw [hsent, harr]
    rfl
  | rising _ _ _ harr htx =>
    rcases htx with ⟨_, _, hsent⟩ | ⟨msg, _, _, hsent⟩
    · refine hnone ?_
      unfold expected
      rw [hsent, harr]
      rfl
    · refine hlast (s := (msg, u.now + u.period / 2 + 9 * u.period)) ?_ ?_
      · dsimp only
        omega
      · unfold expected
        rw [hsent, harr]
        rfl
  | ready _ _ _ _ _ hsent => exact hnone hsent
  | falling msg _ _ _ _ hsent =>
    refine hlast ?_ hsent
    dsimp only
    omega
  | receiving msg T k _ _ hread hsent =>
    refine hlast ?_ hsent
    dsimp only
    cases hread with
    | half hrx =>
      have := h.rxDue _ (by rw [hrx]; rfl)
      omega
    | bits m cnt hcnt hrx _ =>
      have := h.rxDue _ (by rw [hrx]; rfl)
      have hmul := Nat.mul_le_mul_right u.period (show cnt + 1 ≤ 9 by omega)
      omega

/-! ## §3 — the users -/

/-- The receiver has the same part of the byte when only the sender and the line change. -/
theorem Reading.same {msg : BitVec 8} {T : Nat} (h : Reading u msg T) {v : Uart} (hrx : v.rx = u.rx)
    (hperiod : v.period = u.period) : Reading v msg T := by
  cases h with
  | half hr => exact .half (by rw [hrx, hperiod]; exact hr)
  | bits m c hc hr hm => exact .bits m c hc (by rw [hrx, hperiod]; exact hr) hm

/-- What the users of the two modules do leaves the line and the threads alone. -/
theorem Way.frame (h : Way u) {v : Uart} (hrx : v.rx = u.rx) (htx : v.tx = u.tx)
    (hwoken : v.woken = u.woken) (hline : v.line = u.line) (hperiod : v.period = u.period)
    (hnow : v.now = u.now) (hsent : v.sent = u.sent) (harr : v.arrived = u.arrived)
    (hready : u.toFifo.ready = [] → v.toFifo.ready = []) : Way v := by
  have hexp : v.expected = u.expected := by
    unfold expected
    rw [hsent, hperiod]
  cases h with
  | starting h1 h2 h3 h4 h5 h6 h7 h8 =>
    exact .starting (hrx ▸ h1) (hwoken ▸ h2) (hline ▸ h3) (hline ▸ h4) (htx ▸ h5) (hsent ▸ h6)
      (harr ▸ h7) (hready h8)
  | rising h1 h2 h3 h4 h5 =>
    refine .rising (hrx ▸ h1) (hwoken ▸ h2) (hline ▸ h3) (harr ▸ h4) ?_
    rw [htx, hline, hsent, hnow, hperiod]
    exact h5
  | ready h1 h2 h3 h4 h5 h6 =>
    refine .ready (hrx ▸ h1) (hwoken ▸ h2) (hline ▸ h3) (hline ▸ h4) (htx ▸ h5) ?_
    rw [hexp, harr]
    exact h6
  | falling msg h1 h2 h3 h4 h5 =>
    refine .falling msg (hrx ▸ h1) ?_ (hline ▸ h3) ?_ ?_
    · rw [hwoken, hline]
      exact h2
    · rw [htx, hnow, hperiod]
      exact h4
    · rw [hexp, harr, hnow, hperiod]
      exact h5
  | receiving msg T k h1 hslot hread h4 =>
    refine .receiving msg T k (hwoken ▸ h1) ⟨?_, ?_, ?_, ?_⟩ ?_ ?_
    · rw [hperiod, hnow]
      exact hslot.begun
    · rw [htx, hperiod]
      exact hslot.tx
    · rw [hline]
      exact hslot.next
    · rw [hline, hnow, hperiod]
      exact hslot.cur
    · exact hread.same hrx hperiod
    · rw [hexp, harr, hperiod]
      exact h4

theorem Inv.produce (h : Inv u) (msg : BitVec 8) : Inv (u.produce msg) := by
  unfold Uart.produce
  split
  · exact h
  · refine ⟨h.long, ?_, h.kept, h.txDue, h.rxDue, h.way.frame rfl rfl rfl rfl rfl rfl rfl rfl id⟩
    show u.written ++ [msg] = u.sent.map Prod.fst ++ (u.toFifo.write msg).content
    rw [Fifo.content_write, ← List.append_assoc, h.written]

theorem Inv.consume (h : Inv u) : Inv u.consume := by
  unfold Uart.consume
  split
  · exact h
  · rename_i msg msgs hready
    refine ⟨h.long, h.written, ?_, h.txDue, h.rxDue,
      h.way.frame rfl rfl rfl rfl rfl rfl rfl rfl id⟩
    show (u.consumed ++ [msg]) ++ u.fromFifo.read.content = _
    rw [List.append_assoc, List.singleton_append, ← Fifo.content_read hready, h.kept]

theorem Inv.setStop (h : Inv u) (stopbits : Int) : Inv { u with stopbits := stopbits } :=
  ⟨h.long, h.written, h.kept, h.txDue, h.rxDue, h.way.frame rfl rfl rfl rfl rfl rfl rfl rfl id⟩

/-! ## §4 — the sender -/

theorem symbol_succ (msg : BitVec 8) {cnt : Nat} (h : cnt < 8) :
    symbol msg (cnt + 1) = msg.getLsbD cnt := by
  unfold symbol
  rw [if_neg (Nat.succ_ne_zero cnt), if_pos (by omega), Nat.add_sub_cancel]

theorem period_le_stopTime (u : Uart) : u.period ≤ u.stopTime := by
  unfold stopTime
  split
  · omega
  · split <;> omega

/-- A frame begins. -/
theorem Inv.begins (h : Inv u) (htx : u.tx = .idle) {msg : BitVec 8} {msgs : List (BitVec 8)}
    (hready : u.toFifo.ready = msg :: msgs) :
    Inv { u with
          toFifo := u.toFifo.read
          line := u.line.write false
          tx := .sending msg 0 (u.now + u.period)
          sent := u.sent ++ [(msg, u.now)] } := by
  refine ⟨h.long, ?_, h.kept, ?_, h.rxDue, ?_⟩
  · show u.written = (u.sent ++ [(msg, u.now)]).map Prod.fst ++ u.toFifo.read.content
    rw [List.map_append, List.append_assoc, List.map_singleton, List.singleton_append,
      ← Fifo.content_read hready, h.written]
  · intro due hdue
    injection hdue with hdue
    show u.now ≤ due
    omega
  · cases h.way with
    | starting _ _ _ _ _ _ _ hno => rw [hno] at hready; cases hready
    | rising hrx hwoken hcur harr hway =>
      rcases hway with ⟨_, _, hsent⟩ | ⟨m, hno, _⟩
      · refine .rising hrx hwoken hcur harr (Or.inr ⟨msg, rfl, rfl, ?_⟩)
        show u.sent ++ [(msg, u.now)] = _
        rw [hsent]
        rfl
      · rw [hno] at htx
        cases htx
    | ready hrx hwoken hcur _ _ hsent =>
      refine .falling msg hrx (Or.inl ⟨hwoken, hcur⟩) rfl rfl ?_
      show (u.sent ++ [(msg, u.now)]).map _ = _
      rw [List.map_append, show u.sent.map _ = u.arrived.map Prod.fst from hsent]
      rfl
    | falling _ _ _ _ hno _ => rw [hno] at htx; cases htx
    | receiving _ _ _ _ hslot _ _ =>
      rcases hslot.tx with ⟨_, hno⟩ | ⟨_, _, hno, _⟩ <;> rw [hno] at htx <;> cases htx

/-- The sender goes on inside a frame, which the receiver reads. -/
theorem Inv.sends (h : Inv u) {msg : BitVec 8} {cnt : Nat} (htx : u.tx = .sending msg cnt u.now) :
    ∃ T, cnt ≤ 8 ∧ u.now = T + (cnt + 1) * u.period ∧ u.woken = false ∧ u.line.next = symbol msg cnt ∧
      u.line.cur = symbol msg cnt ∧ Reading u msg T ∧
      u.expected = u.arrived.map Prod.fst ++ [(msg, T + u.period / 2 + 9 * u.period)] := by
  have hp : 0 < u.period := by
    have := h.long
    omega
  -- right after its start the sender is not due
  have hno : ∀ m, u.tx ≠ .sending m 0 (u.now + u.period) := by
    intro m hm
    rw [hm] at htx
    injection htx with _ _ hdue
    omega
  cases h.way with
  | starting _ _ _ _ hidle _ _ _ => rw [hidle] at htx; cases htx
  | rising _ _ _ _ hway =>
    rcases hway with ⟨hidle, _, _⟩ | ⟨m, hm, _⟩
    · rw [hidle] at htx
      cases htx
    · exact absurd hm (hno m)
  | ready _ _ _ _ hidle _ =>
    rcases hidle with hidle | ⟨due, hidle⟩ <;> rw [hidle] at htx <;> cases htx
  | falling m _ _ _ hm _ => exact absurd hm (hno m)
  | receiving m T k hwoken hslot hread hsent =>
    rcases hslot.tx with ⟨hk, hm⟩ | ⟨_, _, hm, _⟩
    · rw [hm] at htx
      injection htx with hmsg hcnt hdue
      subst hmsg hcnt
      refine ⟨T, hk, hdue.symm, hwoken, hslot.next, ?_, hread, hsent⟩
      rcases hslot.cur with hcur | hnow
      · exact hcur
      · have hsucc : (k + 1) * u.period = k * u.period + u.period := Nat.succ_mul k u.period
        omega
    · rw [hm] at htx
      cases htx

/-- **The next data bit.** -/
theorem Inv.sendsBit (h : Inv u) {msg : BitVec 8} {cnt : Nat} (htx : u.tx = .sending msg cnt u.now)
    (hlt : cnt < 8) :
    Inv { u with
      line := u.line.write (msg.getLsbD cnt), tx := .sending msg (cnt + 1) (u.now + u.period) } := by
  obtain ⟨T, _, hnow, hwoken, _, _, hread, hsent⟩ := h.sends htx
  refine ⟨h.long, h.written, h.kept, ?_, h.rxDue, ?_⟩
  · intro d hd
    injection hd with hd
    show u.now ≤ d
    omega
  · refine .receiving msg T (cnt + 1) hwoken ⟨Nat.le_of_eq hnow.symm, Or.inl ⟨by omega, ?_⟩, ?_, ?_⟩
      (hread.same rfl rfl) hsent
    · show Tx.sending msg (cnt + 1) (u.now + u.period) = _
      have hsucc : (cnt + 1 + 1) * u.period = (cnt + 1) * u.period + u.period :=
        Nat.succ_mul (cnt + 1) u.period
      rw [show u.now + u.period = T + (cnt + 1 + 1) * u.period by omega]
    · exact (symbol_succ msg hlt).symm
    · exact Or.inr hnow

/-- The stop bit begins. -/
theorem Inv.sendsStop (h : Inv u) {msg : BitVec 8} {cnt : Nat} (htx : u.tx = .sending msg cnt u.now)
    (hge : ¬ cnt < 8) :
    Inv { u with line := u.line.write true, tx := .stopping (u.now + u.stopTime) } := by
  obtain ⟨T, hcnt, hnow, hwoken, _, _, hread, hsent⟩ := h.sends htx
  obtain rfl : cnt = 8 := by omega
  have hstop := period_le_stopTime u
  refine ⟨h.long, h.written, h.kept, ?_, h.rxDue, ?_⟩
  · intro d hd
    injection hd with hd
    show u.now ≤ d
    omega
  · refine .receiving msg T 9 hwoken ⟨Nat.le_of_eq hnow.symm, Or.inr ⟨rfl, _, rfl, ?_⟩, rfl, Or.inr hnow⟩
      (hread.same rfl rfl) hsent
    show T + 10 * u.period ≤ u.now + u.stopTime
    omega

/-- **The stop bit is over.** The receiver was done before. -/
theorem Inv.rests (h : Inv u) (htx : u.tx = .stopping u.now) : Inv { u with tx := .idle } := by
  refine ⟨h.long, h.written, h.kept, fun _ hd => absurd hd.symm (Option.some_ne_none _), h.rxDue, ?_⟩
  cases h.way with
  | starting _ _ _ _ hidle _ _ _ => rw [hidle] at htx; cases htx
  | rising _ _ _ _ hway =>
    rcases hway with ⟨hidle, _, _⟩ | ⟨m, hm, _⟩
    · rw [hidle] at htx
      cases htx
    · rw [hm] at htx
      cases htx
  | ready hrx hwoken hcur hnext _ hsent => exact .ready hrx hwoken hcur hnext (Or.inl rfl) hsent
  | falling _ _ _ _ hm _ => rw [hm] at htx; cases htx
  | receiving msg T k _ hslot hread _ =>
    exfalso
    have hlong := h.long
    rcases hslot.tx with ⟨_, hm⟩ | ⟨_, due, hm, hdue⟩
    · rw [hm] at htx
      cases htx
    · rw [hm] at htx
      injection htx with htx
      cases hread with
      | half hr =>
        have := h.rxDue _ (by rw [hr]; rfl)
        omega
      | bits m cnt hcnt hr _ =>
        have := h.rxDue _ (by rw [hr]; rfl)
        have := Nat.mul_le_mul_right u.period (show cnt + 1 ≤ 9 by omega)
        omega

theorem Inv.outtake (h : Inv u) : Inv u.outtake := by
  unfold Uart.outtake
  split
  · rename_i htx
    split
    · exact h
    · rename_i msg msgs hready
      exact h.begins htx hready
  · rename_i msg cnt due htx
    split
    · rename_i hdue
      subst hdue
      split
      · rename_i hlt
        exact h.sendsBit htx hlt
      · rename_i hge
        exact h.sendsStop htx hge
    · exact h
  · rename_i due htx
    split
    · rename_i hdue
      subst hdue
      exact h.rests htx
    · exact h

/-! ## §5 — the receiver -/

/-- A receiver that is due has a byte before it. -/
theorem Inv.reads (h : Inv u) (hrx : u.rx.due = some u.now) :
    ∃ msg T k, u.woken = false ∧ InSlot u msg T k ∧ Reading u msg T ∧
      u.expected = u.arrived.map Prod.fst ++ [(msg, T + u.period / 2 + 9 * u.period)] := by
  cases h.way with
  | starting hno _ _ _ _ _ _ _ => rw [hno] at hrx; cases hrx
  | rising hno _ _ _ _ => rw [hno] at hrx; cases hrx
  | ready hno _ _ _ _ _ => rw [hno] at hrx; cases hrx
  | falling _ hno _ _ _ _ => rw [hno] at hrx; cases hrx
  | receiving msg T k hwoken hslot hread hsent => exact ⟨msg, T, k, hwoken, hslot, hread, hsent⟩

/-- **A look at the line** finds the sender in the slot of the bit. -/
theorem Inv.looks (h : Inv u) {msg : BitVec 8} {T k cnt : Nat} (hslot : InSlot u msg T k) (hcnt : cnt ≤ 8)
    (hnow : u.now = T + u.period / 2 + (cnt + 1) * u.period) :
    k = cnt + 1 ∧ u.line.cur = symbol msg (cnt + 1) := by
  have hp := h.long
  have hhalf : u.period / 2 < u.period := by omega
  have hk : k = cnt + 1 := by
    rcases hslot.tx with ⟨_, htx⟩ | ⟨hk, due, _, _⟩
    · exact slot_of_look hp hhalf hnow hslot.begun (h.txDue _ (by rw [htx]; rfl))
    · -- the stop bit comes after the last data bit, and the last look is in it
      have hbegun := hslot.begun
      rw [hk] at hbegun ⊢
      by_contra hne
      have hmul := Nat.mul_le_mul_right u.period (show cnt + 1 ≤ 8 by omega)
      omega
  refine ⟨hk, ?_⟩
  subst hk
  rcases hslot.cur with hcur | hold
  · exact hcur
  · omega

/-- The line has risen before the loop. -/
theorem Inv.rises (h : Inv u) (hrx : u.rx = .rising) (hwoken : u.woken = true) :
    Inv { u with woken := false, rx := if u.line.cur then .listening else .rising } := by
  refine ⟨h.long, h.written, h.kept, h.txDue, ?_, ?_⟩
  · intro due hdue
    dsimp only at hdue
    split at hdue <;> cases hdue
  · cases h.way with
    | starting _ hno _ _ _ _ _ _ => rw [hno] at hwoken; cases hwoken
    | ready hno _ _ _ _ _ => rw [hno] at hrx; cases hrx
    | falling _ hno _ _ _ _ => rw [hno] at hrx; cases hrx
    | receiving _ _ _ hno _ _ _ => rw [hno] at hwoken; cases hwoken
    | rising _ _ hcur harr hway =>
      have hlisten : (if u.line.cur then Rx.listening else .rising) = .listening := by rw [hcur]; rfl
      rcases hway with ⟨htx, hnext, hsent⟩ | ⟨msg, htx, hnext, hsent⟩
      · refine .ready hlisten rfl hcur hnext (Or.inl htx) ?_
        show u.sent.map _ = u.arrived.map Prod.fst
        rw [hsent, harr]
        rfl
      · refine .falling msg hlisten (Or.inl ⟨rfl, hcur⟩) hnext htx ?_
        show u.sent.map _ = u.arrived.map Prod.fst ++ _
        rw [hsent, harr]
        rfl

/-- **The start bit.** The line has changed while the receiver listens, so that it has fallen. -/
theorem Inv.falls (h : Inv u) (hrx : u.rx = .listening) (hwoken : u.woken = true) :
    Inv { u with
      woken := false, rx := if u.line.cur then .listening else .half (u.now + u.period / 2) } := by
  have hhalf : 0 < u.period / 2 := h.long
  cases h.way with
  | starting hno _ _ _ _ _ _ _ => rw [hno] at hrx; cases hrx
  | rising hno _ _ _ _ => rw [hno] at hrx; cases hrx
  | ready _ hno _ _ _ _ => rw [hno] at hwoken; cases hwoken
  | receiving _ _ _ hno _ _ _ => rw [hno] at hwoken; cases hwoken
  | falling msg _ hline hnext htx hsent =>
    rcases hline with ⟨hno, _⟩ | ⟨_, hcur⟩
    · rw [hno] at hwoken
      cases hwoken
    · have hrx' : (if u.line.cur then Rx.listening else .half (u.now + u.period / 2)) =
          .half (u.now + u.period / 2) := by rw [hcur]; rfl
      refine ⟨h.long, h.written, h.kept, h.txDue, ?_, ?_⟩
      · intro due hdue
        dsimp only at hdue
        rw [hrx'] at hdue
        injection hdue with hdue
        show u.now ≤ due
        omega
      · refine .receiving msg u.now 0 rfl ⟨?_, Or.inl ⟨Nat.zero_le _, ?_⟩, hnext, Or.inl hcur⟩
          (.half hrx') hsent
        · show u.now + 0 * u.period ≤ u.now
          omega
        · show u.tx = .sending msg 0 (u.now + (0 + 1) * u.period)
          rw [htx, Nat.zero_add, Nat.one_mul]

/-- The receiver looks next in a period, with so many bits of the byte. -/
theorem Inv.looksNext (h : Inv u) {msg m : BitVec 8} {T k cnt : Nat} (hwoken : u.woken = false)
    (hslot : InSlot u msg T k) (hcnt : cnt ≤ 8) (hnow : u.now = T + u.period / 2 + cnt * u.period)
    (hm : ∀ i < 8, m.getLsbD i = (decide (i < cnt) && msg.getLsbD i))
    (hsent : u.expected = u.arrived.map Prod.fst ++ [(msg, T + u.period / 2 + 9 * u.period)]) :
    Inv { u with rx := .bits m cnt (u.now + u.period) } := by
  refine ⟨h.long, h.written, h.kept, h.txDue, ?_, ?_⟩
  · intro due hdue
    injection hdue with hdue
    show u.now ≤ due
    omega
  · refine .receiving msg T k hwoken ⟨hslot.begun, hslot.tx, hslot.next, hslot.cur⟩
      (.bits m cnt hcnt ?_ hm) hsent
    show Rx.bits m cnt (u.now + u.period) = .bits m cnt (T + u.period / 2 + (cnt + 1) * u.period)
    have hsucc : (cnt + 1) * u.period = cnt * u.period + u.period := Nat.succ_mul cnt u.period
    rw [show u.now + u.period = T + u.period / 2 + (cnt + 1) * u.period by omega]

/-- The middle of the start bit. -/
theorem Inv.halfway (h : Inv u) (hrx : u.rx = .half u.now) :
    Inv { u with rx := .bits 0 0 (u.now + u.period) } := by
  obtain ⟨msg, T, k, hwoken, hslot, hread, hsent⟩ := h.reads (by rw [hrx]; rfl)
  cases hread with
  | bits _ _ _ hno _ => rw [hno] at hrx; cases hrx
  | half hr =>
    rw [hr] at hrx
    injection hrx with hnow
    exact h.looksNext hwoken hslot (Nat.zero_le _) (by omega) (fun i _ => by simp) hsent

/-- **A data bit** is that of the byte. -/
theorem Inv.bit (h : Inv u) {m : BitVec 8} {cnt : Nat} (hrx : u.rx = .bits m cnt u.now) (hlt : cnt < 8) :
    Inv { u with rx := .bits (takeBit m cnt u.line.cur) (cnt + 1) (u.now + u.period) } := by
  obtain ⟨msg, T, k, hwoken, hslot, hread, hsent⟩ := h.reads (by rw [hrx]; rfl)
  cases hread with
  | half hno => rw [hno] at hrx; cases hrx
  | bits m' cnt' hcnt hr hm =>
    rw [hr] at hrx
    injection hrx with hmm hcc hnow
    subst hmm hcc
    obtain ⟨_, hcur⟩ := h.looks hslot hcnt hnow.symm
    refine h.looksNext hwoken hslot hlt hnow.symm ?_ hsent
    rw [hcur, symbol_succ msg hlt]
    exact getLsbD_takeBit hlt hm

/-- **The last look**, in the stop bit: the byte is all there, and the line is ready for the next. -/
theorem Inv.arrives (h : Inv u) {m : BitVec 8} {cnt : Nat} (hrx : u.rx = .bits m cnt u.now)
    (hge : ¬ cnt < 8) : u.woken = false ∧ u.line.cur = true ∧ u.line.next = true ∧
      (∃ due, u.tx = .stopping due) ∧ u.expected = u.arrived.map Prod.fst ++ [(m, u.now)] := by
  obtain ⟨msg, T, k, hwoken, hslot, hread, hsent⟩ := h.reads (by rw [hrx]; rfl)
  cases hread with
  | half hno => rw [hno] at hrx; cases hrx
  | bits m' cnt' hcnt hr hm =>
    rw [hr] at hrx
    injection hrx with hmm hcc hnow
    subst hmm hcc
    obtain ⟨rfl, hcur⟩ := h.looks hslot hcnt hnow.symm
    obtain rfl : cnt' = 8 := by omega
    have hmsg : m' = msg := by
      apply BitVec.eq_of_getLsbD_eq
      intro i hi
      rw [hm i hi, decide_eq_true hi, Bool.true_and]
    subst hmsg
    have hstop : ∃ due, u.tx = .stopping due := by
      rcases hslot.tx with ⟨hno, _⟩ | ⟨_, due, htx, _⟩
      · omega
      · exact ⟨due, htx⟩
    have htime : T + u.period / 2 + 9 * u.period = u.now := hnow
    rw [htime] at hsent
    exact ⟨hwoken, hcur, hslot.next, hstop, hsent⟩

/-- **A byte is received**, into the FIFO if there is room. -/
theorem Inv.receives (h : Inv u) {m : BitVec 8} {cnt : Nat} (hrx : u.rx = .bits m cnt u.now)
    (hge : ¬ cnt < 8) {room : Bool} {fifo : Fifo (BitVec 8)}
    (hkept : u.consumed ++ fifo.content =
      (Lib.kept (u.arrived ++ [((m, u.now), room)])).map Prod.fst) :
    Inv { u with
      rx := .listening, fromFifo := fifo, arrived := u.arrived ++ [((m, u.now), room)] } := by
  obtain ⟨hwoken, hcur, hnext, hstop, hsent⟩ := h.arrives hrx hge
  refine ⟨h.long, h.written, hkept, h.txDue, fun _ hd => absurd hd.symm (Option.some_ne_none _), ?_⟩
  refine .ready rfl hwoken hcur hnext (Or.inr hstop) ?_
  show u.expected = (u.arrived ++ [((m, u.now), room)]).map Prod.fst
  rw [hsent, List.map_append]
  rfl

theorem Inv.intake (h : Inv u) : Inv u.intake := by
  unfold Uart.intake
  split
  · rename_i hrx
    split
    · rename_i hwoken
      exact h.rises hrx hwoken
    · exact h
  · rename_i hrx
    split
    · rename_i hwoken
      exact h.falls hrx hwoken
    · exact h
  · rename_i due hrx
    split
    · rename_i hdue
      subst hdue
      exact h.halfway hrx
    · exact h
  · rename_i m cnt due hrx
    split
    · rename_i hdue
      subst hdue
      split
      · rename_i hlt
        exact h.bit hrx hlt
      · rename_i hge
        split
        · refine h.receives hrx hge ?_
          rw [kept_append_full, h.kept]
        · refine h.receives hrx hge ?_
          rw [kept_append_room, Fifo.content_write, ← List.append_assoc, h.kept, List.map_append]
          rfl
    · exact h

/-! ## §6 — delta cycles and time -/

theorem Inv.delta (h : Inv u) : Inv u.delta := by
  unfold Uart.delta
  split
  · exact h
  · rename_i hbusy
    have hwoken : u.woken = false := Bool.eq_false_iff.mpr fun hw => hbusy (Or.inl hw)
    refine ⟨h.long, ?_, ?_, h.txDue, h.rxDue, ?_⟩
    · show u.written = u.sent.map Prod.fst ++ u.toFifo.update.content
      rw [Fifo.content_update, h.written]
    · show u.consumed ++ u.fromFifo.update.content = _
      rw [Fifo.content_update, h.kept]
    · cases h.way with
      | starting hrx _ hcur hnext htx hsent harr _ =>
        refine .rising hrx ?_ hnext harr (Or.inl ⟨htx, hnext, hsent⟩)
        show (decide (u.line.next ≠ u.line.cur) && u.rx.sensitive) = true
        rw [hrx, hnext, hcur]
        rfl
      | rising _ hno _ _ _ => rw [hno] at hwoken; cases hwoken
      | ready hrx _ hcur hnext htx hsent =>
        refine .ready hrx ?_ hnext hnext htx hsent
        show (decide (u.line.next ≠ u.line.cur) && u.rx.sensitive) = false
        rw [hnext, hcur]
        rfl
      | falling msg hrx hline hnext htx hsent =>
        rcases hline with ⟨_, hcur⟩ | ⟨hno, _⟩
        · refine .falling msg hrx (Or.inr ⟨?_, hnext⟩) hnext htx hsent
          show (decide (u.line.next ≠ u.line.cur) && u.rx.sensitive) = true
          rw [hrx, hnext, hcur]
          rfl
        · rw [hno] at hwoken
          cases hwoken
      | receiving msg T k _ hslot hread hsent =>
        have hdeaf : u.rx.sensitive = false := by
          cases hread with
          | half hr => rw [hr]; rfl
          | bits _ _ _ hr _ => rw [hr]; rfl
        refine .receiving msg T k ?_ ⟨hslot.begun, hslot.tx, hslot.next, Or.inl hslot.next⟩ ?_ hsent
        · show (decide (u.line.next ≠ u.line.cur) && u.rx.sensitive) = false
          rw [hdeaf, Bool.and_false]
        · exact hread.same rfl rfl

/-- Time stops when a thread is due. -/
theorem Inv.stop (h : Inv u) (d : Nat) :
    u.now ≤ u.stop d ∧ (∀ due, u.tx.due = some due → u.stop d ≤ due) ∧
      ∀ due, u.rx.due = some due → u.stop d ≤ due := by
  unfold Uart.stop
  refine ⟨?_, fun due hdue => ?_, fun due hdue => ?_⟩
  · have htx : u.now ≤ u.tx.due.getD (u.now + d) := by
      cases hcase : u.tx.due with
      | none => exact Nat.le_add_right _ _
      | some due => exact h.txDue due hcase
    have hrx : u.now ≤ u.rx.due.getD (u.now + d) := by
      cases hcase : u.rx.due with
      | none => exact Nat.le_add_right _ _
      | some due => exact h.rxDue due hcase
    omega
  · rw [hdue]
    dsimp only [Option.getD]
    omega
  · rw [hdue]
    dsimp only [Option.getD]
    omega

theorem Inv.advance (h : Inv u) (d : Nat) : Inv (u.advance d) := by
  unfold Uart.advance
  split
  · exact h
  · rename_i hfree
    push Not at hfree
    obtain ⟨hbusy, hquiet, _⟩ := hfree
    have hwoken : u.woken = false := Bool.eq_false_iff.mpr fun hw => hbusy (Or.inl hw)
    have hquiet : u.line.next = u.line.cur := hquiet
    obtain ⟨hlater, htxDue, hrxDue⟩ := h.stop d
    refine ⟨h.long, h.written, h.kept, htxDue, hrxDue, ?_⟩
    cases h.way with
    | starting _ _ hcur hnext _ _ _ _ =>
      rw [hnext, hcur] at hquiet
      cases hquiet
    | rising _ hno _ _ _ => rw [hno] at hwoken; cases hwoken
    | ready hrx hw hcur hnext htx hsent => exact .ready hrx hw hcur hnext htx hsent
    | falling msg _ hline hnext _ _ =>
      rcases hline with ⟨_, hcur⟩ | ⟨hno, _⟩
      · rw [hnext, hcur] at hquiet
        cases hquiet
      · rw [hno] at hwoken
        cases hwoken
    | receiving msg T k hw hslot hread hsent =>
      refine .receiving msg T k hw ⟨Nat.le_trans hslot.begun hlater, hslot.tx, hslot.next, ?_⟩ ?_ hsent
      · exact Or.inl (hquiet.symm.trans hslot.next)
      · exact hread.same rfl rfl

/-! ## §7 — runs -/

theorem Inv.step (h : Inv u) (e : Event) : Inv (u.step e) := by
  cases e with
  | produce msg => exact h.produce msg
  | setStop stopbits => exact h.setStop stopbits
  | consume => exact h.consume
  | outtake => exact h.outtake
  | intake => exact h.intake
  | delta => exact h.delta
  | advance d => exact h.advance d

theorem Inv.run (h : Inv u) (es : List Event) : Inv (es.foldl Uart.step u) :=
  List.foldlRecOn es Uart.step h fun _ h e _ => h.step e

theorem half_setBaud_pos {rate : Nat} (hpos : 0 < rate) (hrate : rate ≤ 115200) : 0 < setBaud rate / 2 := by
  have hdiv : 0 < 115200 / rate := Nat.div_pos hrate hpos
  unfold setBaud
  omega

end Uart

end Espmod.Serial
