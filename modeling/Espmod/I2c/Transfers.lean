/-
# Espmod.I2c.Transfers — write and read transfers over the bus

A transfer is a start, the address with its direction, the bytes, and a stop. Each byte that the master
writes is followed by a clock for the answer of the slave, each byte that it reads by its own answer,
`A` for all but the last. The rules here put the bits of a byte together, and then the bytes.
-/
import Espmod.I2c.Bus
import Espmod.I2c.TwoWire
import Mathlib.Tactic.Ring
import Mathlib.Tactic.IntervalCases

namespace Espmod.I2c

universe u v

/-! ## §1 — the symbols of a transfer -/

/-- The `i2cstate` of the slaves. -/
inductive I2cState where
  | idle
  | devid
  | ackwr
  | ackrd
  | retz
  | ackwrd
  | wrdata
  | read
  | acknack
deriving Repr, DecidableEq

/-- The bits of a byte, the highest one first. -/
def bitsOf (data : BitVec 8) : List Bool := [7, 6, 5, 4, 3, 2, 1, 0].map data.getLsbD

/-- An address with the direction of the transfer. -/
def addressByte (address : BitVec 8) (rw : Bool) : BitVec 8 := address <<< 1 ||| if rw then 1 else 0

/-- A byte to the slave. -/
def sendByte (data : BitVec 8) : List Char := binary data ++ ['Z']

/-- A byte from the slave. -/
def readByte (last : Bool) : List Char := List.replicate 8 'Z' ++ [if last then 'N' else 'A']

/-- A write between its start and its stop. -/
def writeBody (address : BitVec 8) (data : List (BitVec 8)) : List Char :=
  sendByte (addressByte address false) ++ data.flatMap sendByte

/-- A read of `n` bytes and a last one, between its start and its stop. -/
def readBody (address : BitVec 8) (n : Nat) : List Char :=
  sendByte (addressByte address true) ++
    ((List.replicate n (readByte false)).flatten ++ readByte true)

/-- The bits of bytes as the master puts them into `from`. -/
def bitSymbols (data : List (BitVec 8)) : List Char := data.flatMap binary

/-! ## §2 — bytes and bits -/

/-- `(data << 1) + (bit)`. -/
def shiftIn (data : Nat) (v : Bool) : Nat := (data <<< 1) + if v then 1 else 0

theorem binary_eq (data : BitVec 8) : binary data = (bitsOf data).map Bus.symbolOf := by
  unfold binary bitsOf
  rw [List.map_map]
  rfl

theorem foldl_shiftIn (x : Nat) : ∀ n a : Nat,
    ((List.range n).reverse.map x.testBit).foldl shiftIn a = a * 2 ^ n + x % 2 ^ n := by
  intro n
  induction n with
  | zero => intro a; simp [Nat.mod_one]
  | succ n ih =>
    intro a
    have hbit : shiftIn a (x.testBit n) = 2 * a + (x.testBit n).toNat := by
      rw [shiftIn, Nat.shiftLeft_eq, pow_one, Nat.mul_comm]
      cases x.testBit n <;> rfl
    rw [List.range_succ, List.reverse_append, List.reverse_singleton, List.singleton_append,
      List.map_cons, List.foldl_cons, ih, hbit, Nat.toNat_testBit, Nat.mod_pow_succ, pow_succ]
    ring

/-- A byte is what its bits shift in. -/
theorem foldl_shiftIn_bitsOf (data : BitVec 8) : (bitsOf data).foldl shiftIn 0 = data.toNat := by
  have he : bitsOf data = (List.range 8).reverse.map data.toNat.testBit := rfl
  rw [he, foldl_shiftIn, Nat.zero_mul, Nat.zero_add, Nat.mod_eq_of_lt data.isLt]

theorem bitsOf_length (data : BitVec 8) : (bitsOf data).length = 8 := rfl

theorem addressByte_toNat {address : BitVec 8} (h : address.toNat < 0x80) (rw : Bool) :
    (addressByte address rw).toNat = 2 * address.toNat + if rw then 1 else 0 := by
  have hshift : (address <<< 1).toNat = 2 ^ 1 * address.toNat := by
    rw [BitVec.toNat_shiftLeft, Nat.shiftLeft_eq, Nat.mod_eq_of_lt (by omega), Nat.mul_comm]
  unfold addressByte
  rw [BitVec.toNat_or, hshift]
  cases rw
  · simp
  · exact (Nat.two_pow_add_eq_or_of_lt (i := 1) (b := 1) (by decide) address.toNat).symm

/-- The bit of a byte that comes after some others. -/
theorem bitsOf_split {data : BitVec 8} {l r : List Bool} {v : Bool} (h : l ++ v :: r = bitsOf data) :
    l.length < 8 ∧ v = data.getLsbD (7 - l.length) ∧ (l.length = 7 → r = []) := by
  have hlen := congrArg List.length h
  rw [List.length_append, List.length_cons, bitsOf_length] at hlen
  have hlt : l.length < 8 := by omega
  have hget := congrArg (fun w => w[l.length]?) h
  have hbit : ∀ k < 8, (bitsOf data)[k]? = some (data.getLsbD (7 - k)) := by
    intro k hk
    interval_cases k <;> rfl
  simp only [List.getElem?_append_right (Nat.le_refl _), Nat.sub_self, List.getElem?_cons_zero,
    hbit _ hlt, Option.some.injEq] at hget
  exact ⟨hlt, hget, fun h7 => List.length_eq_zero_iff.mp (by omega)⟩

/-- After seven bits the slave has the address, and the eighth is the direction. -/
theorem addressByte_bits {address : BitVec 8} (h : address.toNat < 0x80) {rw v : Bool}
    {l : List Bool} (hl : l ++ [v] = bitsOf (addressByte address rw)) :
    l.foldl shiftIn 0 = address.toNat ∧ v = rw := by
  have hfold := foldl_shiftIn_bitsOf (addressByte address rw)
  rw [← hl, List.foldl_append, List.foldl_cons, List.foldl_nil, addressByte_toNat h, shiftIn,
    Nat.shiftLeft_eq] at hfold
  cases v <;> cases rw <;> simp_all <;> omega

/-! ## §3 — bytes over the bus -/

/-- Nobody uses the lines. -/
def AtRest {σ : Type u} {ε : Type v} (S : Slave σ ε) (b : Bus σ) : Prop :=
  b.Rest S (fun _ => True) b.master.fromFifo b.conds

/-- A run from a start over the body of a transfer to its stop. -/
structure RunsTransfer {σ : Type u} {ε : Type v} (S : Slave σ ε) (body : List Char)
    (b₀ b₁ b₂ b₃ : Bus σ) : Prop where
  rest : AtRest S b₀
  start : Bus.Runs S b₀ ['S'] b₁
  body : Bus.Runs S b₁ body b₂
  stop : Bus.Runs S b₂ ['P'] b₃

theorem atRest_init {σ : Type u} {ε : Type v} {S : Slave σ ε} {s : σ} (h : S.low s = false) :
    AtRest S (Bus.init s) :=
  ⟨rfl, rfl, rfl, rfl, rfl, rfl, rfl, h, trivial⟩

/-- The bus after a transfer whose symbols were all ready. -/
def transferred {σ : Type u} {ε : Type v} (S : Slave σ ε) (body : List Char) (b : Bus σ) : Bus σ :=
  ((b.symbols S ['S']).symbols S body).symbols S ['P']

/-- There is a run of any transfer. -/
theorem runsTransfer_symbols {σ : Type u} {ε : Type v} {S : Slave σ ε} {b : Bus σ}
    (h : AtRest S b) (body : List Char) :
    RunsTransfer S body b (b.symbols S ['S']) ((b.symbols S ['S']).symbols S body)
      (transferred S body b) :=
  ⟨h, Bus.runs_symbols _ _, Bus.runs_symbols _ _, Bus.runs_symbols _ _⟩

/-- The slave has taken the start and the stop of the transfer, and nothing else as one. -/
def OnlyEnds {σ : Type u} (b₀ b₁ b₂ b₃ : Bus σ) : Prop :=
  b₁.conds = b₀.conds ++ [Cond.start] ∧ b₂.conds = b₁.conds ∧ b₃.conds = b₂.conds ++ [Cond.stop]

namespace Bus

variable {σ : Type u} {ε : Type v} {S : Slave σ ε} {state : State} {out : List Char}
  {cs : List Cond} {Q : σ → Prop}

/-- A byte that the slave acknowledges. `R` is the slave after the bits it has taken. -/
theorem Triple.sendByte {R : List Bool → σ → Prop} {data : BitVec 8} {rw : Bool}
    (hst : state = .devid ∧ data.getLsbD 0 = rw ∨ state = .writing ∧ rw = false)
    (hR : ∀ l, Stable S (R l)) (hQ : Stable S Q)
    (hbit : ∀ l v r, l ++ v :: r = bitsOf data →
      ∀ s, R l s → Steady S v s ∧ R (l ++ [v]) (clocked S v s))
    (hask : ∀ s, R (bitsOf data) s → S.low s = true ∧ Steady S true s ∧ Q (clocked S true s)) :
    Triple S (Boundary S (R []) state none out cs) (sendByte data)
      (Boundary S Q (if rw then .reading else .writing) none (out ++ ['A']) cs) := by
  have hbits : Triple S (Boundary S (R []) state none out cs) _ _ :=
    Triple.bits (hst.imp And.left And.left) hR hbit
  have hlast : (bitsOf data).foldl (fun _ v => some v) none = some (data.getLsbD 0) := rfl
  have hst' : state = .devid ∧ some (data.getLsbD 0) = some rw ∨ state = .writing ∧ !rw := by
    rcases hst with ⟨rfl, rfl⟩ | ⟨rfl, rfl⟩
    · exact Or.inl ⟨rfl, rfl⟩
    · exact Or.inr ⟨rfl, rfl⟩
  rw [hlast, ← binary_eq] at hbits
  refine hbits.seq (Triple.symbol (fun b e h => h.world (hR _) e) (fun b e h => h.world hQ e) ?_)
  exact fun b ready h => h.ask hst' hask ready

/-- All bytes of a write are acknowledged. `W` is the slave after the bytes it has taken. -/
theorem Triple.sendBytes {W : List (BitVec 8) → σ → Prop} {data : List (BitVec 8)}
    (hW : ∀ l, Stable S (W l))
    (hbyte : ∀ l d r out, l ++ d :: r = data →
      Triple S (Boundary S (W l) .writing none out cs) (I2c.sendByte d)
        (Boundary S (W (l ++ [d])) .writing none (out ++ ['A']) cs)) :
    Triple S (Boundary S (W []) .writing none out cs) (data.flatMap I2c.sendByte)
      (Boundary S (W data) .writing none (out ++ List.replicate data.length 'A') cs) := by
  have hgen : ∀ r l out, l ++ r = data →
      Triple S (Boundary S (W l) .writing none out cs) (r.flatMap I2c.sendByte)
        (Boundary S (W data) .writing none (out ++ List.replicate r.length 'A') cs) := by
    intro r
    induction r with
    | nil =>
      intro l out he
      rw [List.append_nil] at he
      rw [he, List.length_nil, List.replicate_zero, List.append_nil]
      exact Triple.nil fun b e h => h.world (hW data) e
    | cons d r ih =>
      intro l out he
      have hrest := ih (l ++ [d]) (out ++ ['A']) (by rw [← he]; simp)
      rw [List.append_assoc] at hrest
      exact (hbyte l d r out he).seq hrest
  exact hgen data [] out rfl

/-- A byte of the slave, and the answer to it. `R` is the slave after the bits it has sent. -/
theorem Triple.readByte {R : List Bool → σ → Prop} {data : BitVec 8} {last : Bool}
    (hR : ∀ l, Stable S (R l)) (hQ : Stable S Q)
    (hbit : ∀ l v r, l ++ v :: r = bitsOf data →
      ∀ s, R l s → S.low s = !v ∧ Steady S true s ∧ R (l ++ [v]) (clocked S true s))
    (hanswer : ∀ s, R (bitsOf data) s → Steady S last s ∧ Q (clocked S last s)) :
    Triple S (Boundary S (R []) .reading none out cs) (readByte last)
      (Boundary S Q (if last then .idle else .reading) none (out ++ binary data) cs) := by
  have hbits : Triple S (Boundary S (R []) .reading none out cs) _ _ := Triple.gets hR hbit
  rw [← binary_eq] at hbits
  refine hbits.seq (Triple.symbol (fun b e h => h.world (hR _) e) (fun b e h => h.world hQ e) ?_)
  exact fun b ready h => h.answer hanswer ready

theorem Boundary.exists {ι : Type} {P : ι → σ → Prop} {last : Option Bool} {b : Bus σ}
    (h : Boundary S (fun s => ∃ i, P i s) state last out cs b) :
    ∃ i, Boundary S (P i) state last out cs b := by
  obtain ⟨s, ⟨i, hs⟩, hb⟩ := h.slave
  exact ⟨i, h.state, h.last, h.out, h.conds, s, hs, hb⟩

/-- All bytes of a read. `W` is the slave when it has sent some bytes and sends the next one, `F`
after the last one. -/
theorem Triple.readBytes {W : List (BitVec 8) → BitVec 8 → σ → Prop}
    {F : List (BitVec 8) → σ → Prop}
    (hmore : ∀ l d out, Triple S (Boundary S (W l d) .reading none out cs) (I2c.readByte false)
      (Boundary S (fun s => ∃ d', W (l ++ [d]) d' s) .reading none (out ++ binary d) cs))
    (hlast : ∀ l d out, Triple S (Boundary S (W l d) .reading none out cs) (I2c.readByte true)
      (Boundary S (F (l ++ [d])) .idle none (out ++ binary d) cs)) (n : Nat) :
    Triple S (Boundary S (fun s => ∃ d, W [] d s) .reading none out cs)
      ((List.replicate n (I2c.readByte false)).flatten ++ I2c.readByte true)
      (fun b => ∃ l, l.length = n + 1 ∧
        Boundary S (F l) .idle none (out ++ bitSymbols l) cs b) := by
  have hgen : ∀ n (l : List (BitVec 8)),
      Triple S (Boundary S (fun s => ∃ d, W l d s) .reading none (out ++ bitSymbols l) cs)
        ((List.replicate n (I2c.readByte false)).flatten ++ I2c.readByte true)
        (fun b => ∃ l', l'.length = l.length + n + 1 ∧
          Boundary S (F l') .idle none (out ++ bitSymbols l') cs b) := by
    have hone (l : List (BitVec 8)) (d : BitVec 8) :
        out ++ bitSymbols l ++ binary d = out ++ bitSymbols (l ++ [d]) := by
      simp [bitSymbols]
    intro n
    induction n with
    | zero =>
      intro l b b' hb hrun
      obtain ⟨d, hd⟩ := hb.exists
      have h := hlast l d _ b b' hd hrun
      rw [hone] at h
      exact ⟨l ++ [d], by simp, h⟩
    | succ n ih =>
      intro l b b' hb hrun
      rw [List.replicate_succ, List.flatten_cons, List.append_assoc] at hrun
      obtain ⟨b₁, hfirst, hrest⟩ := hrun.split _ _ rfl
      obtain ⟨d, hd⟩ := hb.exists
      have h := hmore l d _ b b₁ hd hfirst
      rw [hone] at h
      obtain ⟨l', hlen, hl'⟩ := ih (l ++ [d]) b₁ b' h hrest
      rw [List.length_append, List.length_singleton] at hlen
      exact ⟨l', by omega, hl'⟩
  have h := hgen n []
  simp only [bitSymbols, List.flatMap_nil, List.append_nil, List.length_nil, Nat.zero_add] at h
  exact h

end Bus

/-! ## §4 — whole transfers -/

/-- **A transfer**, from what its start, its body and its stop do. `K` is the slave before, `P` after
the start, `Q` before the stop and `F` after it. -/
theorem RunsTransfer.result {σ : Type u} {ε : Type v} {S : Slave σ ε} {body : List Char}
    {b₀ b₁ b₂ b₃ : Bus σ} {ι : Type} {state : State} {out : ι → List Char} {K P : σ → Prop}
    {Q F : ι → σ → Prop} (h : RunsTransfer S body b₀ b₁ b₂ b₃) (hrest : K b₀.slave)
    (hK : Bus.Stable S K) (hP : Bus.Stable S P) (hQ : ∀ i, Bus.Stable S (Q i))
    (hF : ∀ i, Bus.Stable S (F i))
    (hstart : ∀ s, K s → S.low s = false → P (S.fall (S.start s)))
    (hbody : ∀ cs, Bus.Triple S (Bus.Boundary S P .devid none b₀.master.fromFifo cs) body
      (fun b => ∃ i, Bus.Boundary S (Q i) state none (out i) cs b))
    (hstop : ∀ i s, Q i s → S.low (S.rise false s) = false ∧ F i (S.stop (S.rise false s))) :
    ∃ i, F i b₃.slave ∧ b₃.master.fromFifo = out i ∧ OnlyEnds b₀ b₁ b₂ b₃ ∧ AtRest S b₃ := by
  have hrest₀ : Bus.Rest S K b₀.master.fromFifo b₀.conds b₀ := { h.rest with slave := hrest }
  have h₁ : Bus.Boundary S P .devid none b₀.master.fromFifo (b₀.conds ++ [Cond.start]) b₁ :=
    Bus.Triple.symbol (fun b e hb => hb.world hK e) (fun b e hb => hb.world hP e)
      (fun b ready hb => hb.start hstart ready) b₀ b₁ hrest₀ h.start
  obtain ⟨i, h₂⟩ := hbody _ b₁ b₂ h₁ h.body
  have h₃ : Bus.Rest S (F i) (out i) (b₀.conds ++ [Cond.start] ++ [Cond.stop]) b₃ :=
    Bus.Triple.symbol (fun b e hb => hb.world (hQ i) e) (fun b e hb => hb.world (hF i) e)
      (fun b ready hb => hb.stop (hstop i) ready) b₂ b₃ h₂ h.stop
  refine ⟨i, h₃.slave, h₃.out, ⟨h₁.conds, ?_, ?_⟩, { h₃ with out := rfl, conds := rfl, slave := trivial }⟩
  · rw [h₂.conds, h₁.conds]
  · rw [h₃.conds, h₂.conds]

end Espmod.I2c
