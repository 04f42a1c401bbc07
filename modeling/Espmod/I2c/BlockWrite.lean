/-
# Espmod.I2c.BlockWrite — many bytes in one write

The Wire library writes in two ways. `write(data)` sends the eight bits of a byte and a `Z`, the clock
for its answer, and waits for the answer. `write(data, size)` sends the bits of all its bytes and
nothing else. The slave is given no clock to acknowledge any of them, no answer is read, and `size` is
returned. It does not look at `transmitting` either, and it does not wait for the master: `to->write`
waits only while the FIFO is full, and a byte whose turn comes when it is full is left out.
-/
import Espmod.I2c.TwoWire

namespace Espmod.I2c

open Espmod.Lib

/-! ## §1 — the block write -/

/-- `write(data, size)` on its way: the symbols left of the byte at hand, the bytes behind it, and what
it will return. -/
structure Block where
  symbols : List Char
  bytes : List (BitVec 8)
  size : Nat
deriving Repr, DecidableEq

/-- A byte is next. -/
def Block.between (b : Block) : Bool := b.symbols.isEmpty && !b.bytes.isEmpty

/-- A `TwoWire` whose caller may be in a block write. -/
structure BlockWire extends TwoWire where
  block : Option Block
  /-- history: what has been put into `to` -/
  sent : List Char
  /-- history: how many bytes of write transfers have been acknowledged -/
  acks : Nat
  /-- history: what the block writes have returned -/
  sizes : List Nat

namespace BlockWire

inductive Event where
  /-- a call, an answer or a symbol, as without block writes -/
  | call (e : TwoWire.Event)
  | writeBlock (data : List (BitVec 8))
  /-- the caller goes on with its block write -/
  | proceed
deriving Repr, DecidableEq

/-- Before the first call. -/
def init (rwbit : Bool) : BlockWire := ⟨TwoWire.init rwbit, none, [], 0, []⟩

/-- The master takes a symbol; an accepted byte is counted. -/
def symbol (sda : Bool) (s : BlockWire) : BlockWire :=
  { s with
    toTwoWire := s.toTwoWire.symbol sda
    acks :=
      if s.toFifo.head? = some 'Z' ∧ s.master.fromFifo.length < fifoDepth ∧ s.master.state = .writing ∧
        sda = false then s.acks + 1
      else s.acks }

/-- A call, or the caller at an answer. It puts symbols behind those that are in the FIFO. -/
def call (e : TwoWire.Event) (s : BlockWire) : BlockWire :=
  { s with
    toTwoWire := s.toTwoWire.step e
    sent := s.sent ++ (s.toTwoWire.step e).toFifo.drop s.toFifo.length }

def writeBlock (data : List (BitVec 8)) (s : BlockWire) : BlockWire :=
  { s with block := some ⟨[], data, data.length⟩ }

/-- Up to the next `to->write` that succeeds. -/
def proceed (s : BlockWire) : BlockWire :=
  match s.block with
  | none => s
  | some ⟨c :: cs, bytes, size⟩ =>
    if s.toFifo.length < fifoDepth then
      { s with toFifo := s.toFifo ++ [c], sent := s.sent ++ [c], block := some ⟨cs, bytes, size⟩ }
    else s
  | some ⟨[], data :: bytes, size⟩ =>
    -- `writebin` gives up where there is no room for the first bit
    if fifoDepth - s.toFifo.length < 1 then { s with block := some ⟨[], bytes, size⟩ }
    else { s with block := some ⟨binary data, bytes, size⟩ }
  | some ⟨[], [], size⟩ => { s with block := none, sizes := s.sizes ++ [size] }

def step (s : BlockWire) : Event → BlockWire
  | .call (.symbol sda) => s.symbol sda
  | .call e => if s.block.isNone then s.call e else s
  | .writeBlock data => if s.phase = .outside ∧ s.block.isNone then s.writeBlock data else s
  | .proceed => s.proceed

/-! ## §2 — the two ways to write -/

/-- The slave does not refuse a byte. -/
def Accepts (s : BlockWire) : Event → Prop
  | .call e => s.toTwoWire.Accepts e
  | _ => True

/-- An open transmission: the caller is in none of the functions, and its address was acknowledged. -/
structure Open (s : BlockWire) : Prop where
  reached : ∃ (rwbit : Bool) (es : List Event),
    Throughout Accepts step (init rwbit) es ∧ s = es.foldl step (init rwbit)
  outside : s.phase = .outside
  block : s.block = none
  transmitting : s.transmitting = true

/-- In a block write only the caller and the master go on, and no byte finds the FIFO full. -/
def InBlock (s : BlockWire) : Event → Prop
  | .call (.symbol _) => True
  | .call _ => False
  | .writeBlock _ => False
  | .proceed => s.block.any Block.between → s.toFifo.length < fifoDepth

instance (s : BlockWire) : ∀ e : Event, Decidable (s.Accepts e)
  | .call (.symbol sda) =>
    inferInstanceAs (Decidable (s.toFifo.head? = some 'Z' → s.master.state = .writing → sda = false))
  | .call (.beginTransmission _) | .call (.write _) | .call (.endTransmission _) | .call .resume => isTrue trivial
  | .writeBlock _ | .proceed => isTrue trivial

instance (s : BlockWire) : ∀ e : Event, Decidable (s.InBlock e)
  | .call (.symbol _) => isTrue trivial
  | .call (.beginTransmission _) | .call (.write _) | .call (.endTransmission _) | .call .resume => isFalse id
  | .writeBlock _ => isFalse id
  | .proceed => inferInstanceAs (Decidable (_ → _))

/-- Single writes, one after the other, each with room in the FIFO and with an acknowledgement. -/
def InSingles (s : BlockWire) : Event → Prop
  | .call (.symbol sda) => s.toTwoWire.Accepts (.symbol sda)
  | .call .resume => True
  | .call (.write _) => s.phase = .outside ∧ s.toFifo.length + 9 ≤ fifoDepth
  | _ => False

instance (s : BlockWire) : ∀ e : Event, Decidable (s.InSingles e)
  | .call (.symbol sda) =>
    inferInstanceAs (Decidable (s.toFifo.head? = some 'Z' → s.master.state = .writing → sda = false))
  | .call .resume => isTrue trivial
  | .call (.write _) => inferInstanceAs (Decidable (_ ∧ _))
  | .call (.beginTransmission _) | .call (.endTransmission _) => isFalse id
  | .writeBlock _ | .proceed => isFalse id

/-- The bytes of single writes. -/
def written (es : List Event) : List (BitVec 8) :=
  es.filterMap fun e =>
    match e with
    | .call (.write data) => some data
    | _ => none

/-- A block write of `data` from its call to its return. -/
structure BlockRun (s : BlockWire) (data : List (BitVec 8)) (es : List Event) : Prop where
  legal : Throughout InBlock step (s.step (.writeBlock data)) es
  ended : (es.foldl step (s.step (.writeBlock data))).block = none

/-- Single writes of the bytes of `data`, from the first call to the last return. -/
structure SinglesRun (s : BlockWire) (data : List (BitVec 8)) (es : List Event) : Prop where
  legal : Throughout InSingles step s es
  bytes : written es = data
  ended : (es.foldl step s).phase = .outside

/-- What the block write leaves, in `b`, against what the single writes leave, in `t`: the same symbols
have been sent, the same answers are left, and it returned how many bytes were acknowledged. -/
structure Equal (s b t : BlockWire) : Prop where
  sent : b.sent = t.sent
  answers : b.master.fromFifo = t.master.fromFifo
  returned : b.sizes.getLast? = some (b.acks - s.acks)

/-! ## §3 — the invariant -/

/-- Symbols that the master takes without an answer. -/
def Plain (ps : List Char) : Prop := ∀ p ∈ ps, p ≠ 'S' ∧ p ≠ 'Z'

/-- The caller is in none of the functions, or in a block write. -/
structure Still (w : TwoWire) : Prop where
  quiet : w.master.fromFifo = []
  plain : Plain w.toFifo
  open_ : w.transmitting = true → (∃ bs, w.toFifo = TwoWire.bitSymbols bs) ∧ w.master.state = .writing

/-- The address of a write behind what was there before. -/
inductive Calling (w : TwoWire) : Prop where
  | pending (p : Char) (ps : List Char) (bs : List Bool) (hps : Plain (p :: ps))
      (hto : w.toFifo = p :: ps ++ 'S' :: (TwoWire.bitSymbols bs ++ ['0', 'Z'])) (hfrom : w.master.fromFifo = [])
  | addressing (h : TwoWire.Addressing w)

/-- What the library and the master keep between them. -/
structure Wired (w : TwoWire) : Prop where
  outside : w.phase = .outside → Still w
  beginning : w.phase = .beginning → Calling w
  writing : ∀ data, w.phase = .writing data → w.master.state = .writing ∧ w.Writing

/-- **The invariant** of the runs in which no byte is refused. -/
structure Inv (s : BlockWire) : Prop where
  wired : Wired s.toTwoWire
  block : ∀ b, s.block = some b → s.phase = .outside ∧ ∃ bs, b.symbols = TwoWire.bitSymbols bs

variable {s s₀ : BlockWire} {w : TwoWire}

theorem plain_bitSymbols (bs : List Bool) : Plain (TwoWire.bitSymbols bs) := by
  have hbit : ∀ b : Bool, (if b then '1' else '0') ≠ 'S' ∧ (if b then '1' else '0') ≠ 'Z' := by decide
  intro p hp
  obtain ⟨b, _, rfl⟩ := List.mem_map.mp hp
  exact hbit b

theorem Plain.append {ps qs : List Char} (hps : Plain ps) (hqs : Plain qs) : Plain (ps ++ qs) := by
  intro p hp
  rcases List.mem_append.mp hp with hp | hp
  · exact hps p hp
  · exact hqs p hp

theorem inv_init (rwbit : Bool) : Inv (init rwbit) where
  wired :=
    { outside := fun _ => ⟨rfl, fun _ hp => absurd hp List.not_mem_nil, fun h => Bool.noConfusion h⟩
      beginning := fun h => Phase.noConfusion h
      writing := fun _ h => Phase.noConfusion h }
  block := fun _ h => absurd h (Option.some_ne_none _).symm

/-- A symbol, and the rest of the FIFO. -/
theorem Still.symbol (h : Still w) {p : Char} {ps : List Char} (hto : w.toFifo = p :: ps) (sda acked : Bool) :
    Still { w with toFifo := ps, master := w.master.symbol sda p, acked := acked } := by
  have hp := h.plain p (hto ▸ List.mem_cons_self ..)
  refine ⟨(Master.fromFifo_symbol w.master sda hp.2).trans h.quiet, ?_, ?_⟩
  · exact fun q hq => h.plain q (hto ▸ List.mem_cons_of_mem _ hq)
  · intro htrans
    obtain ⟨⟨bs, hbits⟩, hstate⟩ := h.open_ htrans
    rw [hto] at hbits
    cases bs with
    | nil => cases hbits
    | cons b bs =>
      injection hbits with hbit hrest
      subst hbit
      exact ⟨⟨bs, hrest⟩, (Master.symbol_bit (m := w.master) sda (Or.inr hstate) b).1.trans hstate⟩

/-- The address, one symbol further. -/
theorem Calling.symbol (h : Calling w) {p : Char} {ps : List Char} (hto : w.toFifo = p :: ps)
    (sda acked : Bool) :
    Calling { w with toFifo := ps, master := w.master.symbol sda p, acked := acked } := by
  cases h with
  | addressing h => exact .addressing (h.symbol hto sda acked)
  | pending q qs bs hqs hto' hfrom =>
    rw [hto'] at hto
    injection hto with hp hps
    subst hp
    have hquiet := (Master.fromFifo_symbol w.master sda (hqs q (List.mem_cons_self ..)).2).trans hfrom
    cases qs with
    | nil => exact .addressing (.sent [] bs (fun _ hp => absurd hp List.not_mem_nil) hps.symm hquiet)
    | cons r rs => exact .pending r rs bs (fun x hx => hqs x (List.mem_cons_of_mem _ hx)) hps.symm hquiet

theorem Wired.symbol (h : Wired w) {sda : Bool} (hok : w.Accepts (.symbol sda)) :
    Wired (w.symbol sda) := by
  unfold TwoWire.symbol
  split
  · rename_i p ps hto
    split
    · refine ⟨fun hphase => (h.outside hphase).symbol hto sda _,
        fun hphase => (h.beginning hphase).symbol hto sda _, fun data hphase => ?_⟩
      obtain ⟨hstate, hway⟩ := h.writing data hphase
      exact hway.symbol hstate hto hok
    · exact h
  · exact h

/-! ## §4 — the calls -/

/-- The caller is outside, and stays there. -/
theorem Still.wired (h : Still w) (hphase : w.phase = .outside) : Wired w where
  outside := fun _ => h
  beginning := fun hp => Phase.noConfusion (hp.symm.trans hphase)
  writing := fun _ hp => Phase.noConfusion (hp.symm.trans hphase)

theorem Still.beginTransmission (h : Still w) (hphase : w.phase = .outside) (address : BitVec 8) :
    Wired (w.beginTransmission address) := by
  unfold TwoWire.beginTransmission
  dsimp only
  split
  · exact Still.wired ⟨rfl, h.plain, h.open_⟩ hphase
  · rename_i hroom
    obtain ⟨bs, hbs⟩ := TwoWire.binary_address address
    refine ⟨fun hp => Phase.noConfusion hp, fun _ => ?_, fun _ hp => Phase.noConfusion hp⟩
    have hlen : ¬ fifoDepth - (w.toFifo ++ ['S']).length < 1 := by
      simp only [List.length_append, List.length_cons, List.length_nil]
      omega
    have hto : writebin (address <<< 1) (w.toFifo ++ ['S']) ++ ['Z'] =
        w.toFifo ++ 'S' :: (TwoWire.bitSymbols bs ++ ['0', 'Z']) := by
      unfold writebin
      rw [if_neg hlen, hbs]
      simp
    cases hw : w.toFifo with
    | nil =>
      rw [hw] at hto
      exact .addressing (.sent [] bs (fun _ hp => absurd hp List.not_mem_nil) hto rfl)
    | cons p ps =>
      rw [hw] at hto
      exact .pending p ps bs (hw ▸ h.plain) hto rfl

/-- A write that finds no transmission, or no room. -/
theorem Still.ret (h : Still w) (value : Nat) : Wired (w.ret value) :=
  Still.wired ⟨h.quiet, h.plain, h.open_⟩ rfl

/-- The symbols of a byte go behind bits of earlier ones. -/
theorem Still.ask (h : Still w) (htrans : w.transmitting = true) (data : BitVec 8)
    (hroom : ¬ fifoDepth - w.toFifo.length < 9) : Wired (w.ask data) := by
  obtain ⟨⟨as, has⟩, hstate⟩ := h.open_ htrans
  obtain ⟨bs, hbs⟩ := TwoWire.binary_eq data
  refine ⟨fun hp => Phase.noConfusion hp, fun hp => Phase.noConfusion hp, fun _ _ => ⟨hstate, ?_⟩⟩
  refine .sent (as ++ bs) ?_ h.quiet
  show writebin data w.toFifo ++ ['Z'] = _
  unfold writebin
  rw [if_neg (by omega), hbs, has, TwoWire.bitSymbols_append]

theorem Still.write (h : Still w) (data : BitVec 8) : Wired (w.write data) := by
  have hstill : Still { w with acked := false } := ⟨h.quiet, h.plain, h.open_⟩
  unfold TwoWire.write
  dsimp only
  split
  · exact hstill.ret 0
  · rename_i htrans
    split
    · exact hstill.ret 0
    · rename_i hroom
      exact hstill.ask (by simpa using htrans) data fun hlt => hroom (Or.inl hlt)

theorem Still.endTransmission (h : Still w) (hphase : w.phase = .outside) (sendStop : Bool) :
    Wired (w.endTransmission sendStop) := by
  have hstop : Plain ['P'] := by
    intro p hp
    obtain rfl := List.mem_singleton.mp hp
    decide
  unfold TwoWire.endTransmission
  split
  · split
    · exact Still.wired ⟨h.quiet, h.plain.append hstop, fun ht => Bool.noConfusion ht⟩ hphase
    · exact h.wired hphase
  · exact Still.wired ⟨h.quiet, h.plain, fun ht => Bool.noConfusion ht⟩ hphase

/-- The caller at an answer: to an address, or to an accepted byte. -/
theorem Wired.resume (h : Wired w) : Wired w.resume := by
  unfold TwoWire.resume
  split
  · rename_i c cs hphase hfrom
    have hnone : w.master.fromFifo ≠ [] := by
      rw [hfrom]
      exact List.cons_ne_nil _ _
    cases h.beginning hphase with
    | pending _ _ _ _ _ hf => exact absurd hf hnone
    | addressing haddr =>
      cases haddr with
      | sent _ _ _ _ hf => exact absurd hf hnone
      | started _ _ _ hf => exact absurd hf hnone
      | asked _ _ _ hf => exact absurd hf hnone
      | taken hstate hto hf =>
        rw [hf] at hfrom
        cases hfrom
        exact Still.wired ⟨rfl, fun p hp => absurd (hto ▸ hp) List.not_mem_nil, fun _ => ⟨⟨[], hto⟩, hstate⟩⟩ rfl
      | refused hto hf =>
        rw [hf] at hfrom
        cases hfrom
        exact Still.wired ⟨rfl, fun p hp => absurd (hto ▸ hp) List.not_mem_nil, fun ht => by simp at ht⟩ rfl
  · rename_i data c cs hphase hfrom
    obtain ⟨hstate, hway⟩ := h.writing data hphase
    cases hway with
    | sent _ _ hf => rw [hf] at hfrom; cases hfrom
    | taken hto hf _ =>
      rw [hf] at hfrom
      cases hfrom
      rw [if_pos rfl]
      have hstill : Still { w with master := { w.master with fromFifo := [] } } :=
        ⟨rfl, fun p hp => absurd (hto ▸ hp) List.not_mem_nil, fun _ => ⟨⟨[], hto⟩, hstate⟩⟩
      exact hstill.ret 1
  · exact h

/-- **One step** without a block write in which no byte is refused. -/
theorem Wired.step (h : Wired w) (e : TwoWire.Event) (hok : w.Accepts e) : Wired (w.step e) := by
  cases e with
  | beginTransmission address =>
    show Wired (if w.phase = .outside then w.beginTransmission address else w)
    split
    · rename_i hphase
      exact (h.outside hphase).beginTransmission hphase address
    · exact h
  | write data =>
    show Wired (if w.phase = .outside then w.write data else w)
    split
    · rename_i hphase
      exact (h.outside hphase).write data
    · exact h
  | endTransmission sendStop =>
    show Wired (if w.phase = .outside then w.endTransmission sendStop else w)
    split
    · rename_i hphase
      exact (h.outside hphase).endTransmission hphase sendStop
    · exact h
  | resume => exact h.resume
  | symbol sda => exact h.symbol hok

/-! ## §5 — one step -/

theorem phase_symbol (w : TwoWire) (sda : Bool) : (w.symbol sda).phase = w.phase := by
  unfold TwoWire.symbol
  split
  · split <;> rfl
  · rfl

theorem Inv.symbol (h : Inv s) {sda : Bool} (hok : s.toTwoWire.Accepts (.symbol sda)) :
    Inv (s.symbol sda) where
  wired := h.wired.symbol hok
  block := fun b hb => ⟨(phase_symbol s.toTwoWire sda).trans (h.block b hb).1, (h.block b hb).2⟩

theorem Inv.call (h : Inv s) {e : TwoWire.Event} (hok : s.toTwoWire.Accepts e) (hnone : s.block = none) :
    Inv (s.call e) where
  wired := h.wired.step e hok
  block := fun b hb => absurd (hnone.symm.trans hb) (Option.some_ne_none b).symm

/-- One more bit behind the others. -/
theorem Still.push (h : Still w) (b : Bool) :
    Still { w with toFifo := w.toFifo ++ [if b then '1' else '0'] } := by
  refine ⟨h.quiet, h.plain.append (plain_bitSymbols [b]), fun htrans => ?_⟩
  obtain ⟨⟨bs, hbs⟩, hstate⟩ := h.open_ htrans
  refine ⟨⟨bs ++ [b], ?_⟩, hstate⟩
  rw [TwoWire.bitSymbols_append]
  exact congrArg (· ++ TwoWire.bitSymbols [b]) hbs

theorem Inv.proceed (h : Inv s) : Inv s.proceed := by
  unfold BlockWire.proceed
  split
  · exact h
  · rename_i c cs bytes size hb
    obtain ⟨hphase, bs, hbs⟩ := h.block _ hb
    split
    · cases bs with
      | nil => cases hbs
      | cons b bs =>
        injection hbs with hc hcs
        subst hc
        refine ⟨((h.wired.outside hphase).push b).wired hphase, fun b' hb' => ?_⟩
        obtain rfl := Option.some.inj hb'
        exact ⟨hphase, bs, hcs⟩
    · exact h
  · rename_i data bytes size hb
    have hphase := (h.block _ hb).1
    split
    · refine ⟨h.wired, fun b' hb' => ?_⟩
      obtain rfl := Option.some.inj hb'
      exact ⟨hphase, [], rfl⟩
    · refine ⟨h.wired, fun b' hb' => ?_⟩
      obtain rfl := Option.some.inj hb'
      exact ⟨hphase, TwoWire.binary_eq data⟩
  · exact ⟨h.wired, fun b' hb' => absurd hb' (Option.some_ne_none b').symm⟩

theorem step_symbol (s : BlockWire) (sda : Bool) : s.step (.call (.symbol sda)) = s.symbol sda := rfl

/-- A call when there is no block write. -/
theorem step_call {e : TwoWire.Event} (hnone : s.block = none) (he : ∀ sda, e ≠ .symbol sda) :
    s.step (.call e) = s.call e := by
  cases e with
  | symbol sda => exact absurd rfl (he sda)
  | _ => exact if_pos (by rw [hnone]; rfl)

/-- A call that waits for a block write to end. -/
theorem step_busy {e : TwoWire.Event} (hsome : s.block ≠ none) (he : ∀ sda, e ≠ .symbol sda) :
    s.step (.call e) = s := by
  have hno : ¬ s.block.isNone = true := fun h => hsome (Option.isNone_iff_eq_none.mp h)
  cases e with
  | symbol sda => exact absurd rfl (he sda)
  | _ => exact if_neg hno

/-- **One step** in which no byte is refused keeps the invariant. -/
theorem Inv.step (h : Inv s) (e : Event) (hok : s.Accepts e) : Inv (s.step e) := by
  cases e with
  | call e =>
    by_cases he : ∃ sda, e = .symbol sda
    · obtain ⟨sda, rfl⟩ := he
      exact h.symbol hok
    · have he : ∀ sda, e ≠ .symbol sda := fun sda heq => he ⟨sda, heq⟩
      by_cases hnone : s.block = none
      · rw [step_call hnone he]
        exact h.call hok hnone
      · rwa [step_busy hnone he]
  | writeBlock data =>
    show Inv (if s.phase = .outside ∧ s.block.isNone then s.writeBlock data else s)
    split
    · rename_i hready
      refine ⟨h.wired, fun b hb => ?_⟩
      obtain rfl := Option.some.inj hb
      exact ⟨hready.1, [], rfl⟩
    · exact h
  | proceed => exact h.proceed

/-- What an open transmission keeps. -/
theorem Open.inv (h : Open s) : Inv s := by
  obtain ⟨rwbit, es, hok, rfl⟩ := h.reached
  have hall : Always (fun _ s => Inv s) step [] (init rwbit) es :=
    always_of_throughout (I := fun _ s => Inv s) (fun _ _ hI => hI) (fun _ _ e hI hok => hI.step e hok) es [] _
      (inv_init rwbit) hok
  exact hall.last

/-! ## §6 — a block write -/

variable {data : List (BitVec 8)}

/-- How far a block write is: what has been sent and what is left of it are its bytes. -/
structure Blocking (s₀ : BlockWire) (data : List (BitVec 8)) (s : BlockWire) : Prop where
  inv : Inv s
  outside : s.phase = .outside
  acks : s.acks = s₀.acks
  going : ∀ b, s.block = some b →
    s.sent ++ (b.symbols ++ b.bytes.flatMap binary) = s₀.sent ++ data.flatMap binary ∧ b.size = data.length
  done : s.block = none → s.sent = s₀.sent ++ data.flatMap binary ∧ s.sizes.getLast? = some data.length

theorem Open.blocking (h : Open s) (data : List (BitVec 8)) : Blocking s data (s.step (.writeBlock data)) := by
  have hstep : s.step (.writeBlock data) = s.writeBlock data :=
    if_pos ⟨h.outside, Option.isNone_iff_eq_none.mpr h.block⟩
  refine ⟨h.inv.step (.writeBlock data) trivial, ?_, ?_, ?_, ?_⟩
  · rw [hstep]
    exact h.outside
  · rw [hstep]
    rfl
  · intro b hb
    rw [hstep] at hb ⊢
    obtain rfl := Option.some.inj hb
    exact ⟨rfl, rfl⟩
  · intro hb
    rw [hstep] at hb
    exact absurd hb (Option.some_ne_none _)

/-- The master: there is no `Z` on its way. -/
theorem Blocking.symbol (h : Blocking s₀ data s) (sda : Bool) : Blocking s₀ data (s.symbol sda) := by
  have hstill := h.inv.wired.outside h.outside
  have hhead : s.toFifo.head? ≠ some 'Z' := fun hz => (hstill.plain 'Z' (List.mem_of_mem_head? hz)).2 rfl
  refine ⟨h.inv.symbol fun hz _ => absurd hz hhead, ?_, ?_, h.going, h.done⟩
  · exact (phase_symbol s.toTwoWire sda).trans h.outside
  · exact (if_neg fun hz => hhead hz.1).trans h.acks

/-- The caller: the next bit, the next byte, or the end. -/
theorem Blocking.proceed (h : Blocking s₀ data s) (hok : s.InBlock .proceed) :
    Blocking s₀ data s.proceed := by
  have hinv := h.inv.proceed
  cases hb : s.block with
  | none =>
    have hstep : s.proceed = s := by
      unfold BlockWire.proceed
      rw [hb]
    rwa [hstep]
  | some b =>
    obtain ⟨symbols, bytes, size⟩ := b
    obtain ⟨hgoing, hsize⟩ := h.going _ hb
    cases symbols with
    | cons c cs =>
      by_cases hroom : s.toFifo.length < fifoDepth
      · have hstep : s.proceed =
            { s with toFifo := s.toFifo ++ [c], sent := s.sent ++ [c], block := some ⟨cs, bytes, size⟩ } := by
          unfold BlockWire.proceed
          rw [hb]
          exact if_pos hroom
        rw [hstep] at hinv ⊢
        refine ⟨hinv, h.outside, h.acks, fun b' hb' => ?_, fun hb' => absurd hb' (Option.some_ne_none _)⟩
        obtain rfl := Option.some.inj hb'
        refine ⟨?_, hsize⟩
        rw [← hgoing]
        exact List.append_assoc s.sent [c] _
      · have hstep : s.proceed = s := by
          unfold BlockWire.proceed
          rw [hb]
          exact if_neg hroom
        rwa [hstep]
    | nil =>
      cases bytes with
      | cons d ds =>
        have hroom : s.toFifo.length < fifoDepth := hok (by rw [hb]; rfl)
        have hstep : s.proceed = { s with block := some ⟨binary d, ds, size⟩ } := by
          unfold BlockWire.proceed
          rw [hb]
          exact if_neg (by omega)
        rw [hstep] at hinv ⊢
        refine ⟨hinv, h.outside, h.acks, fun b' hb' => ?_, fun hb' => absurd hb' (Option.some_ne_none _)⟩
        obtain rfl := Option.some.inj hb'
        exact ⟨hgoing, hsize⟩
      | nil =>
        have hstep : s.proceed = { s with block := none, sizes := s.sizes ++ [size] } := by
          unfold BlockWire.proceed
          rw [hb]
        rw [hstep] at hinv ⊢
        refine ⟨hinv, h.outside, h.acks, fun b' hb' => absurd hb' (Option.some_ne_none b').symm, fun _ => ?_⟩
        refine ⟨?_, ?_⟩
        · rw [← hgoing]
          exact (List.append_nil s.sent).symm
        · show (s.sizes ++ [size]).getLast? = _
          rw [List.getLast?_concat]
          exact congrArg some hsize

theorem Blocking.step (h : Blocking s₀ data s) {e : Event} (hok : s.InBlock e) :
    Blocking s₀ data (s.step e) := by
  cases e with
  | call e =>
    cases e with
    | symbol sda => exact h.symbol sda
    | _ => exact hok.elim
  | writeBlock d => exact hok.elim
  | proceed => exact h.proceed hok

theorem Blocking.run (es : List Event) : ∀ {s : BlockWire}, Blocking s₀ data s →
    Throughout InBlock BlockWire.step s es → Blocking s₀ data (es.foldl BlockWire.step s) := by
  induction es with
  | nil => exact fun h _ => h
  | cons e es ih => exact fun h hok => ih (h.step hok.1) hok.2

/-! ## §7 — single writes -/

/-- The symbols of a byte, and the clock for its answer. -/
def asked (data : BitVec 8) : List Char := binary data ++ ['Z']

/-- How far single writes are. -/
structure Singling (s₀ : BlockWire) (done : List (BitVec 8)) (s : BlockWire) : Prop where
  inv : Inv s
  block : s.block = none
  transmitting : s.transmitting = true
  caller : s.phase ≠ .beginning
  sent : s.sent = s₀.sent ++ done.flatMap asked

theorem Open.singling (h : Open s) : Singling s [] s where
  inv := h.inv
  block := h.block
  transmitting := h.transmitting
  caller := by
    rw [h.outside]
    exact Phase.noConfusion
  sent := (List.append_nil s.sent).symm

theorem transmitting_symbol (w : TwoWire) (sda : Bool) : (w.symbol sda).transmitting = w.transmitting := by
  unfold TwoWire.symbol
  split
  · split <;> rfl
  · rfl

theorem Singling.symbol {done : List (BitVec 8)} (h : Singling s₀ done s) {sda : Bool}
    (hok : s.toTwoWire.Accepts (.symbol sda)) : Singling s₀ done (s.symbol sda) where
  inv := h.inv.symbol hok
  block := h.block
  transmitting := (transmitting_symbol s.toTwoWire sda).trans h.transmitting
  caller := fun hp => h.caller ((phase_symbol s.toTwoWire sda).symm.trans hp)
  sent := h.sent

/-- A call that puts nothing into the FIFO. -/
theorem call_quiet {e : TwoWire.Event} (h : (s.toTwoWire.step e).toFifo = s.toFifo) :
    (s.call e).sent = s.sent := by
  show s.sent ++ (s.toTwoWire.step e).toFifo.drop s.toFifo.length = s.sent
  rw [h, List.drop_length, List.append_nil]

/-- The caller at an answer. -/
theorem Singling.resume {done : List (BitVec 8)} (h : Singling s₀ done s) :
    Singling s₀ done (s.call .resume) := by
  have hinv := h.inv.call (e := .resume) trivial h.block
  have hsame : s.toTwoWire.resume.toFifo = s.toFifo ∧ s.toTwoWire.resume.transmitting = s.transmitting ∧
      s.toTwoWire.resume.phase ≠ .beginning := by
    unfold TwoWire.resume
    split
    · rename_i c cs hphase hfrom
      exact absurd hphase h.caller
    · rename_i data c cs hphase hfrom
      cases (h.inv.wired.writing data hphase).2 with
      | sent _ _ hf => rw [hf] at hfrom; cases hfrom
      | taken _ hf _ =>
        rw [hf] at hfrom
        cases hfrom
        exact ⟨rfl, rfl, Phase.noConfusion⟩
    · exact ⟨rfl, rfl, h.caller⟩
  have hsent := (call_quiet (s := s) (e := .resume) hsame.1).trans h.sent
  exact ⟨hinv, h.block, hsame.2.1.trans h.transmitting, hsame.2.2, hsent⟩

/-- The next write. -/
theorem Singling.write {done : List (BitVec 8)} (h : Singling s₀ done s) (hphase : s.phase = .outside)
    (hroom : s.toFifo.length + 9 ≤ fifoDepth) (d : BitVec 8) :
    Singling s₀ (done ++ [d]) (s.call (.write d)) := by
  have hinv := h.inv.call (e := .write d) trivial h.block
  have hquiet := (h.inv.wired.outside hphase).quiet
  have hwrite : s.toTwoWire.step (.write d) = ({ s.toTwoWire with acked := false } : TwoWire).ask d := by
    show (if s.phase = .outside then s.toTwoWire.write d else s.toTwoWire) = _
    rw [if_pos hphase]
    unfold TwoWire.write
    dsimp only
    rw [if_neg (by rw [h.transmitting]; decide), if_neg]
    rw [hquiet]
    show ¬ (fifoDepth - s.toFifo.length < 9 ∨ fifoDepth - 0 < 1)
    unfold fifoDepth at hroom ⊢
    omega
  have hto : (s.toTwoWire.step (.write d)).toFifo = s.toFifo ++ asked d := by
    rw [hwrite]
    show writebin d s.toFifo ++ ['Z'] = _
    unfold writebin
    rw [if_neg (by omega), List.append_assoc]
    rfl
  refine ⟨hinv, h.block, ?_, ?_, ?_⟩
  · show (s.toTwoWire.step (.write d)).transmitting = true
    rw [hwrite]
    exact h.transmitting
  · show (s.toTwoWire.step (.write d)).phase ≠ .beginning
    rw [hwrite]
    exact Phase.noConfusion
  · show s.sent ++ (s.toTwoWire.step (.write d)).toFifo.drop s.toFifo.length = _
    rw [hto, List.drop_left, h.sent, List.flatMap_append, List.append_assoc]
    simp

theorem Singling.step {done : List (BitVec 8)} (h : Singling s₀ done s) {e : Event} (hok : s.InSingles e) :
    Singling s₀ (done ++ written [e]) (s.step e) := by
  have hnone : done ++ [] = done := List.append_nil done
  cases e with
  | call e =>
    cases e with
    | symbol sda =>
      rw [step_symbol]
      exact hnone.symm ▸ h.symbol hok
    | resume =>
      rw [step_call h.block fun _ he => TwoWire.Event.noConfusion he]
      exact hnone.symm ▸ h.resume
    | write d =>
      rw [step_call h.block fun _ he => TwoWire.Event.noConfusion he]
      exact h.write hok.1 hok.2 d
    | beginTransmission _ => exact hok.elim
    | endTransmission _ => exact hok.elim
  | writeBlock d => exact hok.elim
  | proceed => exact hok.elim

theorem Singling.run (es : List Event) : ∀ {done : List (BitVec 8)} {s : BlockWire}, Singling s₀ done s →
    Throughout InSingles BlockWire.step s es →
      Singling s₀ (done ++ written es) (es.foldl BlockWire.step s) := by
  induction es with
  | nil =>
    intro done s h _
    exact (List.append_nil done).symm ▸ h
  | cons e es ih =>
    intro done s h hok
    have hrun := ih (h.step hok.1) hok.2
    have hwritten : written (e :: es) = written [e] ++ written es := List.filterMap_append (l := [e])
    rw [hwritten, ← List.append_assoc]
    exact hrun

/-! ## §8 — the two against each other -/

/-- Only the empty list of bytes is written alike: a block write has no answers, so that it returns the
number of acknowledged bytes only where there is none. -/
theorem block_write_equal {es fs : List Event} (hopen : Open s) (hes : BlockRun s data es)
    (hfs : SinglesRun s data fs) :
    Equal s (es.foldl step (s.step (.writeBlock data))) (fs.foldl step s) ↔ data = [] := by
  have hblock := Blocking.run es (hopen.blocking data) hes.legal
  have hsingles := Singling.run fs hopen.singling hfs.legal
  obtain ⟨hsent, hsize⟩ := hblock.done hes.ended
  rw [List.nil_append, hfs.bytes] at hsingles
  constructor
  · intro heq
    have hreturned := heq.returned
    rw [hsize, hblock.acks, Nat.sub_self] at hreturned
    exact List.eq_nil_of_length_eq_zero (Option.some.inj hreturned)
  · rintro rfl
    refine ⟨?_, ?_, ?_⟩
    · rw [hsent, hsingles.sent]
      rfl
    · rw [(hblock.inv.wired.outside hblock.outside).quiet, (hsingles.inv.wired.outside hfs.ended).quiet]
    · rw [hsize, hblock.acks, Nat.sub_self]
      rfl

/-- The address is acknowledged. -/
def opening : List Event :=
  ([.call (.beginTransmission 0x27)] : List Event) ++ List.replicate 10 (.call (.symbol false) : Event) ++
    ([.call .resume] : List Event)

theorem open_opening : Open (opening.foldl step (init false)) :=
  ⟨⟨false, opening, by decide, rfl⟩, by decide, by decide, by decide⟩

theorem blockRun_nil : BlockRun (opening.foldl step (init false)) [] [.proceed] := ⟨by decide, by decide⟩

theorem singlesRun_nil : SinglesRun (opening.foldl step (init false)) [] [] := ⟨trivial, rfl, by decide⟩

/-- Two bytes as a block, and one after the other. -/
def twoBytes : List (BitVec 8) := [0x55, 0xa3]

/-- The block write of two bytes. -/
def blockSteps : List Event := List.replicate 20 .proceed

/-- The single writes of two bytes, each acknowledged. -/
def singleSteps : List Event :=
  twoBytes.flatMap fun d =>
    [Event.call (.write d)] ++ List.replicate 9 (Event.call (.symbol false)) ++ [Event.call .resume]

theorem blockRun_two : BlockRun (opening.foldl step (init false)) twoBytes blockSteps :=
  ⟨by decide +kernel, by decide +kernel⟩

theorem singlesRun_two : SinglesRun (opening.foldl step (init false)) twoBytes singleSteps :=
  ⟨by decide +kernel, by decide +kernel, by decide +kernel⟩

/-- A block of no bytes is written as no single bytes are; one of two bytes is not written as they are. -/
theorem block_write_equal_two :
    Equal (opening.foldl step (init false))
        ([.proceed].foldl step ((opening.foldl step (init false)).step (.writeBlock [])))
        (opening.foldl step (init false)) ∧
      ¬ Equal (opening.foldl step (init false))
        (blockSteps.foldl step ((opening.foldl step (init false)).step (.writeBlock twoBytes)))
        (singleSteps.foldl step (opening.foldl step (init false))) :=
  ⟨(block_write_equal open_opening blockRun_nil singlesRun_nil).mpr rfl,
    fun heq => absurd ((block_write_equal open_opening blockRun_two singlesRun_two).mp heq) (by decide)⟩

/-- One byte. The block write sends no clock for its answer, and returns 1 without one. -/
theorem one_byte_unequal :
    ∃ es fs, Open (opening.foldl step (init false)) ∧ BlockRun (opening.foldl step (init false)) [0x55] es ∧
      SinglesRun (opening.foldl step (init false)) [0x55] fs ∧
      ¬ Equal (opening.foldl step (init false))
        (es.foldl step ((opening.foldl step (init false)).step (.writeBlock [0x55])))
        (fs.foldl step (opening.foldl step (init false))) := by
  refine ⟨List.replicate 10 .proceed,
    [Event.call (.write 0x55)] ++ List.replicate 9 (Event.call (.symbol false)) ++ [Event.call .resume],
    open_opening, ⟨by decide, by decide⟩, ⟨by decide, by decide, by decide⟩, fun heq => ?_⟩
  exact absurd heq.sent (by decide)

end BlockWire

end Espmod.I2c
