/-
# Espmod.I2c.TwoWire — write transfers of the Wire library

`beginTransmission` and `write` put symbols into the master's FIFO and wait for its answer. `write`
repeats a byte until it is acknowledged; but a master whose byte was refused is idle, and takes the
repeated symbols without a word. So a write returns 1 or not at all, and it returns exactly as long as
no byte is refused: from the first refusal on nothing can keep it from waiting for ever
(`Doomed.hangs`).
-/
import Espmod.Lib.Run
import Espmod.I2c.Master

namespace Espmod.I2c

open Espmod.Lib

/-! ## §1 — the library and the master -/

/-- The depth of the FIFOs of the master. -/
def fifoDepth : Nat := 32 * 8

/-- The eight symbols of a byte. -/
def binary (data : BitVec 8) : List Char :=
  [7, 6, 5, 4, 3, 2, 1, 0].map fun i => if data.getLsbD i then '1' else '0'

/-- `writebin` with eight bits. -/
def writebin (data : BitVec 8) (toFifo : List Char) : List Char :=
  if fifoDepth - toFifo.length < 1 then toFifo else toFifo ++ binary data

/-- Where the thread of the caller is. -/
inductive Phase where
  /-- in none of the functions -/
  | outside
  /-- in `beginTransmission`, waiting for the answer to the address -/
  | beginning
  /-- in `write`, waiting for the answer to the byte -/
  | writing (data : BitVec 8)
deriving Repr, DecidableEq

/-- A `TwoWire` and its master, which holds what it has put into `from`. -/
structure TwoWire where
  transmitting : Bool
  phase : Phase
  toFifo : List Char
  master : Master
  /-- whether the slave has acknowledged the byte of the present write -/
  acked : Bool
  /-- for each write that is over what it returned, and whether its byte was acknowledged -/
  returned : List (Nat × Bool)

namespace TwoWire

/-- A call of the library, the thread of the caller at an answer, or the master at the next symbol,
with the level the slave gives to the data line. -/
inductive Event where
  | beginTransmission (address : BitVec 8)
  | write (data : BitVec 8)
  | endTransmission (sendStop : Bool)
  | resume
  | symbol (sda : Bool)
deriving Repr, DecidableEq

/-- Before the first call. -/
def init (rwbit : Bool) : TwoWire :=
  ⟨false, .outside, [], ⟨.idle, rwbit, false, false, []⟩, false, []⟩

/-- A `write` returns. -/
def ret (value : Nat) (w : TwoWire) : TwoWire :=
  { w with phase := .outside, returned := w.returned ++ [(value, w.acked)] }

/-- The symbols of a byte, and the clock for its answer. -/
def ask (data : BitVec 8) (w : TwoWire) : TwoWire :=
  { w with phase := .writing data, toFifo := writebin data w.toFifo ++ ['Z'] }

def beginTransmission (address : BitVec 8) (w : TwoWire) : TwoWire :=
  let w := { w with master := { w.master with fromFifo := [] } }
  if fifoDepth - w.master.fromFifo.length < 1 ∨ fifoDepth - w.toFifo.length < 10 then w
  else
    { w with
      phase := .beginning
      toFifo := writebin (address <<< 1) (w.toFifo ++ ['S']) ++ ['Z'] }

def write (data : BitVec 8) (w : TwoWire) : TwoWire :=
  let w := { w with acked := false }
  if !w.transmitting then w.ret 0
  else if fifoDepth - w.toFifo.length < 9 ∨ fifoDepth - w.master.fromFifo.length < 1 then w.ret 0
  else w.ask data

/-- The stop symbol waits for room in the FIFO. -/
def endTransmission (sendStop : Bool) (w : TwoWire) : TwoWire :=
  if sendStop then
    if w.toFifo.length < fifoDepth then { w with toFifo := w.toFifo ++ ['P'], transmitting := false }
    else w
  else { w with transmitting := false }

/-- The caller reads the answer, if there is one. -/
def resume (w : TwoWire) : TwoWire :=
  match w.phase, w.master.fromFifo with
  | .beginning, c :: cs =>
    { w with
      phase := .outside
      transmitting := c = 'A'
      master := { w.master with fromFifo := cs } }
  | .writing data, c :: cs =>
    let w := { w with master := { w.master with fromFifo := cs } }
    if c = 'A' then w.ret 1 else w.ask data
  | _, _ => w

/-- The master takes the next symbol, unless the FIFO of its answers is full. -/
def symbol (sda : Bool) (w : TwoWire) : TwoWire :=
  match w.toFifo with
  | p :: ps =>
    if w.master.fromFifo.length < fifoDepth then
      { w with
        toFifo := ps
        master := w.master.symbol sda p
        acked := if p = 'Z' ∧ w.master.state = .writing then !sda else w.acked }
    else w
  | [] => w

def step (w : TwoWire) : Event → TwoWire
  | .beginTransmission address => if w.phase = .outside then w.beginTransmission address else w
  | .write data => if w.phase = .outside then w.write data else w
  | .endTransmission sendStop => if w.phase = .outside then w.endTransmission sendStop else w
  | .resume => w.resume
  | .symbol sda => w.symbol sda

/-! ## §2 — the properties -/

/-- A write waits for an answer, and the master for a symbol. -/
def Hung (w : TwoWire) : Prop :=
  (∃ data, w.phase = .writing data) ∧ w.toFifo = [] ∧ w.master.fromFifo = []

/-- Every write returned 1 exactly when its byte was acknowledged. -/
def Honest (w : TwoWire) : Prop := ∀ r ∈ w.returned, r.1 = 1 ↔ r.2 = true

/-- The slave does not refuse a byte. -/
def Accepts (w : TwoWire) : Event → Prop
  | .symbol sda => w.toFifo.head? = some 'Z' → w.master.state = .writing → sda = false
  | _ => True

/-! ## §3 — the invariant -/

/-- Some bits, as symbols. -/
def bitSymbols (bs : List Bool) : List Char := bs.map fun b => if b then '1' else '0'

/-- While the caller is outside, only stop symbols can be on their way, and none during a transfer. -/
structure Resting (w : TwoWire) : Prop where
  quiet : w.master.fromFifo = []
  stops : ∀ p ∈ w.toFifo, p = 'P'
  open_ : w.transmitting = true → w.toFifo = [] ∧ w.master.state = .writing

/-- The way of an address of a write through the FIFO to its answer. -/
inductive Addressing (w : TwoWire) : Prop where
  | sent (ps : List Char) (bs : List Bool) (hps : ∀ p ∈ ps, p = 'P')
      (hto : w.toFifo = ps ++ 'S' :: (bitSymbols bs ++ ['0', 'Z'])) (hfrom : w.master.fromFifo = [])
  | started (bs : List Bool) (hstate : w.master.state = .devid)
      (hto : w.toFifo = bitSymbols bs ++ ['0', 'Z']) (hfrom : w.master.fromFifo = [])
  | asked (hstate : w.master.state = .devid) (hrw : w.master.rwbit = false) (hto : w.toFifo = ['Z'])
      (hfrom : w.master.fromFifo = [])
  | taken (hstate : w.master.state = .writing) (hto : w.toFifo = []) (hfrom : w.master.fromFifo = ['A'])
  | refused (hto : w.toFifo = []) (hfrom : w.master.fromFifo = ['N'])

/-- The way of an accepted byte through the FIFO to its answer. -/
inductive Writing (w : TwoWire) : Prop where
  | sent (bs : List Bool) (hto : w.toFifo = bitSymbols bs ++ ['Z']) (hfrom : w.master.fromFifo = [])
  | taken (hto : w.toFifo = []) (hfrom : w.master.fromFifo = ['A']) (hack : w.acked = true)

/-- **The invariant** of the runs in which no byte is refused. -/
structure Inv (w : TwoWire) : Prop where
  honest : w.Honest
  outside : w.phase = .outside → Resting w
  beginning : w.phase = .beginning → Addressing w
  writing : ∀ data, w.phase = .writing data → w.master.state = .writing ∧ Writing w

variable {w : TwoWire}

theorem bitSymbols_append (as bs : List Bool) : bitSymbols (as ++ bs) = bitSymbols as ++ bitSymbols bs :=
  List.map_append

theorem binary_eq (data : BitVec 8) : ∃ bs, binary data = bitSymbols bs :=
  ⟨[7, 6, 5, 4, 3, 2, 1, 0].map data.getLsbD, rfl⟩

/-- The address of a write ends in a zero. -/
theorem binary_address (address : BitVec 8) :
    ∃ bs, binary (address <<< 1) = bitSymbols bs ++ ['0'] := by
  refine ⟨[7, 6, 5, 4, 3, 2, 1].map (address <<< 1).getLsbD, ?_⟩
  show [7, 6, 5, 4, 3, 2, 1, 0].map _ = _
  simp [bitSymbols]

theorem inv_init (rwbit : Bool) : Inv (init rwbit) where
  honest := fun _ hr => absurd hr List.not_mem_nil
  outside := fun _ => ⟨rfl, fun _ hp => absurd hp List.not_mem_nil, fun h => Bool.noConfusion h⟩
  beginning := fun h => Phase.noConfusion h
  writing := fun _ h => Phase.noConfusion h

/-- A write that waits has its byte or its answer on the way. -/
theorem Inv.not_hung (h : Inv w) : ¬ w.Hung := by
  rintro ⟨⟨data, hphase⟩, hto, hfrom⟩
  cases (h.writing data hphase).2 with
  | sent bs hto' _ => simp [hto'] at hto
  | taken _ hfrom' _ => simp [hfrom'] at hfrom

/-- A write returns 1 with its byte acknowledged, or 0 without. -/
theorem Honest.ret (h : w.Honest) {value : Nat} (hv : value = 1 ↔ w.acked = true) :
    (w.ret value).Honest := by
  intro r hr
  rcases List.mem_append.mp hr with hr | hr
  · exact h r hr
  · rw [List.mem_singleton] at hr
    subst hr
    exact hv

/-! ## §4 — the calls -/

theorem Inv.beginTransmission (h : Inv w) (hphase : w.phase = .outside) (address : BitVec 8) :
    Inv (w.beginTransmission address) := by
  have hrest := h.outside hphase
  unfold TwoWire.beginTransmission
  dsimp only
  split
  · refine ⟨h.honest, fun _ => ⟨rfl, hrest.stops, hrest.open_⟩, ?_, ?_⟩
    · intro hp
      rw [hphase] at hp
      cases hp
    · intro data hp
      rw [hphase] at hp
      cases hp
  · rename_i hroom
    obtain ⟨bs, hbs⟩ := binary_address address
    refine ⟨h.honest, fun hp => Phase.noConfusion hp, fun _ => ?_, fun _ hp => Phase.noConfusion hp⟩
    refine .sent w.toFifo bs hrest.stops ?_ rfl
    have hlen : ¬ fifoDepth - (w.toFifo ++ ['S']).length < 1 := by
      simp only [List.length_append, List.length_cons, List.length_nil]
      omega
    show writebin (address <<< 1) (w.toFifo ++ ['S']) ++ ['Z'] = _
    unfold writebin
    rw [if_neg hlen, hbs]
    simp

theorem Inv.write (h : Inv w) (hphase : w.phase = .outside) (data : BitVec 8) : Inv (w.write data) := by
  have hrest := h.outside hphase
  -- a write that sends nothing returns 0, and nothing was acknowledged
  have hzero : Inv (({ w with acked := false } : TwoWire).ret 0) := by
    refine ⟨?_, fun _ => ⟨hrest.quiet, hrest.stops, hrest.open_⟩, fun hp => Phase.noConfusion hp,
      fun _ hp => Phase.noConfusion hp⟩
    exact Honest.ret (w := { w with acked := false }) h.honest (by simp)
  unfold TwoWire.write
  dsimp only
  split
  · exact hzero
  · rename_i htrans
    split
    · exact hzero
    · rename_i hroom
      have htrans : w.transmitting = true := by simpa using htrans
      obtain ⟨hto, hstate⟩ := hrest.open_ htrans
      obtain ⟨bs, hbs⟩ := binary_eq data
      refine ⟨h.honest, fun hp => Phase.noConfusion hp, fun hp => Phase.noConfusion hp, fun _ _ => ?_⟩
      refine ⟨hstate, .sent bs ?_ hrest.quiet⟩
      show writebin data w.toFifo ++ ['Z'] = _
      rw [hto, ← hbs]
      rfl

theorem Inv.endTransmission (h : Inv w) (hphase : w.phase = .outside) (sendStop : Bool) :
    Inv (w.endTransmission sendStop) := by
  have hrest := h.outside hphase
  have hother : ∀ {q : Phase}, w.phase = q → q = .outside := fun hq => hq.symm.trans hphase
  unfold TwoWire.endTransmission
  split
  · split
    · refine ⟨h.honest, fun _ => ⟨hrest.quiet, ?_, fun ht => Bool.noConfusion ht⟩,
        fun hp => Phase.noConfusion (hother hp), fun _ hp => Phase.noConfusion (hother hp)⟩
      intro p hp
      rcases List.mem_append.mp hp with hp | hp
      · exact hrest.stops p hp
      · exact List.mem_singleton.mp hp
    · exact h
  · exact ⟨h.honest, fun _ => ⟨hrest.quiet, hrest.stops, fun ht => Bool.noConfusion ht⟩,
      fun hp => Phase.noConfusion (hother hp), fun _ hp => Phase.noConfusion (hother hp)⟩

/-- The caller at an answer: to an address, or to an accepted byte. -/
theorem Inv.resume (h : Inv w) : Inv w.resume := by
  unfold TwoWire.resume
  split
  · rename_i c cs hphase hfrom
    refine ⟨h.honest, fun _ => ?_, fun hp => Phase.noConfusion hp, fun _ hp => Phase.noConfusion hp⟩
    cases h.beginning hphase with
    | sent _ _ _ _ hf => rw [hf] at hfrom; cases hfrom
    | started _ _ _ hf => rw [hf] at hfrom; cases hfrom
    | asked _ _ _ hf => rw [hf] at hfrom; cases hfrom
    | taken hstate hto hf =>
      rw [hf] at hfrom
      cases hfrom
      exact ⟨rfl, fun p hp => absurd (hto ▸ hp) List.not_mem_nil, fun _ => ⟨hto, hstate⟩⟩
    | refused hto hf =>
      rw [hf] at hfrom
      cases hfrom
      exact ⟨rfl, fun p hp => absurd (hto ▸ hp) List.not_mem_nil, fun ht => by simp at ht⟩
  · rename_i data c cs hphase hfrom
    obtain ⟨hstate, hway⟩ := h.writing data hphase
    cases hway with
    | sent _ _ hf => rw [hf] at hfrom; cases hfrom
    | taken hto hf hack =>
      rw [hf] at hfrom
      cases hfrom
      rw [if_pos rfl]
      refine ⟨?_, fun _ => ⟨rfl, fun p hp => absurd (hto ▸ hp) List.not_mem_nil, fun _ => ⟨hto, hstate⟩⟩,
        fun hp => Phase.noConfusion hp, fun _ hp => Phase.noConfusion hp⟩
      exact Honest.ret (w := { w with master := { w.master with fromFifo := [] } }) h.honest
        (iff_of_true rfl hack)
  · exact h

/-! ## §5 — the master at a symbol -/

/-- The address, one symbol further. -/
theorem Addressing.symbol (h : Addressing w) {p : Char} {ps : List Char} (hto : w.toFifo = p :: ps)
    (sda acked : Bool) :
    Addressing { w with toFifo := ps, master := w.master.symbol sda p, acked := acked } := by
  cases h with
  | sent stops bs hstops hto' hfrom =>
    cases stops with
    | nil =>
      rw [hto'] at hto
      injection hto with hp hps
      subst hp
      exact .started bs (Master.symbol_start sda).1 hps.symm ((Master.symbol_start sda).2.trans hfrom)
    | cons q stops =>
      rw [hto'] at hto
      injection hto with hp hps
      have hq : p = 'P' := hp ▸ hstops q (List.mem_cons_self ..)
      subst hq
      exact .sent stops bs (fun r hr => hstops r (List.mem_cons_of_mem _ hr)) hps.symm
        ((Master.symbol_stop sda).2.trans hfrom)
  | started bs hstate hto' hfrom =>
    cases bs with
    | nil =>
      rw [hto'] at hto
      injection hto with hp hps
      subst hp
      obtain ⟨hs, hrw, hf⟩ := Master.symbol_bit (m := w.master) sda (Or.inl hstate) false
      exact .asked (hs.trans hstate) hrw hps.symm (hf.trans hfrom)
    | cons b bs =>
      rw [hto'] at hto
      injection hto with hp hps
      subst hp
      obtain ⟨hs, _, hf⟩ := Master.symbol_bit (m := w.master) sda (Or.inl hstate) b
      exact .started bs (hs.trans hstate) hps.symm (hf.trans hfrom)
  | asked hstate hrw hto' hfrom =>
    rw [hto'] at hto
    injection hto with hp hps
    subst hp
    obtain ⟨hs, hf⟩ := Master.symbol_ask (m := w.master) sda (Or.inl ⟨hstate, hrw⟩)
    rw [hfrom] at hf
    cases sda with
    | false => exact .taken hs hps.symm hf
    | true => exact .refused hps.symm hf
  | taken _ hto' _ => rw [hto'] at hto; cases hto
  | refused hto' _ => rw [hto'] at hto; cases hto

/-- The byte of a write, one symbol further, if it is not refused. -/
theorem Writing.symbol (h : Writing w) (hstate : w.master.state = .writing) {p : Char} {ps : List Char}
    (hto : w.toFifo = p :: ps) {sda : Bool} (hok : w.Accepts (.symbol sda)) :
    (w.master.symbol sda p).state = .writing ∧
      Writing
        { w with
          toFifo := ps
          master := w.master.symbol sda p
          acked := if p = 'Z' ∧ w.master.state = .writing then !sda else w.acked } := by
  cases h with
  | sent bs hto' hfrom =>
    cases bs with
    | nil =>
      rw [hto'] at hto
      injection hto with hp hps
      subst hp
      have hsda : sda = false := hok (by rw [hto']; rfl) hstate
      subst hsda
      obtain ⟨hs, hf⟩ := Master.symbol_ask (m := w.master) false (Or.inr hstate)
      rw [hfrom] at hf
      exact ⟨hs, .taken hps.symm hf (if_pos ⟨rfl, hstate⟩)⟩
    | cons b bs =>
      rw [hto'] at hto
      injection hto with hp hps
      subst hp
      obtain ⟨hs, _, hf⟩ := Master.symbol_bit (m := w.master) sda (Or.inr hstate) b
      exact ⟨hs.trans hstate, .sent bs hps.symm (hf.trans hfrom)⟩
  | taken hto' _ _ => rw [hto'] at hto; cases hto

theorem Inv.symbol (h : Inv w) {sda : Bool} (hok : w.Accepts (.symbol sda)) : Inv (w.symbol sda) := by
  unfold TwoWire.symbol
  split
  · rename_i p ps hto
    split
    · refine ⟨h.honest, fun hphase => ?_, fun hphase => (h.beginning hphase).symbol hto sda _,
        fun data hphase => ?_⟩
      · have hrest := h.outside hphase
        have hp : p = 'P' := hrest.stops p (hto ▸ List.mem_cons_self ..)
        subst hp
        refine ⟨(Master.symbol_stop sda).2.trans hrest.quiet, fun q hq => ?_, fun ht => ?_⟩
        · exact hrest.stops q (hto ▸ List.mem_cons_of_mem _ hq)
        · rw [(hrest.open_ ht).1] at hto
          cases hto
      · obtain ⟨hstate, hway⟩ := h.writing data hphase
        exact hway.symbol hstate hto hok
    · exact h
  · exact h

/-- **One step** in which no byte is refused keeps the invariant. -/
theorem Inv.step (h : Inv w) (e : Event) (hok : w.Accepts e) : Inv (w.step e) := by
  cases e with
  | beginTransmission address =>
    show Inv (if w.phase = .outside then w.beginTransmission address else w)
    split
    · rename_i hphase
      exact h.beginTransmission hphase address
    · exact h
  | write data =>
    show Inv (if w.phase = .outside then w.write data else w)
    split
    · rename_i hphase
      exact h.write hphase data
    · exact h
  | endTransmission sendStop =>
    show Inv (if w.phase = .outside then w.endTransmission sendStop else w)
    split
    · rename_i hphase
      exact h.endTransmission hphase sendStop
    · exact h
  | resume => exact h.resume
  | symbol sda => exact h.symbol hok

/-! ## §6 — after a refused byte -/

/-- **A write that will wait for ever**: the master is idle, and has refused the byte, or nothing that
is on its way wakes it. -/
structure Doomed (w : TwoWire) : Prop where
  waits : ∃ data, w.phase = .writing data
  idle : w.master.state = .idle
  way : (w.toFifo = [] ∧ w.master.fromFifo = ['N']) ∨
    (w.master.fromFifo = [] ∧ ∀ p ∈ w.toFifo, p ≠ 'S' ∧ p ≠ 'P')

theorem ask_symbols {data : BitVec 8} {p : Char} (h : p ∈ writebin data [] ++ ['Z']) :
    p ≠ 'S' ∧ p ≠ 'P' := by
  have hbits : ∀ b : Bool, (if b then '1' else '0') ≠ 'S' ∧ (if b then '1' else '0') ≠ 'P' := by decide
  rcases List.mem_append.mp h with h | h
  · obtain ⟨i, _, rfl⟩ := List.mem_map.mp (show p ∈ binary data from h)
    exact hbits _
  · rw [List.mem_singleton] at h
    subst h
    decide

/-- A refused byte dooms its write. -/
theorem Inv.doomed (h : Inv w) {e : Event} (hbad : ¬ w.Accepts e) : Doomed (w.step e) := by
  cases e with
  | beginTransmission => exact absurd trivial hbad
  | write => exact absurd trivial hbad
  | endTransmission => exact absurd trivial hbad
  | resume => exact absurd trivial hbad
  | symbol sda =>
    unfold Accepts at hbad
    push Not at hbad
    obtain ⟨hhead, hstate, hsda⟩ := hbad
    have hsda : sda = true := by simpa using hsda
    subst hsda
    obtain ⟨ps, hto⟩ : ∃ ps, w.toFifo = 'Z' :: ps := by
      cases hw : w.toFifo with
      | nil => rw [hw] at hhead; cases hhead
      | cons q qs =>
        rw [hw] at hhead
        injection hhead with hq
        exact ⟨qs, by rw [hq]⟩
    -- only a write has a clock for its byte on the way
    cases hphase : w.phase with
    | outside =>
      have := (h.outside hphase).stops 'Z' (hto ▸ List.mem_cons_self ..)
      exact absurd this (by decide)
    | beginning =>
      cases h.beginning hphase with
      | sent stops bs hstops hto' _ =>
        rw [hto] at hto'
        cases stops with
        | nil => injection hto' with hp _; exact absurd hp (by decide)
        | cons q stops =>
          injection hto' with hp _
          exact absurd (hp.trans (hstops q (List.mem_cons_self ..))) (by decide)
      | started _ hs _ _ => rw [hs] at hstate; cases hstate
      | asked hs _ _ _ => rw [hs] at hstate; cases hstate
      | taken _ hto' _ => rw [hto'] at hto; cases hto
      | refused hto' _ => rw [hto'] at hto; cases hto
    | writing data =>
      cases (h.writing data hphase).2 with
      | taken hto' _ _ => rw [hto'] at hto; cases hto
      | sent bs hto' hfrom =>
        cases bs with
        | cons b bs =>
          rw [hto] at hto'
          injection hto' with hp _
          cases b <;> exact absurd hp (by decide)
        | nil =>
          rw [hto] at hto'
          injection hto' with _ hps
          obtain ⟨hs, hf⟩ := Master.symbol_ask (m := w.master) true (Or.inr hstate)
          rw [hfrom] at hf
          have hstep : w.step (.symbol true) =
              { w with toFifo := ps, master := w.master.symbol true 'Z', acked := false } := by
            show w.symbol true = _
            unfold TwoWire.symbol
            rw [hto]
            dsimp only
            rw [if_pos (by rw [hfrom]; decide), if_pos ⟨rfl, hstate⟩]
            rfl
          rw [hstep]
          exact ⟨⟨data, hphase⟩, hs, Or.inl ⟨hps, hf⟩⟩

/-- An idle master takes a symbol without a word. -/
theorem Doomed.take (h : Doomed w) (hfrom : w.master.fromFifo = []) {p : Char} {ps : List Char}
    (hto : w.toFifo = p :: ps) (sda : Bool) :
    Doomed (w.step (.symbol sda)) ∧ (w.step (.symbol sda)).toFifo = ps ∧
      (w.step (.symbol sda)).master.fromFifo = [] := by
  have hall : ∀ q ∈ w.toFifo, q ≠ 'S' ∧ q ≠ 'P' := by
    rcases h.way with ⟨hto', _⟩ | ⟨_, hall⟩
    · rw [hto'] at hto
      cases hto
    · exact hall
  obtain ⟨hS, hP⟩ := hall p (hto ▸ List.mem_cons_self ..)
  have hidle := Master.symbol_idle sda h.idle hS hP
  have hstep : w.step (.symbol sda) =
      { w with toFifo := ps, acked := if p = 'Z' ∧ w.master.state = .writing then !sda else w.acked } := by
    show w.symbol sda = _
    unfold TwoWire.symbol
    rw [hto]
    dsimp only
    rw [if_pos (by rw [hfrom]; decide), hidle]
  rw [hstep]
  refine ⟨⟨h.waits, h.idle, Or.inr ⟨hfrom, ?_⟩⟩, rfl, hfrom⟩
  exact fun q hq => hall q (hto ▸ List.mem_cons_of_mem _ hq)

/-- The thread sees the refusal, and asks again. -/
theorem Doomed.again (h : Doomed w) (hto : w.toFifo = []) (hfrom : w.master.fromFifo = ['N']) :
    Doomed (w.step .resume) ∧ (w.step .resume).master.fromFifo = [] := by
  obtain ⟨data, hphase⟩ := h.waits
  have hstep : w.step .resume =
      ({ w with master := { w.master with fromFifo := [] } } : TwoWire).ask data := by
    show w.resume = _
    unfold TwoWire.resume
    rw [hphase, hfrom]
    rfl
  rw [hstep]
  refine ⟨⟨⟨data, rfl⟩, h.idle, Or.inr ⟨rfl, fun p hp => ?_⟩⟩, rfl⟩
  have hp : p ∈ writebin data w.toFifo ++ ['Z'] := hp
  rw [hto] at hp
  exact ask_symbols hp

/-- Nothing saves it. -/
theorem Doomed.step (h : Doomed w) (e : Event) : Doomed (w.step e) := by
  obtain ⟨data, hphase⟩ := h.waits
  have hno : w.phase ≠ .outside := by rw [hphase]; exact Phase.noConfusion
  cases e with
  | beginTransmission address =>
    show Doomed (if w.phase = .outside then w.beginTransmission address else w)
    rwa [if_neg hno]
  | write d =>
    show Doomed (if w.phase = .outside then w.write d else w)
    rwa [if_neg hno]
  | endTransmission sendStop =>
    show Doomed (if w.phase = .outside then w.endTransmission sendStop else w)
    rwa [if_neg hno]
  | resume =>
    rcases h.way with ⟨hto, hfrom⟩ | ⟨hfrom, _⟩
    · exact (h.again hto hfrom).1
    · show Doomed w.resume
      unfold TwoWire.resume
      rwa [hphase, hfrom]
  | symbol sda =>
    cases hto : w.toFifo with
    | nil =>
      show Doomed (w.symbol sda)
      unfold TwoWire.symbol
      rwa [hto]
    | cons p ps =>
      rcases h.way with ⟨hto', _⟩ | ⟨hfrom, _⟩
      · rw [hto'] at hto
        cases hto
      · exact (h.take hfrom hto sda).1

/-- The master takes what is there, one symbol after the other, and then both sides wait. -/
theorem Doomed.drained (ps : List Char) : ∀ {w : TwoWire}, Doomed w → w.master.fromFifo = [] →
    w.toFifo = ps →
      ∃ more, Throughout Accepts TwoWire.step w more ∧ (more.foldl TwoWire.step w).Hung := by
  induction ps with
  | nil => exact fun h hfrom hto => ⟨[], trivial, h.waits, hto, hfrom⟩
  | cons p ps ih =>
    intro w h hfrom hto
    obtain ⟨hnext, hto', hfrom'⟩ := h.take hfrom hto false
    obtain ⟨more, hmore, hhung⟩ := ih hnext hfrom' hto'
    exact ⟨.symbol false :: more, ⟨fun _ _ => rfl, hmore⟩, hhung⟩

/-- When the thread has seen the refusal and the master has taken the symbols, the write hangs. -/
theorem Doomed.hangs (h : Doomed w) :
    ∃ more, Throughout Accepts TwoWire.step w more ∧ (more.foldl TwoWire.step w).Hung := by
  rcases h.way with ⟨hto, hfrom⟩ | ⟨hfrom, _⟩
  · obtain ⟨hnext, hfrom'⟩ := h.again hto hfrom
    obtain ⟨more, hmore, hhung⟩ := hnext.drained _ hfrom' rfl
    exact ⟨.resume :: more, ⟨trivial, hmore⟩, hhung⟩
  · exact h.drained _ hfrom rfl

/-! ## §7 — the result -/

/-- A run in which a byte has been refused has doomed its write. -/
theorem doomed_of_refused (es : List Event) : ∀ {w : TwoWire}, Inv w →
    ¬ Throughout Accepts TwoWire.step w es → Doomed (es.foldl TwoWire.step w) := by
  have hkeep : ∀ (es : List Event) {w : TwoWire}, Doomed w → Doomed (es.foldl TwoWire.step w) :=
    fun es _ hw => List.foldlRecOn es TwoWire.step hw fun _ h e _ => h.step e
  induction es with
  | nil => exact fun _ hno => absurd trivial hno
  | cons e es ih =>
    intro w h hno
    by_cases hok : w.Accepts e
    · exact ih (h.step e hok) fun hrest => hno ⟨hok, hrest⟩
    · exact hkeep es (h.doomed hok)

/-- **Writes return exactly as long as no byte is refused**: then, and only then, however the run goes
on without a refusal, no write ever hangs, and each that is over returned 1 exactly when the slave
acknowledged its byte. -/
theorem write_never_hangs (rwbit : Bool) (es : List Event) :
    (∀ more, Throughout Accepts TwoWire.step (es.foldl TwoWire.step (init rwbit)) more →
        Always (fun _ w => ¬ w.Hung ∧ w.Honest) TwoWire.step [] (init rwbit) (es ++ more)) ↔
      Throughout Accepts TwoWire.step (init rwbit) es := by
  constructor
  · intro h
    by_contra hno
    obtain ⟨more, hmore, hhung⟩ := (doomed_of_refused es (inv_init rwbit) hno).hangs
    have hlast := (h more hmore).last
    rw [List.foldl_append] at hlast
    exact hlast.1 hhung
  · intro h more hmore
    have hall := (throughout_append es more _).mpr ⟨h, hmore⟩
    exact always_of_throughout (I := fun _ w => Inv w) (fun _ _ hI => ⟨hI.not_hung, hI.honest⟩)
      (fun _ _ e hI hok => hI.step e hok) _ [] _ (inv_init rwbit) hall

/-- The address is acknowledged, and the byte is not. -/
def refusedByte : List Event :=
  ([.beginTransmission 0x24] : List Event) ++ List.replicate 10 (.symbol false : Event) ++
    ([.resume, .write 0x55] : List Event) ++ List.replicate 8 (.symbol false : Event) ++
    ([.symbol true, .resume] : List Event) ++ List.replicate 9 (.symbol false : Event)

/-- The caller repeats the byte to an idle master. -/
theorem refused_byte_hangs :
    (refusedByte.foldl TwoWire.step (init false)).Hung ∧
      (refusedByte.foldl TwoWire.step (init false)).master.state = .idle :=
  ⟨⟨⟨0x55, by decide⟩, by decide, by decide⟩, by decide⟩

end TwoWire

end Espmod.I2c
