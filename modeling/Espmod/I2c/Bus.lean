/-
# Espmod.I2c.Bus — the master and a slave on two open-drain lines

A line is low as long as one side pulls it low, and a change is seen in the next delta. The slaves of
this repository share the frame of their thread: a change of the data line while the clock is high is a
start or a stop, a change of the clock is a rise or a fall, and everything else is passed over. A `Slave`
says what it does then.

The waits of the master are longer than the lines take to settle, two deltas, so each wait settles the
bus. Between two symbols nothing settles if the next one is `ready`, else the thread waits for it; then
the world may act on the slave as well. The rules at the end are about what a run of the bus does at the
`Boundary` between two symbols, for any property of the slave there.
-/
import Espmod.I2c.Master

namespace Espmod.I2c

universe u v

/-! ## §1 — the bus -/

/-- What the thread of a slave does at each change of the lines. -/
structure Slave (σ : Type u) (ε : Type v) where
  /-- it pulls the data line low -/
  low : σ → Bool
  start : σ → σ
  stop : σ → σ
  /-- at a rise of the clock, with the level of the data line -/
  rise : Bool → σ → σ
  fall : σ → σ
  /-- what happens to it besides the lines -/
  world : ε → σ → σ
  low_start : ∀ s, low (start s) = low s
  low_stop : ∀ s, low (stop s) = low s
  low_world : ∀ e s, low (world e s) = low s

/-- A condition that the slave has taken. -/
inductive Cond where
  | start
  | stop
deriving Repr, DecidableEq

/-- The two sides and the levels of the lines, with the conditions taken so far. -/
structure Bus (σ : Type u) where
  master : Master
  slave : σ
  sda : Bool
  scl : Bool
  conds : List Cond

namespace Bus

variable {σ : Type u} {ε : Type v} (S : Slave σ ε)

/-- The frame of `i2c_th`. -/
def react (sdaEvent sclEvent : Bool) (b : Bus σ) : Bus σ :=
  if b.scl && sdaEvent then
    if !b.sda then { b with slave := S.start b.slave, conds := b.conds ++ [Cond.start] }
    else { b with slave := S.stop b.slave, conds := b.conds ++ [Cond.stop] }
  else if sclEvent && b.scl then { b with slave := S.rise b.sda b.slave }
  else if sclEvent && !b.scl then { b with slave := S.fall b.slave }
  else b

/-- One delta: the lines take their levels, and the slave sees the changes. -/
def delta (b : Bus σ) : Bus σ :=
  let sda := !(b.master.sdaEn || S.low b.slave)
  let scl := !b.master.sclEn
  react S (sda != b.sda) (scl != b.scl) { b with sda := sda, scl := scl }

/-- The time of a wait. -/
def settle (b : Bus σ) : Bus σ := delta S (delta S b)

/-- One act of the master. -/
def act (b : Bus σ) : Act → Bus σ
  | .wait _ => settle S b
  | a => { b with master := b.master.act b.sda a }

/-- The master takes a symbol that is `ready`, or has waited for it. -/
def symbol (b : Bus σ) (p : Char) (ready : Bool) : Bus σ :=
  (transfer b.master.state p).foldl (act S) (if ready then b else settle S b)

/-- The world acts while the master waits. -/
def world (b : Bus σ) (e : ε) : Bus σ := { settle S b with slave := S.world e (settle S b).slave }

/-- A run over these symbols: each may be ready or not, and the world may act before it. -/
inductive Runs : Bus σ → List Char → Bus σ → Prop where
  | done (b : Bus σ) : Runs b [] b
  | world {b b' : Bus σ} {ps : List Char} (e : ε) (h : Runs (b.world S e) ps b') : Runs b ps b'
  | symbol {b b' : Bus σ} {ps : List Char} (p : Char) (ready : Bool)
      (h : Runs (b.symbol S p ready) ps b') : Runs b (p :: ps) b'

/-- All symbols are ready, and the world does nothing. -/
def symbols (ps : List Char) (b : Bus σ) : Bus σ := ps.foldl (fun b p => b.symbol S p true) b

/-- The master has not done anything yet. -/
def init (s : σ) : Bus σ := ⟨⟨.idle, false, false, false, []⟩, s, true, true, []⟩

/-- A bit as a symbol. -/
def symbolOf (v : Bool) : Char := if v then '1' else '0'

/-! ## §2 — the lines settle -/

variable {S} {b b' : Bus σ} {m : Master} {s : σ} {d : Bool} {cs : List Cond}

/-- Low clock: the data line takes its level and nothing sees it. -/
theorem settle_low (hm : m.sclEn = true) :
    settle S ⟨m, s, d, false, cs⟩ = ⟨m, s, !(m.sdaEn || S.low s), false, cs⟩ := by
  simp [settle, delta, react, hm]

/-- The clock falls, and the data line follows what the slave does then. -/
theorem settle_fall (hm : m.sclEn = true) :
    settle S ⟨m, s, d, true, cs⟩ =
      ⟨m, S.fall s, !(m.sdaEn || S.low (S.fall s)), false, cs⟩ := by
  simp [settle, delta, react, hm]

/-- The clock rises, and the data line keeps its level. -/
theorem settle_rise (hm : m.sclEn = false) (hd : (!(m.sdaEn || S.low s)) = d)
    (hd' : (!(m.sdaEn || S.low (S.rise d s))) = d) :
    settle S ⟨m, s, d, false, cs⟩ = ⟨m, S.rise d s, d, true, cs⟩ := by
  simp [settle, delta, react, hm, hd, hd']

/-- The clock rises, and the slave releases the data line then. -/
theorem settle_rise_release (hm : m.sclEn = false) (hd : m.sdaEn = false) (hlow : S.low s = true)
    (hrelease : S.low (S.rise false s) = false) :
    settle S ⟨m, s, false, false, cs⟩ =
      ⟨m, S.stop (S.rise false s), true, true, cs ++ [Cond.stop]⟩ := by
  simp [settle, delta, react, hm, hd, hlow, hrelease]

/-- The master pulls the data line while the clock is high. -/
theorem settle_start (hm : m.sclEn = false) (hd : m.sdaEn = true) :
    settle S ⟨m, s, true, true, cs⟩ = ⟨m, S.start s, false, true, cs ++ [Cond.start]⟩ := by
  simp [settle, delta, react, hm, hd]

/-- The master releases the data line while the clock is high. -/
theorem settle_stop (hm : m.sclEn = false) (hd : m.sdaEn = false) (hlow : S.low s = false) :
    settle S ⟨m, s, false, true, cs⟩ = ⟨m, S.stop s, true, true, cs ++ [Cond.stop]⟩ := by
  simp [settle, delta, react, hm, hd, hlow, S.low_stop]

/-- Both lines are released, and the clock is high. -/
theorem settle_rest (hm : m.sclEn = false) (hd : m.sdaEn = false) (hlow : S.low s = false) :
    settle S ⟨m, s, true, true, cs⟩ = ⟨m, s, true, true, cs⟩ := by
  simp [settle, delta, react, hm, hd, hlow]

/-! ## §3 — between two symbols -/

/-- The clock is low, or falls at the next delta, and `s` is the slave from then on. The master may
write its data enable before the lines have settled. -/
def Between (S : Slave σ ε) (b : Bus σ) (s : σ) : Prop :=
  b.master.sclEn = true ∧
    ∀ m : Master, m.sclEn = true →
      settle S { b with master := m } = ⟨m, s, !(m.sdaEn || S.low s), false, b.conds⟩

theorem between_low (hm : m.sclEn = true) : Between S ⟨m, s, d, false, cs⟩ s :=
  ⟨hm, fun _ h => settle_low h⟩

theorem between_fall (hm : m.sclEn = true) : Between S ⟨m, s, d, true, cs⟩ (S.fall s) :=
  ⟨hm, fun _ h => settle_fall h⟩

theorem Between.settle (h : Between S b s) :
    settle S b = ⟨b.master, s, !(b.master.sdaEn || S.low s), false, b.conds⟩ :=
  h.2 b.master h.1

theorem Between.of_settle (h : Between S b s) : Between S (Bus.settle S b) s := by
  rw [h.settle]
  exact between_low h.1

/-- A property of the slave between two symbols, with the state of the master, the last bit where it
is known, what the master has answered and the conditions so far. -/
structure Boundary (S : Slave σ ε) (P : σ → Prop) (state : State) (last : Option Bool)
    (out : List Char) (cs : List Cond) (b : Bus σ) : Prop where
  state : b.master.state = state
  last : ∀ v, last = some v → b.master.rwbit = v
  out : b.master.fromFifo = out
  conds : b.conds = cs
  slave : ∃ s, P s ∧ Between S b s

/-- A property of the slave while both sides leave the lines alone. -/
structure Rest (S : Slave σ ε) (P : σ → Prop) (out : List Char) (cs : List Cond) (b : Bus σ) :
    Prop where
  state : b.master.state = .idle
  out : b.master.fromFifo = out
  conds : b.conds = cs
  sdaEn : b.master.sdaEn = false
  sclEn : b.master.sclEn = false
  sda : b.sda = true
  scl : b.scl = true
  low : S.low b.slave = false
  slave : P b.slave

/-- The world leaves a property of the slave as it is. -/
def Stable (S : Slave σ ε) (P : σ → Prop) : Prop := ∀ e s, P s → P (S.world e s)

variable {P Q : σ → Prop} {state : State} {last : Option Bool} {out : List Char}

theorem Boundary.mono (hPQ : ∀ s, P s → Q s) (h : Boundary S P state last out cs b) :
    Boundary S Q state last out cs b := by
  obtain ⟨s, hs, hb⟩ := h.slave
  exact { h with slave := ⟨s, hPQ s hs, hb⟩ }

theorem Boundary.settle (h : Boundary S P state last out cs b) :
    Boundary S P state last out cs (Bus.settle S b) := by
  obtain ⟨s, hs, hb⟩ := h.slave
  have he := hb.settle
  refine ⟨?_, ?_, ?_, ?_, s, hs, hb.of_settle⟩
  · rw [he]; exact h.state
  · rw [he]; exact h.last
  · rw [he]; exact h.out
  · rw [he]; exact h.conds

theorem Rest.settle (h : Rest S P out cs b) : Bus.settle S b = b := by
  obtain ⟨m, s, sda, scl, c⟩ := b
  obtain rfl : sda = true := h.sda
  obtain rfl : scl = true := h.scl
  exact settle_rest h.sclEn h.sdaEn h.low

theorem Boundary.world (hP : Stable S P) (e : ε) (h : Boundary S P state last out cs b) :
    Boundary S P state last out cs (b.world S e) := by
  obtain ⟨s, hs, hb⟩ := h.slave
  have he : b.world S e =
      ⟨b.master, S.world e s, !(b.master.sdaEn || S.low s), false, b.conds⟩ := by
    unfold Bus.world
    rw [hb.settle]
  rw [he]
  exact ⟨h.state, h.last, h.out, h.conds, S.world e s, hP e s hs, between_low hb.1⟩

theorem Rest.world (hP : Stable S P) (e : ε) (h : Rest S P out cs b) :
    Rest S P out cs (b.world S e) := by
  unfold Bus.world
  rw [h.settle]
  exact
    { h with
      low := (S.low_world e b.slave).trans h.low
      slave := hP e _ h.slave }

/-! ## §4 — the symbols -/

/-- The level of the data line during a clock is the same before and after the slave has seen its
rise, so that nothing looks like a start or a stop. -/
def Steady (S : Slave σ ε) (v : Bool) (s : σ) : Prop :=
  (v && !S.low (S.rise (v && !S.low s) s)) = (v && !S.low s)

/-- The slave after a clock with this bit. -/
def clocked (S : Slave σ ε) (v : Bool) (s : σ) : σ := S.fall (S.rise (v && !S.low s) s)

/-- A bit with its clock. -/
theorem sendBit_eq (v : Bool) (hs : Steady S v s) (h : Between S b s) :
    (sendBit v).foldl (act S) b =
      ⟨{ b.master with sdaEn := !v, sclEn := true }, S.rise (v && !S.low s) s, v && !S.low s, true,
        b.conds⟩ := by
  have hlow : settle S ⟨{ b.master with sdaEn := !v }, s, !(b.master.sdaEn || S.low s), false, b.conds⟩ =
      ⟨{ b.master with sdaEn := !v }, s, !(!v || S.low s), false, b.conds⟩ := settle_low h.1
  have hrise : settle S ⟨{ b.master with sdaEn := !v, sclEn := false }, s, !(!v || S.low s), false,
        b.conds⟩ =
      ⟨{ b.master with sdaEn := !v, sclEn := false }, S.rise (v && !S.low s) s, v && !S.low s, true,
        b.conds⟩ := by
    have hd : (!(!v || S.low s)) = (v && !S.low s) := by simp
    rw [hd]
    refine settle_rise rfl hd ?_
    simpa [Steady] using hs
  simp only [sendBit, List.foldl_cons, List.foldl_nil, act, Master.act]
  rw [h.settle, hlow, hrise]

/-- The master with its two enables. -/
def pulling (sdaEn sclEn : Bool) (m : Master) : Master := { m with sdaEn := sdaEn, sclEn := sclEn }

theorem look_pulling (v sdaEn sclEn : Bool) (m : Master) :
    Master.look v (pulling sdaEn sclEn m) = pulling sdaEn sclEn (m.look v) := by
  unfold Master.look pulling
  cases m.state <;> cases v <;> rfl

/-- A clock for the bit of the slave. The master looks before the slave has seen the rise. -/
theorem clockIn_eq (hs : Steady S true s) (h : Between S b s) :
    clockIn.foldl (act S) b =
      ⟨pulling false true (b.master.look (!S.low s)), S.rise (!S.low s) s, !S.low s, true,
        b.conds⟩ := by
  have hlow : settle S { b with master := pulling false b.master.sclEn b.master } =
      ⟨pulling false b.master.sclEn b.master, s, !S.low s, false, b.conds⟩ := h.2 _ h.1
  have hrise (m : Master) : settle S ⟨pulling false false m, s, !S.low s, false, b.conds⟩ =
      ⟨pulling false false m, S.rise (!S.low s) s, !S.low s, true, b.conds⟩ :=
    settle_rise rfl rfl hs
  calc clockIn.foldl (act S) b
      = act S (settle S (act S (act S (settle S
          { b with master := pulling false b.master.sclEn b.master }) (.sclEn false)) .sample))
          (.sclEn true) := rfl
    _ = act S (settle S ⟨Master.look (!S.low s) (pulling false false b.master), s, !S.low s, false,
          b.conds⟩) (.sclEn true) := by rw [hlow]; rfl
    _ = act S ⟨pulling false false (b.master.look (!S.low s)), S.rise (!S.low s) s, !S.low s, true,
          b.conds⟩ (.sclEn true) := by rw [look_pulling, hrise]
    _ = _ := rfl

/-- Before it takes a symbol the master may have waited for it. -/
theorem Boundary.symbol (h : Boundary S P state last out cs b) (p : Char) (ready : Bool) :
    ∃ b', Boundary S P state last out cs b' ∧
      b.symbol S p ready = (transfer state p).foldl (act S) b' := by
  unfold Bus.symbol
  rw [h.state]
  cases ready
  · exact ⟨_, h.settle, rfl⟩
  · exact ⟨_, h, rfl⟩

/-- **A bit is sent** to a slave that leaves the line alone. -/
theorem Boundary.bit (hst : state = .devid ∨ state = .writing) {v : Bool}
    (hPQ : ∀ s, P s → Steady S v s ∧ Q (clocked S v s)) (ready : Bool)
    (h : Boundary S P state last out cs b) :
    Boundary S Q state (some v) out cs (b.symbol S (symbolOf v) ready) := by
  obtain ⟨b, h, he⟩ := h.symbol (symbolOf v) ready
  obtain ⟨s, hs, hb⟩ := h.slave
  obtain ⟨hsteady, hq⟩ := hPQ s hs
  have htransfer : transfer state (symbolOf v) = sendBit v ++ [Act.rwbit v] := by
    rcases hst with rfl | rfl <;> cases v <;> rfl
  rw [he, htransfer, List.foldl_append, sendBit_eq v hsteady hb]
  exact
    { state := h.state
      last := fun w hw => Option.some.inj hw
      out := h.out
      conds := h.conds
      slave := ⟨clocked S v s, hq, between_fall rfl⟩ }

/-- A one that is sent while the slave still pulls the line, and then releases it with the clock
high, is taken as a stop. -/
theorem Boundary.release (hst : state = .devid ∨ state = .writing)
    (hP : ∀ s, P s → S.low s = true ∧ S.low (S.rise false s) = false) (ready : Bool)
    (h : Boundary S P state last out cs b) :
    (b.symbol S (symbolOf true) ready).conds = cs ++ [Cond.stop] := by
  obtain ⟨b, h, he⟩ := h.symbol (symbolOf true) ready
  obtain ⟨s, hs, hb⟩ := h.slave
  obtain ⟨hlow, hrelease⟩ := hP s hs
  have htransfer : transfer state (symbolOf true) =
      [.wait 625, .sdaEn false, .wait 625, .sclEn false, .wait 1250, .sclEn true, .rwbit true] := by
    rcases hst with rfl | rfl <;> rfl
  have hlevel : Bus.settle S
        ⟨pulling false b.master.sclEn b.master, s, !(b.master.sdaEn || S.low s), false, b.conds⟩ =
      ⟨pulling false b.master.sclEn b.master, s, false, false, b.conds⟩ := by
    have hm : (pulling false b.master.sclEn b.master).sclEn = true := hb.1
    rw [settle_low hm, hlow, Bool.or_true, Bool.not_true]
  have hrise : Bus.settle S ⟨pulling false false b.master, s, false, false, b.conds⟩ =
      ⟨pulling false false b.master, S.stop (S.rise false s), true, true, b.conds ++ [Cond.stop]⟩ :=
    settle_rise_release rfl rfl hlow hrelease
  have hsymbol : (transfer state (symbolOf true)).foldl (act S) b =
      ⟨{ pulling false true b.master with rwbit := true }, S.stop (S.rise false s), true, true,
        b.conds ++ [Cond.stop]⟩ := by
    rw [htransfer]
    calc _ = act S (act S (Bus.settle S (act S (Bus.settle S (act S (Bus.settle S b) (.sdaEn false)))
              (.sclEn false))) (.sclEn true)) (.rwbit true) := rfl
      _ = act S (act S (Bus.settle S (act S (Bus.settle S ⟨pulling false b.master.sclEn b.master, s,
              !(b.master.sdaEn || S.low s), false, b.conds⟩) (.sclEn false))) (.sclEn true))
              (.rwbit true) := by rw [hb.settle]; rfl
      _ = act S (act S (Bus.settle S ⟨pulling false false b.master, s, false, false, b.conds⟩)
              (.sclEn true)) (.rwbit true) := by rw [hlevel]; rfl
      _ = _ := by rw [hrise]; rfl
  have hconds : b.conds = cs := h.conds
  rw [he, hsymbol, ← hconds]

/-- **The slave acknowledges** its address or a byte. -/
theorem Boundary.ask {rw : Bool} (hst : state = .devid ∧ last = some rw ∨ state = .writing ∧ !rw)
    (hPQ : ∀ s, P s → S.low s = true ∧ Steady S true s ∧ Q (clocked S true s)) (ready : Bool)
    (h : Boundary S P state last out cs b) :
    Boundary S Q (if rw then .reading else .writing) none (out ++ ['A']) cs
      (b.symbol S 'Z' ready) := by
  obtain ⟨b, h, he⟩ := h.symbol 'Z' ready
  obtain ⟨s, hs, hb⟩ := h.slave
  obtain ⟨hlow, hsteady, hq⟩ := hPQ s hs
  have htransfer : transfer state 'Z' = clockIn := by
    rcases hst with ⟨rfl, -⟩ | ⟨rfl, -⟩ <;> rfl
  have hlook : b.master.look (!S.low s) =
      { b.master with
        fromFifo := out ++ ['A']
        state := if rw then .reading else .writing } := by
    rw [hlow, ← h.out]
    rcases hst with ⟨rfl, hlast⟩ | ⟨rfl, hrw⟩
    · have hm := h.state
      have hrw := h.last rw hlast
      unfold Master.look
      cases rw <;> simp [hm, hrw]
    · have hm := h.state
      unfold Master.look
      cases rw <;> simp_all
  rw [he, htransfer, clockIn_eq hsteady hb, hlook]
  exact
    { state := rfl
      last := nofun
      out := rfl
      conds := h.conds
      slave := ⟨clocked S true s, hq, between_fall rfl⟩ }

/-- **The slave sends a bit.** -/
theorem Boundary.get {v : Bool}
    (hPQ : ∀ s, P s → S.low s = !v ∧ Steady S true s ∧ Q (clocked S true s)) (ready : Bool)
    (h : Boundary S P .reading last out cs b) :
    Boundary S Q .reading none (out ++ [symbolOf v]) cs (b.symbol S 'Z' ready) := by
  obtain ⟨b, h, he⟩ := h.symbol 'Z' ready
  obtain ⟨s, hs, hb⟩ := h.slave
  obtain ⟨hlow, hsteady, hq⟩ := hPQ s hs
  have hlook : b.master.look (!S.low s) =
      { b.master with state := .reading, fromFifo := out ++ [symbolOf v] } := by
    unfold Master.look
    rw [h.state, hlow, Bool.not_not, ← h.out]
    rfl
  have htransfer : transfer .reading 'Z' = clockIn := rfl
  rw [he, htransfer, clockIn_eq hsteady hb, hlook]
  exact
    { state := rfl
      last := nofun
      out := rfl
      conds := h.conds
      slave := ⟨clocked S true s, hq, between_fall rfl⟩ }

/-- **The master answers a byte** of the slave, and is idle after the last one. -/
theorem Boundary.answer {v : Bool} (hPQ : ∀ s, P s → Steady S v s ∧ Q (clocked S v s))
    (ready : Bool) (h : Boundary S P .reading last out cs b) :
    Boundary S Q (if v then .idle else .reading) none out cs
      (b.symbol S (if v then 'N' else 'A') ready) := by
  obtain ⟨b, h, he⟩ := h.symbol (if v then 'N' else 'A') ready
  obtain ⟨s, hs, hb⟩ := h.slave
  obtain ⟨hsteady, hq⟩ := hPQ s hs
  rw [he]
  cases v
  · have htransfer : transfer .reading 'A' = sendBit false := rfl
    rw [if_neg Bool.false_ne_true, if_neg Bool.false_ne_true, htransfer, sendBit_eq false hsteady hb]
    exact ⟨h.state, nofun, h.out, h.conds, clocked S false s, hq, between_fall rfl⟩
  · have htransfer : transfer .reading 'N' = sendBit true ++ [Act.goto .idle] := rfl
    rw [if_pos rfl, if_pos rfl, htransfer, List.foldl_append, sendBit_eq true hsteady hb]
    exact ⟨rfl, nofun, h.out, h.conds, clocked S true s, hq, between_fall rfl⟩

/-- **A start** from lines at rest. -/
theorem Rest.start (hPQ : ∀ s, P s → S.low s = false → Q (S.fall (S.start s))) (ready : Bool)
    (h : Rest S P out cs b) :
    Boundary S Q .devid none out (cs ++ [Cond.start]) (b.symbol S 'S' ready) := by
  have hready : (if ready then b else Bus.settle S b) = b := by
    rw [h.settle, ite_self]
  have htransfer : transfer b.master.state 'S' =
      [.sdaEn false, .sclEn false, .wait 625, .sdaEn true, .wait 625, .sclEn true, .wait 1250,
        .goto .devid] := rfl
  have hrest : Bus.settle S ⟨pulling false false b.master, b.slave, b.sda, b.scl, b.conds⟩ =
      ⟨pulling false false b.master, b.slave, true, true, b.conds⟩ := by
    rw [h.sda, h.scl]
    exact settle_rest rfl rfl h.low
  have hstart : Bus.settle S ⟨pulling true false b.master, b.slave, true, true, b.conds⟩ =
      ⟨pulling true false b.master, S.start b.slave, false, true, b.conds ++ [Cond.start]⟩ :=
    settle_start rfl rfl
  have hfall : Bus.settle S ⟨pulling true true b.master, S.start b.slave, false, true,
        b.conds ++ [Cond.start]⟩ =
      ⟨pulling true true b.master, S.fall (S.start b.slave), false, false, b.conds ++ [Cond.start]⟩ :=
    settle_fall rfl
  have he : b.symbol S 'S' ready =
      ⟨{ pulling true true b.master with state := .devid }, S.fall (S.start b.slave), false, false,
        b.conds ++ [Cond.start]⟩ := by
    unfold Bus.symbol
    rw [hready, htransfer]
    calc _ = act S (Bus.settle S (act S (Bus.settle S (act S (Bus.settle S
              ⟨pulling false false b.master, b.slave, b.sda, b.scl, b.conds⟩) (.sdaEn true)))
              (.sclEn true))) (.goto .devid) := rfl
      _ = act S (Bus.settle S (act S (Bus.settle S ⟨pulling true false b.master, b.slave, true, true,
              b.conds⟩) (.sclEn true))) (.goto .devid) := by rw [hrest]; rfl
      _ = act S (Bus.settle S ⟨pulling true true b.master, S.start b.slave, false, true,
              b.conds ++ [Cond.start]⟩) (.goto .devid) := by rw [hstart]; rfl
      _ = _ := by rw [hfall]; rfl
  rw [he]
  exact
    { state := rfl
      last := nofun
      out := h.out
      conds := by rw [h.conds]
      slave := ⟨S.fall (S.start b.slave), hPQ _ h.slave h.low, between_low rfl⟩ }

/-- **A stop**: the slave must leave the data line alone from the rise of the clock on. -/
theorem Boundary.stop
    (hPQ : ∀ s, P s → S.low (S.rise false s) = false ∧ Q (S.stop (S.rise false s))) (ready : Bool)
    (h : Boundary S P state last out cs b') :
    Rest S Q out (cs ++ [Cond.stop]) (b'.symbol S 'P' ready) := by
  obtain ⟨b, h, he⟩ := h.symbol 'P' ready
  obtain ⟨s, hs, hb⟩ := h.slave
  obtain ⟨hlow, hq⟩ := hPQ s hs
  have htransfer : transfer state 'P' =
      [.wait 625, .sdaEn true, .wait 625, .sclEn false, .wait 625, .sdaEn false, .wait 1250,
        .goto .idle] := by cases state <;> rfl
  have hpull : Bus.settle S ⟨pulling true b.master.sclEn b.master, s, !(b.master.sdaEn || S.low s), false,
        b.conds⟩ = ⟨pulling true b.master.sclEn b.master, s, false, false, b.conds⟩ :=
    settle_low hb.1
  have hrise : Bus.settle S ⟨pulling true false b.master, s, false, false, b.conds⟩ =
      ⟨pulling true false b.master, S.rise false s, false, true, b.conds⟩ :=
    settle_rise rfl rfl rfl
  have hstop : Bus.settle S ⟨pulling false false b.master, S.rise false s, false, true, b.conds⟩ =
      ⟨pulling false false b.master, S.stop (S.rise false s), true, true, b.conds ++ [Cond.stop]⟩ :=
    settle_stop rfl rfl hlow
  have hsymbol : b'.symbol S 'P' ready =
      ⟨{ pulling false false b.master with state := .idle }, S.stop (S.rise false s), true, true,
        b.conds ++ [Cond.stop]⟩ := by
    rw [he, htransfer]
    calc _ = act S (Bus.settle S (act S (Bus.settle S (act S (Bus.settle S (act S (Bus.settle S b)
              (.sdaEn true))) (.sclEn false))) (.sdaEn false))) (.goto .idle) := rfl
      _ = act S (Bus.settle S (act S (Bus.settle S (act S (Bus.settle S ⟨pulling true b.master.sclEn b.master, s,
              !(b.master.sdaEn || S.low s), false, b.conds⟩) (.sclEn false))) (.sdaEn false)))
              (.goto .idle) := by rw [hb.settle]; rfl
      _ = act S (Bus.settle S (act S (Bus.settle S ⟨pulling true false b.master, s, false, false, b.conds⟩)
              (.sdaEn false))) (.goto .idle) := by rw [hpull]; rfl
      _ = act S (Bus.settle S ⟨pulling false false b.master, S.rise false s, false, true, b.conds⟩)
              (.goto .idle) := by rw [hrise]; rfl
      _ = _ := by rw [hstop]; rfl
  rw [hsymbol]
  exact
    { state := rfl
      out := h.out
      conds := by rw [h.conds]
      sdaEn := rfl
      sclEn := rfl
      sda := rfl
      scl := rfl
      low := (S.low_stop _).trans hlow
      slave := hq }

/-! ## §5 — runs -/

/-- Whatever is ready, and whatever the world does in between, these symbols lead from `A` to `B`. -/
def Triple (S : Slave σ ε) (A : Bus σ → Prop) (ps : List Char) (B : Bus σ → Prop) : Prop :=
  ∀ b b', A b → Runs S b ps b' → B b'

variable {A B C : Bus σ → Prop} {p : Char} {ps qs : List Char}

/-- There is a run of any symbols. -/
theorem runs_symbols : ∀ (ps : List Char) (b : Bus σ), Runs S b ps (b.symbols S ps)
  | [], b => .done b
  | p :: ps, b => .symbol p true (runs_symbols ps (b.symbol S p true))

theorem Runs.append {b₀ b₁ b₂ : Bus σ} (h : Runs S b₀ ps b₁) (h' : Runs S b₁ qs b₂) :
    Runs S b₀ (ps ++ qs) b₂ := by
  induction h with
  | done b => exact h'
  | world e _ ih => exact .world e (ih h')
  | symbol p ready _ ih => exact .symbol p ready (ih h')

theorem Runs.split {b₀ b₂ : Bus σ} {rs : List Char} (h : Runs S b₀ rs b₂) :
    ∀ ps qs, rs = ps ++ qs → ∃ b₁, Runs S b₀ ps b₁ ∧ Runs S b₁ qs b₂ := by
  induction h with
  | done b =>
    intro ps qs he
    obtain ⟨rfl, rfl⟩ := List.append_eq_nil_iff.mp he.symm
    exact ⟨b, .done b, .done b⟩
  | world e _ ih =>
    intro ps qs he
    obtain ⟨b₁, h₁, h₂⟩ := ih ps qs he
    exact ⟨b₁, .world e h₁, h₂⟩
  | @symbol b b' rs p ready hrun ih =>
    intro ps qs he
    cases ps with
    | nil =>
      obtain rfl : p :: rs = qs := he
      exact ⟨b, .done b, .symbol p ready hrun⟩
    | cons q ps =>
      obtain ⟨rfl, hrest⟩ := List.cons.inj he
      obtain ⟨b₁, h₁, h₂⟩ := ih ps qs hrest
      exact ⟨b₁, .symbol p ready h₁, h₂⟩

theorem Triple.seq (h : Triple S A ps B) (h' : Triple S B qs C) : Triple S A (ps ++ qs) C := by
  intro b b' ha hrun
  obtain ⟨b₁, h₁, h₂⟩ := hrun.split ps qs rfl
  exact h' b₁ b' (h b b₁ ha h₁) h₂

theorem Triple.mono (h : Triple S A ps B) (hA : ∀ b, C b → A b) : Triple S C ps B :=
  fun b b' hc => h b b' (hA b hc)

/-- No symbol: the world may still act. -/
theorem Triple.nil (hA : ∀ b e, A b → A (b.world S e)) : Triple S A [] A := by
  have hgen : ∀ ps b b', Runs S b ps b' → ps = [] → A b → A b' := by
    intro ps b b' hrun
    induction hrun with
    | done b => exact fun _ ha => ha
    | world e _ ih => exact fun he ha => ih he (hA _ e ha)
    | symbol p ready _ _ => exact nofun
  exact fun b b' ha hrun => hgen [] b b' hrun rfl ha

/-- One symbol, from what it does whether it is ready or not. -/
theorem Triple.symbol (hA : ∀ b e, A b → A (b.world S e)) (hB : ∀ b e, B b → B (b.world S e))
    (h : ∀ b ready, A b → B (b.symbol S p ready)) : Triple S A [p] B := by
  have hgen : ∀ ps b b', Runs S b ps b' → ps = [p] → A b → B b' := by
    intro ps b b' hrun
    induction hrun with
    | done b => exact nofun
    | world e _ ih => exact fun he ha => ih he (hA _ e ha)
    | @symbol b b' ps q ready hrun _ =>
      intro he ha
      obtain ⟨rfl, rfl⟩ := List.cons.inj he
      exact Triple.nil hB _ _ (h b ready ha) hrun
  exact fun b b' ha hrun => hgen [p] b b' hrun rfl ha

/-- **Bits in a row**: `R` is the slave after those already sent. -/
theorem Triple.bits {R : List Bool → σ → Prop} {w : List Bool}
    (hst : state = .devid ∨ state = .writing) (hR : ∀ l, Stable S (R l))
    (hstep : ∀ l v r, l ++ v :: r = w →
      ∀ s, R l s → Steady S v s ∧ R (l ++ [v]) (clocked S v s)) :
    Triple S (Boundary S (R []) state last out cs) (w.map symbolOf)
      (Boundary S (R w) state (w.foldl (fun _ v => some v) last) out cs) := by
  have hgen : ∀ r l last, l ++ r = w →
      Triple S (Boundary S (R l) state last out cs) (r.map symbolOf)
        (Boundary S (R w) state (r.foldl (fun _ v => some v) last) out cs) := by
    intro r
    induction r with
    | nil =>
      intro l last he
      rw [List.append_nil] at he
      rw [he]
      exact Triple.nil fun b e h => h.world (hR w) e
    | cons v r ih =>
      intro l last he
      have hone : Triple S (Boundary S (R l) state last out cs) [symbolOf v]
          (Boundary S (R (l ++ [v])) state (some v) out cs) :=
        Triple.symbol (fun b e h => h.world (hR l) e) (fun b e h => h.world (hR _) e)
          fun b ready h => h.bit hst (hstep l v r he) ready
      exact hone.seq (ih (l ++ [v]) (some v) (by rw [← he]; simp))
  exact hgen w [] last rfl

/-- **Bits of the slave in a row**: `R` is the slave after those the master has already read. -/
theorem Triple.gets {R : List Bool → σ → Prop} {w : List Bool} (hR : ∀ l, Stable S (R l))
    (hstep : ∀ l v r, l ++ v :: r = w →
      ∀ s, R l s → S.low s = !v ∧ Steady S true s ∧ R (l ++ [v]) (clocked S true s)) :
    Triple S (Boundary S (R []) .reading none out cs) (w.map fun _ => 'Z')
      (Boundary S (R w) .reading none (out ++ w.map symbolOf) cs) := by
  have hgen : ∀ r l out, l ++ r = w →
      Triple S (Boundary S (R l) .reading none out cs) (r.map fun _ => 'Z')
        (Boundary S (R w) .reading none (out ++ r.map symbolOf) cs) := by
    intro r
    induction r with
    | nil =>
      intro l out he
      rw [List.append_nil] at he
      rw [he, List.map_nil, List.map_nil, List.append_nil]
      exact Triple.nil fun b e h => h.world (hR w) e
    | cons v r ih =>
      intro l out he
      have hone : Triple S (Boundary S (R l) .reading none out cs) ['Z']
          (Boundary S (R (l ++ [v])) .reading none (out ++ [symbolOf v]) cs) :=
        Triple.symbol (fun b e h => h.world (hR l) e) (fun b e h => h.world (hR _) e)
          fun b ready h => h.get (hstep l v r he) ready
      have hrest := ih (l ++ [v]) (out ++ [symbolOf v]) (by rw [← he]; simp)
      rw [List.append_assoc] at hrest
      exact hone.seq hrest
  exact hgen w [] out rfl

/-! ## §6 — conditions stay -/

theorem react_conds (sdaEvent sclEvent : Bool) (b : Bus σ) :
    b.conds <+: (react S sdaEvent sclEvent b).conds := by
  unfold react
  repeat' split
  · exact List.prefix_append b.conds [.start]
  · exact List.prefix_append b.conds [.stop]
  all_goals exact List.prefix_rfl

theorem settle_conds (b : Bus σ) : b.conds <+: (settle S b).conds := by
  have hdelta (b : Bus σ) : b.conds <+: (delta S b).conds :=
    react_conds _ _ { b with sda := !(b.master.sdaEn || S.low b.slave), scl := !b.master.sclEn }
  exact (hdelta b).trans (hdelta _)

theorem act_conds (b : Bus σ) (a : Act) : b.conds <+: (act S b a).conds := by
  cases a with
  | wait ns => exact settle_conds b
  | _ => exact List.prefix_rfl

theorem foldl_act_conds (as : List Act) (b : Bus σ) : b.conds <+: (as.foldl (act S) b).conds := by
  induction as generalizing b with
  | nil => exact List.prefix_rfl
  | cons a as ih => exact (act_conds b a).trans (ih _)

/-- A condition that was taken stays on record to the end of a run. -/
theorem Runs.conds (h : Runs S b ps b') : b.conds <+: b'.conds := by
  induction h with
  | done b => exact List.prefix_rfl
  | @world b _ _ e _ ih => exact (settle_conds b).trans ih
  | @symbol b _ _ p ready _ ih =>
    have hready : b.conds <+: (if ready then b else settle S b).conds := by
      cases ready
      · exact settle_conds b
      · exact List.prefix_rfl
    exact (hready.trans (foldl_act_conds _ _)).trans ih

end Bus

end Espmod.I2c
