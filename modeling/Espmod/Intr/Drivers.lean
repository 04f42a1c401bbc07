/-
# Espmod.Intr.Drivers — the driver threads and the interrupts they serve

A driver thread waits for its CPU's masked word to change, picks one line with `get_next`, remembers the
word, and calls the line's handler. While the handler is suspended in a wait of its own, changes of the
word wake nobody.

So of several lines that rise together one is served, and what rises while a handler runs stays
unserved when the driver waits again. No interrupt is lost exactly as long as neither happens to a line
with a handler, and the line that is picked at a wake-up is the one that has risen.
-/
import Espmod.Lib.Run
import Espmod.Lib.Signal

namespace Espmod.Intr

open Espmod.Lib

/-! ## §1 — the choice of a line -/

/-- How `get_next` looks at a line: at the word itself, at what was not in the last word, or at one of
the two as the edge mask says. -/
inductive LineKind where
  | nmi
  | timer
  | masked
deriving DecidableEq

/-- The lines in the order of `get_next`. -/
def priorities : List (Nat × LineKind) :=
  [(14, .nmi),
    (16, .timer), (26, .masked), (31, .masked),
    (24, .masked), (25, .masked), (28, .masked), (30, .masked),
    (11, .timer), (15, .timer), (22, .masked), (23, .masked), (27, .masked), (29, .timer),
    (19, .masked), (20, .masked), (21, .masked),
    (0, .masked), (1, .masked), (2, .masked), (3, .masked), (4, .masked), (5, .masked),
    (6, .timer), (7, .timer), (8, .masked), (9, .masked), (10, .masked), (12, .masked),
    (13, .masked), (17, .masked), (18, .masked)]

/-- The bits that count for lines of a kind. -/
def LineKind.word (edgemask now last : BitVec 32) : LineKind → BitVec 32
  | .nmi => now
  | .timer => now &&& ~~~last
  | .masked => now &&& ~~~((last &&& edgemask) ||| (~~~now &&& ~~~edgemask))

/-- `get_next`; `none` is −1. -/
def getNext (edgemask now last : BitVec 32) : Option Nat :=
  (priorities.find? fun p => p.2.word edgemask now last &&& ((1 : BitVec 32) <<< p.1) != 0).map
    Prod.fst

/-! ## §2 — the driver of a CPU -/

/-- `espm_intr_handler_t` of a line with a handler. -/
structure Handler where
  fn : Nat
  arg : Nat
deriving Repr, DecidableEq

inductive Cpu where
  | pro
  | app
deriving Repr, DecidableEq

/-- What a driver looks at: its CPU's edge word, and the handlers of both CPUs. -/
structure DriverConf where
  cpu : Cpu
  edge : BitVec 32
  handlerPro : Nat → Option Handler
  handlerApp : Nat → Option Handler

/-- The handler that is registered for a line of the CPU, whose presence the driver checks. -/
def DriverConf.registered (conf : DriverConf) (n : Nat) : Option Handler :=
  match conf.cpu with
  | .pro => conf.handlerPro n
  | .app => conf.handlerApp n

/-- The handler that the driver calls: both drivers take the first CPU's. -/
def DriverConf.called (conf : DriverConf) (n : Nat) : Option Handler := conf.handlerPro n

/-- A line with a handler. -/
def DriverConf.Handled (conf : DriverConf) (n : Nat) : Prop := conf.registered n ≠ none

instance (conf : DriverConf) (n : Nat) : Decidable (conf.Handled n) :=
  inferInstanceAs (Decidable (_ ≠ _))

/-- An edge-configured line. -/
def DriverConf.Edge (conf : DriverConf) (n : Nat) : Prop := conf.edge.getLsbD n = true

instance (conf : DriverConf) (n : Nat) : Decidable (conf.Edge n) :=
  inferInstanceAs (Decidable (_ = _))

/-- `driver_pro` or `driver_app`. -/
structure IntrDriver where
  /-- the masked word of the CPU -/
  intr : BitVec 32
  last : BitVec 32
  /-- the word has changed while the thread waited -/
  woken : Bool
  /-- the line whose handler is running -/
  running : Option Nat
deriving Repr, DecidableEq

namespace IntrDriver

def new : IntrDriver := ⟨0, 0, false, none⟩

/-- The word becomes `w`, the driver takes its turn, or the handler returns. -/
inductive DriverEvent where
  | word (w : BitVec 32)
  | turn
  | done
deriving Repr, DecidableEq

/-- The line that a turn serves, if it has a handler. -/
def served (conf : DriverConf) (d : IntrDriver) : Option Nat :=
  (getNext conf.edge d.intr d.last).filter fun n => decide (conf.Handled n)

/-- A turn of the thread, up to the call of the handler or the next wait. -/
def turn (conf : DriverConf) (d : IntrDriver) : IntrDriver :=
  { d with last := d.intr, woken := false, running := d.served conf }

/-- A thread that is due runs before the next delta cycle ends. -/
def step (conf : DriverConf) (d : IntrDriver) : DriverEvent → IntrDriver
  | .word w =>
    if d.woken then d
    else { d with intr := w, woken := decide (d.running = none ∧ w ≠ d.intr) }
  | .turn => if d.woken then d.turn conf else d
  | .done => { d with running := none }

/-- The thread waits, and has not been woken. -/
def Waiting (d : IntrDriver) : Prop := d.running = none ∧ d.woken = false

instance (d : IntrDriver) : Decidable d.Waiting := inferInstanceAs (Decidable (_ ∧ _))

/-! ## §3 — what has risen and what has been called -/

/-- The driver beside the history of every line. -/
structure Watch where
  d : IntrDriver
  rises : Nat → Nat
  calls : Nat → Nat
  /-- the line has been dispatched since it last rose -/
  answered : Nat → Bool
  /-- a handler has been called for a line that it is not registered for -/
  astray : Bool
  /-- the lines that rose in the change that last woke the driver -/
  woke : BitVec 32
  /-- the lines that have risen since the driver last took its turn -/
  during : Nat → Bool

namespace Watch

def new : Watch :=
  ⟨IntrDriver.new, fun _ => 0, fun _ => 0, fun _ => false, false, 0, fun _ => false⟩

/-- The lines that rise when the word becomes `w`. -/
def rising (w : BitVec 32) (d : IntrDriver) : BitVec 32 := w &&& ~~~d.intr

/-- A new word. -/
def word (conf : DriverConf) (w : BitVec 32) (s : Watch) : Watch :=
  let up := rising w s.d
  { s with
    d := s.d.step conf (.word w)
    rises := fun m => s.rises m + (up.getLsbD m).toNat
    answered := fun m => s.answered m && !up.getLsbD m
    woke := if s.d.running = none then up else s.woke
    during := fun m => s.during m || (s.d.running.isSome && up.getLsbD m) }

/-- A turn: the call, if there is one, is to the line's own handler or goes astray. -/
def turn (conf : DriverConf) (s : Watch) : Watch :=
  let s' := { s with d := s.d.step conf .turn, during := fun _ => false }
  match s.d.served conf with
  | none => s'
  | some n =>
    if conf.called n = conf.registered n then
      { s' with
        calls := fun m => if m = n then s.calls m + 1 else s.calls m
        answered := fun m => if m = n then true else s.answered m }
    else { s' with astray := true }

def step (conf : DriverConf) (s : Watch) : DriverEvent → Watch
  | .word w => if s.d.woken then s else word conf w s
  | .turn => if s.d.woken then turn conf s else s
  | .done => { s with d := s.d.step conf .done }

/-- **No interrupt is lost**: no handler of an edge line is called without an edge of its own, none is
called for another line, and when the driver waits every edge has had its call and every level line
that is still asserted has been dispatched since it rose. -/
structure NoneLost (conf : DriverConf) (s : Watch) : Prop where
  once : ∀ m, conf.Handled m → conf.Edge m → s.calls m ≤ s.rises m
  own : s.astray = false
  edges : s.d.Waiting → ∀ m, conf.Handled m → conf.Edge m → s.calls m = s.rises m
  levels : s.d.Waiting → ∀ m, conf.Handled m → ¬ conf.Edge m → s.d.intr.getLsbD m = true →
    s.answered m = true

/-- At a wake-up, `get_next` picks a line with a handler, its own, and one that has risen if it is an
edge line; or no line with a handler has risen. And when a handler returns, no line with a handler,
edge-configured or still asserted, has risen while it ran, or together with the line that it served. -/
def ServedAlone (conf : DriverConf) (s : Watch) : DriverEvent → Prop
  | .turn => s.d.woken = true →
    match s.d.served conf with
    | some n => conf.called n = conf.registered n ∧ (conf.Edge n → s.woke.getLsbD n = true)
    | none => ∀ m, conf.Handled m → s.woke.getLsbD m = false
  | .done => ∀ n, s.d.running = some n → ∀ m, conf.Handled m →
    conf.Edge m ∨ s.d.intr.getLsbD m = true →
      s.during m = false ∧ (s.woke.getLsbD m = true → m = n)
  | .word _ => True

/-! ## §4 — the invariant -/

variable {conf : DriverConf} {s : Watch}

/-- The driver waits, has been woken, or serves a line. -/
structure Accounted (conf : DriverConf) (s : Watch) : Prop where
  own : s.astray = false
  waiting : s.d.running = none → s.d.woken = false → ∀ m, conf.Handled m →
    (conf.Edge m → s.calls m = s.rises m) ∧
      (¬ conf.Edge m → s.d.intr.getLsbD m = true → s.answered m = true)
  woken : s.d.woken = true → s.d.running = none ∧
    (∀ m, s.woke.getLsbD m = true → s.d.intr.getLsbD m = true) ∧
    ∀ m, conf.Handled m →
      (conf.Edge m → s.rises m = s.calls m + (s.woke.getLsbD m).toNat) ∧
        (¬ conf.Edge m → s.d.intr.getLsbD m = true → s.answered m = !s.woke.getLsbD m)
  running : ∀ n, s.d.running = some n → ∀ m, conf.Handled m →
    (conf.Edge m →
      s.calls m + (s.woke.getLsbD m && decide (m ≠ n)).toNat + (s.during m).toNat ≤ s.rises m ∧
      (s.during m = false →
        s.calls m + (s.woke.getLsbD m && decide (m ≠ n)).toNat = s.rises m)) ∧
    (¬ conf.Edge m → s.d.intr.getLsbD m = true →
      s.answered m = (!s.during m && !(s.woke.getLsbD m && decide (m ≠ n))))

theorem accounted_new (conf : DriverConf) : Accounted conf new where
  own := rfl
  waiting _ _ m _ := by
    refine ⟨fun _ => rfl, ?_⟩
    intro _ hset
    have hzero : (0#32).getLsbD m = true := hset
    rw [BitVec.getLsbD_zero] at hzero
    exact absurd hzero Bool.false_ne_true
  woken hw := absurd hw Bool.false_ne_true
  running := by
    rintro n ⟨⟩

/-- No edge line has had more calls than edges. -/
theorem Accounted.once (h : Accounted conf s) {m : Nat} (hm : conf.Handled m) (he : conf.Edge m) :
    s.calls m ≤ s.rises m := by
  cases hrun : s.d.running with
  | some n =>
    have hle := (((h.running n hrun) m hm).1 he).1
    omega
  | none =>
    cases hwoken : s.d.woken with
    | true =>
      have heq := ((h.woken hwoken).2.2 m hm).1 he
      omega
    | false => exact Nat.le_of_eq (((h.waiting hrun hwoken) m hm).1 he)

/-- A driver that runs a handler has not been woken. -/
theorem Accounted.not_woken (h : Accounted conf s) {n : Nat} (hrun : s.d.running = some n) :
    s.d.woken = false := by
  refine Bool.eq_false_iff.mpr fun hw => ?_
  have hnone := (h.woken hw).1
  rw [hrun] at hnone
  cases hnone

theorem Accounted.noneLost (h : Accounted conf s) : NoneLost conf s where
  once _ hm he := h.once hm he
  own := h.own
  edges hw m hm := ((h.waiting hw.1 hw.2) m hm).1
  levels hw m hm := ((h.waiting hw.1 hw.2) m hm).2

theorem getLsbD_rising (w : BitVec 32) (d : IntrDriver) (m : Nat) :
    (rising w d).getLsbD m = (w.getLsbD m && !d.intr.getLsbD m) := by
  unfold rising
  rw [BitVec.getLsbD_and, BitVec.getLsbD_not]
  by_cases hm : m < 32
  · rw [decide_eq_true hm, Bool.true_and]
  · rw [BitVec.getLsbD_of_ge w m (Nat.le_of_not_lt hm), Bool.false_and, Bool.false_and]

/-- A line that is asserted without having risen was asserted before. -/
theorem asserted_before {w : BitVec 32} {d : IntrDriver} {m : Nat} (hset : w.getLsbD m = true)
    (hno : (rising w d).getLsbD m = false) : d.intr.getLsbD m = true := by
  rw [getLsbD_rising, hset, Bool.true_and] at hno
  simpa using hno

/-- A new word for a driver that is not woken. -/
theorem word_d (hwoken : s.d.woken = false) (w : BitVec 32) : (word conf w s).d =
    { s.d with intr := w, woken := decide (s.d.running = none ∧ w ≠ s.d.intr) } := by
  show (if s.d.woken then s.d
    else { s.d with intr := w, woken := decide (s.d.running = none ∧ w ≠ s.d.intr) }) = _
  rw [hwoken]
  rfl

/-- A new word while the driver waits wakes it. -/
theorem Accounted.wakes (h : Accounted conf s) (hwoken : s.d.woken = false)
    (hrun : s.d.running = none) (w : BitVec 32) : Accounted conf (word conf w s) := by
  have hd : (word conf w s).d = { s.d with intr := w, woken := decide (w ≠ s.d.intr) } := by
    rw [word_d hwoken, hrun]
    simp
  have hwoke : (word conf w s).woke = rising w s.d := if_pos hrun
  refine ⟨h.own, ?_, ?_, ?_⟩
  · -- the driver is not woken by the same word
    intro _ hsame m hm
    rw [hd] at hsame
    have hw : w = s.d.intr := not_not.mp (of_decide_eq_false hsame)
    have hup : (rising w s.d).getLsbD m = false := by
      rw [getLsbD_rising, hw]
      exact Bool.and_not_self _
    obtain ⟨hedge, hlevel⟩ := h.waiting hrun hwoken m hm
    constructor
    · intro he
      show s.calls m = s.rises m + ((rising w s.d).getLsbD m).toNat
      rw [hup]
      exact hedge he
    · intro he hset
      show (s.answered m && !(rising w s.d).getLsbD m) = true
      rw [hd] at hset
      have hset : s.d.intr.getLsbD m = true := hw ▸ hset
      rw [hup, hlevel he hset]
      rfl
  · intro _
    rw [hd, hwoke]
    refine ⟨hrun, ?_, ?_⟩
    · intro m hm
      rw [getLsbD_rising] at hm
      exact (Bool.and_eq_true_iff.mp hm).1
    · intro m hm
      obtain ⟨hedge, hlevel⟩ := h.waiting hrun hwoken m hm
      constructor
      · intro he
        show s.rises m + _ = s.calls m + _
        rw [hedge he]
      · intro he hset
        show (s.answered m && !(rising w s.d).getLsbD m) = !(rising w s.d).getLsbD m
        cases hup : (rising w s.d).getLsbD m with
        | true => exact Bool.and_false _
        | false =>
          rw [hlevel he (asserted_before hset hup)]
          rfl
  · intro n hn
    rw [hd] at hn
    have hn : s.d.running = some n := hn
    rw [hrun] at hn
    cases hn

/-- An edge that rises, or not, while a handler runs: the calls stay behind the edges by one at least
for what rose during the handler, and are level with them if nothing did. -/
theorem behind_rises {behind rises : Nat} {during : Bool} (hle : behind + during.toNat ≤ rises)
    (heq : during = false → behind = rises) (up : Bool) :
    behind + (during || up).toNat ≤ rises + up.toNat ∧
      ((during || up) = false → behind = rises + up.toNat) := by
  cases up with
  | false =>
    rw [Bool.or_false]
    exact ⟨hle, heq⟩
  | true =>
    rw [Bool.or_true]
    refine ⟨?_, fun hno => absurd hno.symm Bool.false_ne_true⟩
    cases during with
    | true => exact Nat.le_succ_of_le hle
    | false => exact Nat.succ_le_succ (Nat.le_of_eq (heq rfl))

/-- A new word while a handler runs is noted only. -/
theorem Accounted.missed (h : Accounted conf s) (hwoken : s.d.woken = false) {n : Nat}
    (hrun : s.d.running = some n) (w : BitVec 32) : Accounted conf (word conf w s) := by
  have hd : (word conf w s).d = { s.d with intr := w, woken := false } := by
    rw [word_d hwoken, hrun]
    simp
  have hwoke : (word conf w s).woke = s.woke := by
    refine if_neg ?_
    rw [hrun]
    exact Option.some_ne_none n
  have hduring : ∀ m, (word conf w s).during m = (s.during m || (rising w s.d).getLsbD m) := by
    intro m
    show (s.during m || (s.d.running.isSome && (rising w s.d).getLsbD m)) = _
    rw [hrun]
    rfl
  refine ⟨h.own, ?_, ?_, ?_⟩
  · intro hnone
    rw [hd] at hnone
    have hnone : s.d.running = none := hnone
    rw [hrun] at hnone
    cases hnone
  · intro hw
    rw [hd] at hw
    exact absurd hw Bool.false_ne_true
  · intro n' hn' m hm
    rw [hd] at hn'
    have hn' : s.d.running = some n' := hn'
    obtain ⟨hedge, hlevel⟩ := h.running n' hn' m hm
    rw [hd, hwoke, hduring]
    constructor
    · intro he
      obtain ⟨hle, heq⟩ := hedge he
      exact behind_rises hle heq ((rising w s.d).getLsbD m)
    · intro he hset
      show (s.answered m && !(rising w s.d).getLsbD m) = _
      cases hup : (rising w s.d).getLsbD m with
      | true =>
        rw [Bool.or_true]
        exact Bool.and_false _
      | false =>
        rw [Bool.or_false, hlevel he (asserted_before hset hup)]
        exact Bool.and_true _

/-- A turn that serves no line. -/
theorem turn_none (hwoken : s.d.woken = true) (hnone : s.d.served conf = none) :
    turn conf s =
      { s with
        d := { s.d with last := s.d.intr, woken := false, running := none }
        during := fun _ => false } := by
  unfold turn
  rw [hnone]
  dsimp only
  rw [show s.d.step conf .turn = s.d.turn conf from if_pos hwoken]
  unfold IntrDriver.turn
  rw [hnone]

/-- The driver takes its turn and finds no line to serve. -/
theorem Accounted.finds_none (h : Accounted conf s) (hwoken : s.d.woken = true)
    (hnone : s.d.served conf = none) (hok : ∀ m, conf.Handled m → s.woke.getLsbD m = false) :
    Accounted conf (turn conf s) := by
  obtain ⟨_, _, hacc⟩ := h.woken hwoken
  rw [turn_none hwoken hnone]
  refine ⟨h.own, ?_, fun hw => absurd hw Bool.false_ne_true, ?_⟩
  · intro _ _ m hm
    obtain ⟨hedge, hlevel⟩ := hacc m hm
    rw [hok m hm] at hedge hlevel
    exact ⟨fun he => (hedge he).symm, hlevel⟩
  · rintro n ⟨⟩

/-- The driver takes its turn and calls the handler of a line that has risen, or of a level line. -/
theorem Accounted.finds_some (h : Accounted conf s) (hwoken : s.d.woken = true) {n : Nat}
    (hsome : s.d.served conf = some n) (hown : conf.called n = conf.registered n)
    (hok : conf.Edge n → s.woke.getLsbD n = true) : Accounted conf (turn conf s) := by
  have hs : turn conf s =
      { s with
        d := { s.d with last := s.d.intr, woken := false, running := some n }
        during := fun _ => false
        calls := fun m => if m = n then s.calls m + 1 else s.calls m
        answered := fun m => if m = n then true else s.answered m } := by
    unfold turn
    rw [hsome]
    dsimp only
    rw [if_pos hown, show s.d.step conf .turn = s.d.turn conf from if_pos hwoken]
    unfold IntrDriver.turn
    rw [hsome]
  obtain ⟨_, _, hacc⟩ := h.woken hwoken
  rw [hs]
  refine ⟨h.own, ?_, fun hw => absurd hw Bool.false_ne_true, ?_⟩
  · rintro ⟨⟩
  · rintro n' ⟨⟩ m hm
    obtain ⟨hedge, hlevel⟩ := hacc m hm
    dsimp only
    -- only the line that is served changes its account
    by_cases hmn : m = n
    · subst hmn
      constructor
      · intro he
        have heq := hedge he
        rw [hok he] at heq
        have hcount : s.rises m = s.calls m + 1 := heq
        simp [hcount]
      · intro _ _
        simp
    · constructor
      · intro he
        have heq := hedge he
        simp [hmn, heq]
      · intro he hset
        have hans := hlevel he hset
        simp [hmn, hans]

/-- The handler returns, with nothing left to serve. -/
theorem Accounted.returns (h : Accounted conf s) (hok : ServedAlone conf s .done) :
    Accounted conf (s.step conf .done) := by
  cases hrun : s.d.running with
  | none =>
    have hd : s.d.step conf .done = s.d := by
      show ({ s.d with running := none } : IntrDriver) = s.d
      rw [← hrun]
    have hs : s.step conf .done = s := by
      show ({ s with d := s.d.step conf .done } : Watch) = s
      rw [hd]
    rw [hs]
    exact h
  | some n =>
    have hidle := h.not_woken hrun
    refine ⟨h.own, ?_, ?_, ?_⟩
    · intro _ _ m hm
      obtain ⟨hedge, hlevel⟩ := h.running n hrun m hm
      -- nothing rose while the handler ran, and no other line rose with its own
      have hclear : ∀ hor : conf.Edge m ∨ s.d.intr.getLsbD m = true,
          s.during m = false ∧ (s.woke.getLsbD m && decide (m ≠ n)) = false := by
        intro hor
        obtain ⟨hdur, hwoke⟩ := hok n hrun m hm hor
        refine ⟨hdur, ?_⟩
        cases hup : s.woke.getLsbD m with
        | true =>
          rw [hwoke hup]
          simp
        | false => rfl
      constructor
      · intro he
        obtain ⟨hdur, halone⟩ := hclear (Or.inl he)
        have heq := (hedge he).2 hdur
        rw [halone] at heq
        exact heq
      · intro he hset
        obtain ⟨hdur, halone⟩ := hclear (Or.inr hset)
        have hans := hlevel he hset
        rw [hdur, halone] at hans
        exact hans
    · intro hw
      have hw : s.d.woken = true := hw
      rw [hidle] at hw
      exact absurd hw Bool.false_ne_true
    · rintro n' ⟨⟩

/-- **One step** that serves alone keeps the account. -/
theorem Accounted.step (h : Accounted conf s) {e : DriverEvent} (hok : ServedAlone conf s e) :
    Accounted conf (s.step conf e) := by
  cases e with
  | word w =>
    show Accounted conf (if s.d.woken then s else word conf w s)
    by_cases hwoken : s.d.woken = true
    · rw [if_pos hwoken]
      exact h
    · rw [if_neg hwoken]
      have hidle : s.d.woken = false := Bool.eq_false_iff.mpr hwoken
      cases hrun : s.d.running with
      | none => exact h.wakes hidle hrun w
      | some n => exact h.missed hidle hrun w
  | turn =>
    show Accounted conf (if s.d.woken then turn conf s else s)
    by_cases hwoken : s.d.woken = true
    · rw [if_pos hwoken]
      have hok := hok hwoken
      cases hserved : s.d.served conf with
      | none =>
        rw [hserved] at hok
        exact h.finds_none hwoken hserved hok
      | some n =>
        rw [hserved] at hok
        exact h.finds_some hwoken hserved hok.1 hok.2
    · rw [if_neg hwoken]
      exact h
  | done => exact h.returns hok

/-! ## §5 — steps that lose an interrupt -/

/-- A line with a handler that has risen at a wake-up and is not served then has lost its interrupt
when the driver waits. -/
theorem Accounted.overlooked (h : Accounted conf s) (hwoken : s.d.woken = true)
    (hnone : s.d.served conf = none) {m : Nat} (hm : conf.Handled m)
    (hup : s.woke.getLsbD m = true) : ¬ NoneLost conf (turn conf s) := by
  obtain ⟨_, hset, hacc⟩ := h.woken hwoken
  obtain ⟨hedge, hlevel⟩ := hacc m hm
  rw [turn_none hwoken hnone]
  intro hl
  by_cases he : conf.Edge m
  · have hcalls : s.calls m = s.rises m := hl.edges ⟨rfl, rfl⟩ m hm he
    have hrises := hedge he
    rw [hup] at hrises
    have hone : s.rises m = s.calls m + 1 := hrises
    omega
  · have hans : s.answered m = true := hl.levels ⟨rfl, rfl⟩ m hm he (hset m hup)
    have hnot := hlevel he (hset m hup)
    rw [hup, hans] at hnot
    exact absurd hnot Bool.noConfusion

/-- A call of another line's handler, or one without an edge. -/
theorem Accounted.miscalled (h : Accounted conf s) (hwoken : s.d.woken = true) {n : Nat}
    (hsome : s.d.served conf = some n)
    (hbad : ¬ (conf.called n = conf.registered n ∧
      (conf.Edge n → s.woke.getLsbD n = true))) : ¬ NoneLost conf (turn conf s) := by
  intro hl
  apply hbad
  have hm : conf.Handled n := by
    have hfilter := (Option.filter_eq_some_iff.mp hsome).2
    exact of_decide_eq_true hfilter
  by_cases hown : conf.called n = conf.registered n
  · refine ⟨hown, ?_⟩
    intro he
    have hs : (turn conf s).calls n = s.calls n + 1 ∧ (turn conf s).rises n = s.rises n := by
      unfold turn
      rw [hsome]
      dsimp only
      rw [if_pos hown]
      exact ⟨if_pos rfl, rfl⟩
    -- the call is one more than the line's edges
    have honce := hl.once n hm he
    rw [hs.1, hs.2] at honce
    have hrises := ((h.woken hwoken).2.2 n hm).1 he
    by_contra hno
    rw [Bool.eq_false_iff.mpr hno] at hrises
    have hsame : s.rises n = s.calls n := hrises
    omega
  · have hstray : (turn conf s).astray = true := by
      unfold turn
      rw [hsome]
      dsimp only
      rw [if_neg hown]
    rw [hl.own] at hstray
    exact absurd hstray Bool.false_ne_true

/-- A handler that returns while another line waits. -/
theorem Accounted.left (h : Accounted conf s) (hbad : ¬ ServedAlone conf s .done) :
    ¬ NoneLost conf (s.step conf .done) := by
  intro hl
  apply hbad
  intro n hrun m hm hor
  have hidle := h.not_woken hrun
  have hwaiting : (s.step conf .done).d.Waiting := ⟨rfl, hidle⟩
  obtain ⟨hedge, hlevel⟩ := h.running n hrun m hm
  have hclear : s.during m = false ∧ (s.woke.getLsbD m && decide (m ≠ n)) = false := by
    by_cases he : conf.Edge m
    -- an edge line with all edges served: none is left over from the wake-up or the handler
    · have hcalls : s.calls m = s.rises m := hl.edges hwaiting m hm he
      obtain ⟨hle, _⟩ := hedge he
      constructor
      · cases hdur : s.during m with
        | false => rfl
        | true =>
          rw [hdur] at hle
          have hle : s.calls m + _ + 1 ≤ s.rises m := hle
          omega
      · cases hw : (s.woke.getLsbD m && decide (m ≠ n)) with
        | false => rfl
        | true =>
          rw [hw] at hle
          have hle : s.calls m + 1 + (s.during m).toNat ≤ s.rises m := hle
          omega
    -- a level line that is answered has not risen again
    · have hset : s.d.intr.getLsbD m = true := hor.resolve_left he
      have hans : s.answered m = true := hl.levels hwaiting m hm he hset
      have hnot := hlevel he hset
      rw [hans] at hnot
      have hboth := Bool.and_eq_true_iff.mp hnot.symm
      exact ⟨(Bool.not_eq_true' _).mp hboth.1, (Bool.not_eq_true' _).mp hboth.2⟩
  refine ⟨hclear.1, ?_⟩
  intro hw
  have hno := hclear.2
  rw [hw, Bool.true_and] at hno
  exact not_not.mp (of_decide_eq_false hno)

/-! ## §6 — runs -/

/-- **No lost interrupt.** For either driver, any edge word and any handlers, and every history of the
masked word, no interrupt is lost at any point of the run, if and only if every wake-up serves the one
line with a handler that rose and nothing rises for a line with a handler while one runs. -/
theorem interrupts_served (conf : DriverConf) (es : List DriverEvent) :
    Always (fun _ s => NoneLost conf s) (Watch.step conf) [] new es ↔
      Throughout (ServedAlone conf) (Watch.step conf) new es := by
  refine always_iff_of_invariant (I := fun _ s => Accounted conf s) ?_ ?_ ?_ es [] _
    (accounted_new conf)
  · intro _ s h
    exact h.noneLost
  · intro _ s e h hok
    exact h.step hok
  · intro _ s e h hbad
    cases e with
    | word w => exact absurd trivial hbad
    | done => exact h.left hbad
    | turn =>
      by_cases hwoken : s.d.woken = true
      · show ¬ NoneLost conf (if s.d.woken then turn conf s else s)
        rw [if_pos hwoken]
        have hbad : ¬ match s.d.served conf with
          | some n => conf.called n = conf.registered n ∧ (conf.Edge n → s.woke.getLsbD n = true)
          | none => ∀ m, conf.Handled m → s.woke.getLsbD m = false :=
          fun hok => hbad fun _ => hok
        cases hserved : s.d.served conf with
        | none =>
          rw [hserved] at hbad
          push Not at hbad
          obtain ⟨m, hm, hup⟩ := hbad
          exact h.overlooked hwoken hserved hm (by simpa using hup)
        | some n =>
          rw [hserved] at hbad
          exact h.miscalled hwoken hserved hbad
      · exact absurd (fun hw => absurd hw hwoken) hbad

/-- Lines 22 and 30, both edge-configured, with one handler on the first CPU and another on the
second. -/
def twoLines (cpu : Cpu) : DriverConf where
  cpu := cpu
  edge := 0x40400040
  handlerPro n := if n = 22 ∨ n = 30 then some ⟨1, n⟩ else none
  handlerApp n := if n = 22 ∨ n = 30 then some ⟨2, n⟩ else none

/-- Both lines rise together and one is dropped; one rises while the handler of the other runs and is
not served; and the second CPU's driver calls the first CPU's handler. -/
theorem interrupts_lost :
    ¬ Always (fun _ s => NoneLost (twoLines .pro) s) (Watch.step (twoLines .pro)) [] new
      [.word 0x40400000, .turn, .done] ∧
    ¬ Always (fun _ s => NoneLost (twoLines .pro) s) (Watch.step (twoLines .pro)) [] new
      [.word 0x40000000, .turn, .word 0x40400000, .done] ∧
    ¬ Always (fun _ s => NoneLost (twoLines .app) s) (Watch.step (twoLines .app)) [] new
      [.word 0x40000000, .turn, .done] := by
  refine ⟨?_, ?_, ?_⟩
  · intro h
    have hcount := h.last.edges (by decide) 22 (by decide) (by decide)
    revert hcount
    decide
  · intro h
    have hcount := h.last.edges (by decide) 22 (by decide) (by decide)
    revert hcount
    decide
  · intro h
    have hown := h.last.own
    revert hown
    decide

end Watch

end IntrDriver

end Espmod.Intr
