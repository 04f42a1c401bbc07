/-
# Espmod.Gpio.MuxOut — the multiplexer in front of a pad

`mux_out` copies the level and the enable of the source that `function` names to the two outputs, and
then waits for the function or one of the two to change. Its switch lists by hand, case by case, what is
copied and what is waited for. The model keeps the list (`transferCase`); the sources are stated once
more, by family, as what a function should be (`source`). The two agree, and what is waited for is what
is copied, in every case but one: for the second chip select of the VSPI the thread waits for the first.
-/
import Espmod.Lib.Run

namespace Espmod.Gpio

open Espmod.Lib

/-! ## §1 — signals and functions -/

/-- The wires of the two SPI controllers. -/
inductive SpiWire where
  | hspiClk
  | hspiQ
  | hspiD
  | hspiHd
  | hspiWp
  | hspiCs0
  | vspiClk
  | vspiQ
  | vspiD
  | vspiHd
  | vspiWp
  | vspiCs0
  | vspiCs1
  | vspiCs2
deriving Repr, DecidableEq

/-- The inputs of the multiplexer: `hspi_clk_out_i` is `out .hspiClk`, `hspi_clk_oen_i` is
`oen .hspiClk`, and so on. -/
inductive MuxSignal where
  | out (wire : SpiWire)
  | oen (wire : SpiWire)
  | uartTx (n : Nat)
  | ledcHs (n : Nat)
  | ledcLs (n : Nat)
  | sdaEn (n : Nat)
  | sclEn (n : Nat)
deriving Repr, DecidableEq

/-- The functions that the switch tells apart. -/
inductive OutFunction where
  | spi (wire : SpiWire)
  | uart (n : Nat)
  | ledcHs (n : Nat)
  | ledcLs (n : Nat)
  | sda (n : Nat)
  | scl (n : Nat)
  | drive0
  | drive1
  | other
deriving Repr, DecidableEq

/-- The numbers of `gpio_sig_map.h`, and `MUXOUT_DRIVE_0` and `MUXOUT_DRIVE_1`. -/
def OutFunction.ofInt : Int → OutFunction
  | 8 => .spi .hspiClk
  | 9 => .spi .hspiQ
  | 10 => .spi .hspiD
  | 11 => .spi .hspiCs0
  | 12 => .spi .hspiHd
  | 13 => .spi .hspiWp
  | 14 => .uart 0
  | 17 => .uart 1
  | 29 => .scl 0
  | 30 => .sda 0
  | 63 => .spi .vspiClk
  | 64 => .spi .vspiQ
  | 65 => .spi .vspiD
  | 66 => .spi .vspiHd
  | 67 => .spi .vspiWp
  | 68 => .spi .vspiCs0
  | 69 => .spi .vspiCs1
  | 70 => .spi .vspiCs2
  | 71 => .ledcHs 0
  | 72 => .ledcHs 1
  | 73 => .ledcHs 2
  | 74 => .ledcHs 3
  | 75 => .ledcHs 4
  | 76 => .ledcHs 5
  | 77 => .ledcHs 6
  | 78 => .ledcHs 7
  | 79 => .ledcLs 0
  | 80 => .ledcLs 1
  | 81 => .ledcLs 2
  | 82 => .ledcLs 3
  | 83 => .ledcLs 4
  | 84 => .ledcLs 5
  | 85 => .ledcLs 6
  | 86 => .ledcLs 7
  | 95 => .scl 1
  | 96 => .sda 1
  | 198 => .uart 2
  | 256 => .drive0
  | 257 => .drive1
  | _ => .other

/-- `MUXOUT_DRIVE_Z`. -/
def MuxOut.muxoutDriveZ : Int := 258

/-- What an output is a copy of. -/
inductive CopySource where
  | const (v : Bool)
  | signal (s : MuxSignal)
deriving Repr, DecidableEq

def CopySource.value (level : MuxSignal → Bool) : CopySource → Bool
  | const v => v
  | signal s => level s

/-- A source: the level and the enable. -/
structure MuxSource where
  level : CopySource
  enable : CopySource
deriving Repr, DecidableEq

/-! ## §2 — the thread -/

/-- One case of the switch: what is written to `mout_o` and `men_o`, and what is waited for besides the
function. -/
structure MuxCase where
  mout : CopySource
  men : CopySource
  waits : List MuxSignal
deriving Repr, DecidableEq

/-- The cases of the LEDC lines, in a port with `size` of them. -/
def ledcCase (size n : Nat) (line : MuxSignal) : MuxCase :=
  if size > n then ⟨.signal line, .const true, [line]⟩ else ⟨.const false, .const false, []⟩

/-- The switch of `transfer`. `hs` and `ls` are the sizes of the two LEDC ports. -/
def transferCase (hs ls : Nat) : OutFunction → MuxCase
  | .spi .hspiClk => ⟨.signal (.out .hspiClk), .signal (.oen .hspiClk), [.out .hspiClk, .oen .hspiClk]⟩
  | .spi .hspiQ => ⟨.signal (.out .hspiQ), .signal (.oen .hspiQ), [.out .hspiQ, .oen .hspiQ]⟩
  | .spi .hspiD => ⟨.signal (.out .hspiD), .signal (.oen .hspiD), [.out .hspiD, .oen .hspiD]⟩
  | .spi .hspiHd => ⟨.signal (.out .hspiHd), .signal (.oen .hspiHd), [.out .hspiHd, .oen .hspiHd]⟩
  | .spi .hspiWp => ⟨.signal (.out .hspiWp), .signal (.oen .hspiWp), [.out .hspiWp, .oen .hspiWp]⟩
  | .spi .hspiCs0 => ⟨.signal (.out .hspiCs0), .signal (.oen .hspiCs0), [.out .hspiCs0, .oen .hspiCs0]⟩
  | .spi .vspiClk => ⟨.signal (.out .vspiClk), .signal (.oen .vspiClk), [.out .vspiClk, .oen .vspiClk]⟩
  | .spi .vspiQ => ⟨.signal (.out .vspiQ), .signal (.oen .vspiQ), [.out .vspiQ, .oen .vspiQ]⟩
  | .spi .vspiD => ⟨.signal (.out .vspiD), .signal (.oen .vspiD), [.out .vspiD, .oen .vspiD]⟩
  | .spi .vspiHd => ⟨.signal (.out .vspiHd), .signal (.oen .vspiHd), [.out .vspiHd, .oen .vspiHd]⟩
  | .spi .vspiWp => ⟨.signal (.out .vspiWp), .signal (.oen .vspiWp), [.out .vspiWp, .oen .vspiWp]⟩
  | .spi .vspiCs0 => ⟨.signal (.out .vspiCs0), .signal (.oen .vspiCs0), [.out .vspiCs0, .oen .vspiCs0]⟩
  -- the first event is that of another wire
  | .spi .vspiCs1 => ⟨.signal (.out .vspiCs1), .signal (.oen .vspiCs1), [.out .vspiCs0, .oen .vspiCs1]⟩
  | .spi .vspiCs2 => ⟨.signal (.out .vspiCs2), .signal (.oen .vspiCs2), [.out .vspiCs2, .oen .vspiCs2]⟩
  | .uart n => ⟨.signal (.uartTx n), .const true, [.uartTx n]⟩
  | .ledcHs n => ledcCase hs n (.ledcHs n)
  | .ledcLs n => ledcCase ls n (.ledcLs n)
  | .sda n => ⟨.const false, .signal (.sdaEn n), [.sdaEn n]⟩
  | .scl n => ⟨.const false, .signal (.sclEn n), [.sclEn n]⟩
  | .drive0 => ⟨.const false, .const true, []⟩
  | .drive1 => ⟨.const true, .const true, []⟩
  | .other => ⟨.const false, .const false, []⟩

/-- `mux_out`. `waits` is what `transfer` sleeps on besides the function, or nothing if it has to run. -/
structure MuxOut where
  hs : Nat
  ls : Nat
  level : MuxSignal → Bool
  function : Int
  moutO : Bool
  menO : Bool
  waits : Option (List MuxSignal)

namespace MuxOut

def current (m : MuxOut) : MuxCase := transferCase m.hs m.ls (.ofInt m.function)

/-- One turn of `transfer`, from one wait to the next. -/
def transfer (m : MuxOut) : MuxOut :=
  { m with
    moutO := m.current.mout.value m.level
    menO := m.current.men.value m.level
    waits := some m.current.waits }

/-- The signals and the function become what they have been written to. -/
def update (level : MuxSignal → Bool) (function : Int) (m : MuxOut) : MuxOut :=
  { m with
    level := level
    function := function
    waits := m.waits.filter fun w => function == m.function && w.all fun s => level s == m.level s }

/-- Signals change, any number of them at once, or the thread takes its turn. -/
inductive Event where
  | update (level : MuxSignal → Bool) (function : Int)
  | transfer

def step (m : MuxOut) : Event → MuxOut
  | .update level function => m.update level function
  | .transfer => if m.waits = none then m.transfer else m

/-- After construction: `function` is `MUXOUT_DRIVE_Z`, and the outputs are low. -/
def init (hs ls : Nat) (level : MuxSignal → Bool) : MuxOut := ⟨hs, ls, level, muxoutDriveZ, false, false, none⟩

/-! ## §3 — the specification -/

/-- A LEDC line, if there is one with that number. -/
def ledcSource (size n : Nat) (line : MuxSignal) : MuxSource :=
  if n < size then ⟨.signal line, .const true⟩ else ⟨.const false, .const false⟩

/-- The source a function names. -/
def source (hs ls : Nat) : OutFunction → MuxSource
  | .spi wire => ⟨.signal (.out wire), .signal (.oen wire)⟩
  | .uart n => ⟨.signal (.uartTx n), .const true⟩
  | .ledcHs n => ledcSource hs n (.ledcHs n)
  | .ledcLs n => ledcSource ls n (.ledcLs n)
  | .sda n => ⟨.const false, .signal (.sdaEn n)⟩
  | .scl n => ⟨.const false, .signal (.sclEn n)⟩
  | .drive0 => ⟨.const false, .const true⟩
  | .drive1 => ⟨.const true, .const true⟩
  | .other => ⟨.const false, .const false⟩

/-- **The outputs follow the source** when the thread sleeps. -/
def Follows (m : MuxOut) : Prop :=
  m.waits.isSome = true →
    m.moutO = (source m.hs m.ls (.ofInt m.function)).level.value m.level ∧
      m.menO = (source m.hs m.ls (.ofInt m.function)).enable.value m.level

/-- While the thread sleeps at the second chip select of the VSPI, that line changes only together with
the first chip select or with its own enable, or with the function. -/
def Noticed (m : MuxOut) : Event → Prop
  | .update level function => m.waits.isSome = true → function = m.function →
      OutFunction.ofInt m.function = .spi .vspiCs1 → level (.out .vspiCs1) ≠ m.level (.out .vspiCs1) →
      level (.out .vspiCs0) ≠ m.level (.out .vspiCs0) ∨ level (.oen .vspiCs1) ≠ m.level (.oen .vspiCs1)
  | .transfer => True

instance (m : MuxOut) (e : Event) : Decidable (m.Noticed e) := by
  cases e <;> unfold Noticed <;> infer_instance

/-! ## §4 — the switch -/

theorem ledcCase_source (size n : Nat) (line : MuxSignal) :
    (⟨(ledcCase size n line).mout, (ledcCase size n line).men⟩ : MuxSource) = ledcSource size n line := by
  unfold ledcCase ledcSource
  by_cases h : n < size
  · rw [if_pos h, if_pos h]
  · rw [if_neg h, if_neg h]

/-- **What is copied** is the source. -/
theorem transferCase_source (hs ls : Nat) (f : OutFunction) :
    (⟨(transferCase hs ls f).mout, (transferCase hs ls f).men⟩ : MuxSource) = source hs ls f := by
  cases f with
  | spi wire => cases wire <;> rfl
  | ledcHs n => exact ledcCase_source hs n _
  | ledcLs n => exact ledcCase_source ls n _
  | _ => rfl

/-- A case that copies a signal waits for it. -/
def Covered (c : MuxCase) : Prop := ∀ s, c.mout = .signal s ∨ c.men = .signal s → s ∈ c.waits

theorem covered_fixed (v e : Bool) : Covered ⟨.const v, .const e, []⟩ := by
  rintro s (h | h) <;> exact nomatch h

theorem covered_line (s : MuxSignal) (e : Bool) : Covered ⟨.signal s, .const e, [s]⟩ := by
  rintro t (h | h)
  · exact List.mem_singleton.mpr (CopySource.signal.inj h).symm
  · exact nomatch h

theorem covered_pull (s : MuxSignal) (v : Bool) : Covered ⟨.const v, .signal s, [s]⟩ := by
  rintro t (h | h)
  · exact nomatch h
  · exact List.mem_singleton.mpr (CopySource.signal.inj h).symm

theorem covered_pair (o e : MuxSignal) : Covered ⟨.signal o, .signal e, [o, e]⟩ := by
  rintro t (h | h)
  · exact List.mem_cons.mpr (Or.inl (CopySource.signal.inj h).symm)
  · exact List.mem_cons_of_mem o (List.mem_singleton.mpr (CopySource.signal.inj h).symm)

theorem covered_ledc (size n : Nat) (line : MuxSignal) : Covered (ledcCase size n line) := by
  unfold ledcCase
  split
  · exact covered_line line true
  · exact covered_fixed false false

/-- **What is copied is waited for**, in every case but one. -/
theorem covered_transferCase (hs ls : Nat) {f : OutFunction} (h : f ≠ .spi .vspiCs1) :
    Covered (transferCase hs ls f) := by
  cases f with
  | spi wire =>
    cases wire with
    | vspiCs1 => exact absurd rfl h
    | _ => exact covered_pair _ _
  | uart n => exact covered_line _ true
  | ledcHs n => exact covered_ledc hs n _
  | ledcLs n => exact covered_ledc ls n _
  | sda n => exact covered_pull _ false
  | scl n => exact covered_pull _ false
  | drive0 => exact covered_fixed false true
  | drive1 => exact covered_fixed true true
  | other => exact covered_fixed false false

/-! ## §5 — the invariant -/

/-- When the thread sleeps, it waits for what its case says, and the outputs are copies. -/
def Copies (m : MuxOut) : Prop :=
  ∀ w, m.waits = some w → w = m.current.waits ∧ m.moutO = m.current.mout.value m.level ∧
    m.menO = m.current.men.value m.level

variable {m : MuxOut}

theorem follows_iff : m.Follows ↔ (m.waits.isSome = true → m.moutO = m.current.mout.value m.level ∧
    m.menO = m.current.men.value m.level) := by
  unfold Follows current
  rw [← transferCase_source]

theorem Copies.follows (h : m.Copies) : m.Follows := by
  rw [follows_iff]
  intro hasleep
  obtain ⟨w, hw⟩ := Option.isSome_iff_exists.mp hasleep
  exact (h w hw).2

theorem copies_transfer (m : MuxOut) : m.transfer.Copies := by
  rintro w hw
  exact ⟨(Option.some.inj hw).symm, rfl, rfl⟩

/-- A copy stays one while what it copies does. -/
theorem value_same {level level' : MuxSignal → Bool} {c : CopySource}
    (h : ∀ s, c = .signal s → level' s = level s) : c.value level' = c.value level := by
  cases c with
  | const v => rfl
  | signal s => exact h s rfl

/-- The thread sleeps on when neither the function nor anything it waits for has changed. -/
theorem update_asleep {level : MuxSignal → Bool} {function : Int} {w : List MuxSignal}
    (h : (m.update level function).waits = some w) :
    m.waits = some w ∧ function = m.function ∧ ∀ s ∈ w, level s = m.level s := by
  obtain ⟨hw, hsame⟩ := Option.filter_eq_some_iff.mp h
  rw [Bool.and_eq_true, beq_iff_eq, List.all_eq_true] at hsame
  exact ⟨hw, hsame.1, fun s hs => beq_iff_eq.mp (hsame.2 s hs)⟩

/-- **Signals change** and are noticed. -/
theorem Copies.update (h : m.Copies) {level : MuxSignal → Bool} {function : Int}
    (hok : m.Noticed (.update level function)) : (m.update level function).Copies := by
  intro w hw
  obtain ⟨hold, rfl, hsame⟩ := update_asleep hw
  obtain ⟨hwaits, hmout, hmen⟩ := h w hold
  have hcopied : ∀ s, m.current.mout = .signal s ∨ m.current.men = .signal s → level s = m.level s := by
    intro s hs
    by_cases hcs1 : OutFunction.ofInt m.function = .spi .vspiCs1
    · have hcase : m.current = ⟨.signal (.out .vspiCs1), .signal (.oen .vspiCs1),
          [.out .vspiCs0, .oen .vspiCs1]⟩ := congrArg (transferCase m.hs m.ls) hcs1
      rw [hcase] at hs hwaits
      have hcs0 : level (.out .vspiCs0) = m.level (.out .vspiCs0) :=
        hsame _ (by rw [hwaits]; exact List.mem_cons_self)
      have hoen : level (.oen .vspiCs1) = m.level (.oen .vspiCs1) :=
        hsame _ (by rw [hwaits]; exact List.mem_cons_of_mem _ List.mem_cons_self)
      rcases hs with hs | hs
      · obtain rfl := CopySource.signal.inj hs
        -- the case that does not wait for what it copies
        by_contra hne
        exact (hok (Option.isSome_of_eq_some hold) rfl hcs1 hne).elim (fun hno => hno hcs0)
          (fun hno => hno hoen)
      · obtain rfl := CopySource.signal.inj hs
        exact hoen
    · apply hsame
      rw [hwaits]
      exact covered_transferCase m.hs m.ls hcs1 s hs
  refine ⟨hwaits, hmout.trans ?_, hmen.trans ?_⟩
  · exact (value_same fun s hs => hcopied s (Or.inl hs)).symm
  · exact (value_same fun s hs => hcopied s (Or.inr hs)).symm

/-- **A change that is not noticed.** -/
theorem Copies.unnoticed (h : m.Copies) {level : MuxSignal → Bool} {function : Int}
    (hbad : ¬ m.Noticed (.update level function)) : ¬ (m.update level function).Follows := by
  unfold Noticed at hbad
  simp only [Classical.not_imp, not_or, not_not] at hbad
  obtain ⟨hasleep, rfl, hcs1, hne, hcs0, hoen⟩ := hbad
  obtain ⟨w, hw⟩ := Option.isSome_iff_exists.mp hasleep
  obtain ⟨hwaits, hmout, _⟩ := h w hw
  have hcase : m.current = ⟨.signal (.out .vspiCs1), .signal (.oen .vspiCs1),
      [.out .vspiCs0, .oen .vspiCs1]⟩ := congrArg (transferCase m.hs m.ls) hcs1
  have hcase' : (m.update level m.function).current = m.current := rfl
  rw [hcase] at hwaits hmout
  have hsleeps : (m.update level m.function).waits = some w := by
    refine Option.filter_eq_some_iff.mpr ⟨hw, ?_⟩
    rw [Bool.and_eq_true, beq_iff_eq, List.all_eq_true]
    refine ⟨rfl, fun s hs => beq_iff_eq.mpr ?_⟩
    rw [hwaits] at hs
    rcases List.mem_cons.mp hs with rfl | hs
    · exact hcs0
    · rw [List.mem_singleton.mp hs]
      exact hoen
  rw [follows_iff, hcase', hcase]
  intro hfollows
  exact hne ((hfollows (Option.isSome_of_eq_some hsleeps)).1.symm.trans hmout)

/-! ## §6 — runs -/

/-- **The output multiplexer.** From construction, with LEDC ports of any size, through any changes of
the function and of the signals, the outputs follow the source whenever the thread sleeps, exactly if
the second chip select of the VSPI never changes unnoticed. -/
theorem outputs_follow (hs ls : Nat) (level : MuxSignal → Bool) (es : List Event) :
    Always (fun _ => Follows) step [] (init hs ls level) es ↔ Throughout Noticed step (init hs ls level) es := by
  refine always_iff_of_invariant (P := fun _ => Follows) (I := fun _ => Copies) ?_ ?_ ?_ es [] _ ?_
  · intro _ m h
    exact h.follows
  · intro _ m e h hok
    cases e with
    | update level function => exact h.update hok
    | transfer =>
      show (if m.waits = none then m.transfer else m).Copies
      split
      · exact copies_transfer m
      · exact h
  · intro _ m e h hbad
    cases e with
    | update level function => exact h.unnoticed hbad
    | transfer => exact absurd trivial hbad
  · intro w hw
    exact nomatch hw

/-- The second chip select goes high, and the output stays low. -/
theorem chipSelect_unnoticed :
    ¬ Always (fun _ => Follows) step [] (init 8 8 fun _ => false)
      [.transfer, .update (fun _ => false) 69, .transfer,
        .update (fun s => decide (s = .out .vspiCs1)) 69] := by
  intro h
  have hlast := (h.last rfl).1
  revert hlast
  decide

end MuxOut

end Espmod.Gpio
