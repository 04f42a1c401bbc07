/-
# Espmod.Socket.Readline — `__espm_readline` with its count

The line of `espm_accept` and `espm_connect`, character by character. The text and the count `p` are
kept apart: the text starts as the caller's, the count as whatever is on the stack, since nothing sets
it. `run_scan` is what the loop does with a buffer that holds the end of the line; `readline_eq` says that
`readline`, the model of the calls, is its text, and `espmReadline_lineCount` that `lineCount` is its count.
-/
import Espmod.Lib.Lines
import Espmod.Socket.Recv

namespace Espmod.Socket

open Espmod.Lib Espmod.Lib.Text

/-! ## §1 — the loop -/

/-- `crseen`, `msg` and `p` of `__espm_readline`. -/
structure LineState where
  crseen : Bool
  msg : Bytes
  p : BitVec 32
  deriving DecidableEq, Repr

namespace LineState

/-- What is done with a character, `none` for the `break`. -/
def take (nchar : UInt8) (r : LineState) : Option LineState :=
  if nchar = chr '\n' ∧ r.crseen then none
  else
    let r := if r.crseen then ⟨false, r.msg ++ [chr '\r'], r.p + 1⟩ else r
    if nchar = chr '\r' then some { r with crseen := true }
    else some { r with msg := r.msg ++ [nchar], p := r.p + 1 }

/-- The characters of a buffer; with what the `break` leaves of it. -/
def run : Bytes → LineState → LineState × Option Bytes
  | [], r => (r, none)
  | c :: cs, r =>
    match r.take c with
    | none => (r, some cs)
    | some r => r.run cs

end LineState

/-- The loop of `__espm_readline`; `none` while it waits. -/
def readlineLoop (timeouttarg : Nat) (ws : List Wake) (r : LineState) (buffer : Bytes)
    (waited : Nat) : Option RecvResult :=
  match r.run buffer with
  | (r, some rest) => some ⟨r.p.toInt, none, r.msg, rest, waited⟩
  | (r, none) =>
    match ws with
    | [] => none
    | w :: ws =>
      if w.timesOut timeouttarg then some ⟨-1, some .ETIMEDOUT, r.msg, w.arrived, waited + 1⟩
      else readlineLoop timeouttarg ws r w.arrived (waited + 1)

/-- `__espm_readline`. `p` is what the variable holds before anything is assigned to it. -/
def espmReadline (fdlist : List Fd) (tmout starttime : Nat) (s : Int) (msg : Bytes)
    (usetimeout : Bool) (p : BitVec 32) (ws : List Wake) : Option RecvResult :=
  match getind fdlist s with
  | none => some ⟨-1, some .EBADF, msg, [], 0⟩
  | some ind =>
    readlineLoop (if usetimeout then timeouttarg tmout starttime else 0) ws ⟨false, msg, p⟩
      (fdlist.getD ind (Fd.new 0 0)).buffer 0

/-! ## §2 — a line in the buffer -/

theorem LineState.take_eq (nchar : UInt8) (r : LineState) : r.take nchar =
    (Lines.next (chr '\r') (chr '\n') r.crseen nchar).map fun t =>
      ⟨t.2, r.msg ++ t.1, r.p + BitVec.ofNat 32 t.1.length⟩ := by
  obtain ⟨crseen, msg, p⟩ := r
  have hadd : p + 1#32 + 1#32 = p + 2#32 := by rw [BitVec.add_assoc]; rfl
  unfold LineState.take Lines.next
  by_cases hend : nchar = chr '\n' ∧ crseen = true
  · rw [if_pos hend, if_pos hend]
    rfl
  · rw [if_neg hend, if_neg hend]
    cases crseen <;> by_cases hcr : nchar = chr '\r' <;> simp [hcr, hadd]

/-- **A line in the buffer** is taken as it stands, and counted. -/
theorem LineState.run_scan {bs : Bytes} : ∀ {r : LineState} {text rest : Bytes},
    Lines.scan (chr '\r') (chr '\n') r.crseen bs = some (text, rest) →
    r.run bs = (⟨true, r.msg ++ text, r.p + BitVec.ofNat 32 text.length⟩, some rest) := by
  induction bs with
  | nil => exact fun h => nomatch h
  | cons c cs ih =>
    intro r text rest h
    rw [run, take_eq]
    cases hn : Lines.next (chr '\r') (chr '\n') r.crseen c with
    | none =>
      rw [Lines.scan_end hn, Option.some.injEq, Prod.mk.injEq] at h
      obtain ⟨rfl, rfl⟩ := h
      have hseen : r.crseen = true := by
        unfold Lines.next at hn
        split at hn
        · next hend => exact hend.2
        · exact nomatch hn
      obtain ⟨crseen, msg, p⟩ := r
      cases hseen
      simp
    | some t =>
      rw [Lines.scan_next hn, Option.map_eq_some_iff] at h
      obtain ⟨⟨text', rest'⟩, hscan, heq⟩ := h
      rw [Prod.mk.injEq] at heq
      obtain ⟨rfl, rfl⟩ := heq
      show LineState.run cs ⟨t.2, r.msg ++ t.1, r.p + BitVec.ofNat 32 t.1.length⟩ = _
      rw [ih hscan, List.append_assoc, BitVec.add_assoc, ← BitVec.ofNat_add, List.length_append]

/-- The text of the line is that of `readline`. -/
theorem readline_eq (bs : Bytes) : ∀ r : LineState,
    Sockets.readline r.crseen r.msg bs = (r.run bs).2.map fun rest => ((r.run bs).1.msg, rest) := by
  induction bs with
  | nil => exact fun r => rfl
  | cons c cs ih =>
    intro r
    obtain ⟨crseen, msg, p⟩ := r
    rw [Sockets.readline, LineState.run, LineState.take]
    by_cases hend : c = chr '\n' ∧ crseen = true
    · rw [if_pos hend, if_pos hend]
      rfl
    · rw [if_neg hend, if_neg hend]
      by_cases hcr : c = chr '\r'
      · simp only [if_pos hcr, ← ih]
        cases crseen <;> rfl
      · simp only [if_neg hcr, ← ih]
        cases crseen <;> rfl

/-- The count grows with the text. -/
theorem LineState.run_counted (bs : Bytes) (p : BitVec 32) : ∀ r : LineState,
    r.p = p + BitVec.ofNat 32 r.msg.length →
      (r.run bs).1.p = p + BitVec.ofNat 32 (r.run bs).1.msg.length := by
  induction bs with
  | nil => exact fun r h => h
  | cons c cs ih =>
    intro r h
    rw [run, take_eq]
    cases Lines.next (chr '\r') (chr '\n') r.crseen c with
    | none => exact h
    | some t =>
      refine ih _ ?_
      show r.p + BitVec.ofNat 32 t.1.length = p + BitVec.ofNat 32 (r.msg ++ t.1).length
      rw [h, List.length_append, BitVec.ofNat_add, BitVec.add_assoc]

/-- **`__espm_readline` with a line in its buffer** does not wait. -/
theorem espmReadline_line {fdlist : List Fd} {s : Int} {ind : Nat} {f : Fd} {text rest : Bytes}
    (hind : getind fdlist s = some ind) (hf : fdlist[ind]? = some f)
    (hline : Lines.scan (chr '\r') (chr '\n') false f.buffer = some (text, rest))
    (tmout starttime : Nat) (msg : Bytes) (usetimeout : Bool) (p : BitVec 32) (ws : List Wake) :
    espmReadline fdlist tmout starttime s msg usetimeout p ws =
      some ⟨(p + BitVec.ofNat 32 text.length).toInt, none, msg ++ text, rest, 0⟩ := by
  have hrun : (⟨false, msg, p⟩ : LineState).run (fdlist.getD ind (Fd.new 0 0)).buffer =
      (⟨true, msg ++ text, p + BitVec.ofNat 32 text.length⟩, some rest) := by
    rw [List.getD_eq_getElem?_getD, hf, Option.getD_some]
    exact LineState.run_scan hline
  unfold espmReadline
  rw [hind]
  unfold readlineLoop
  dsimp only
  rw [hrun]

/-- The count that `espm_accept` looks at is what `__espm_readline` returns. -/
theorem espmReadline_lineCount {fdlist : List Fd} {s : Int} {ind : Nat} {f : Fd} {msg rest : Bytes}
    (hind : getind fdlist s = some ind) (hf : fdlist[ind]? = some f)
    (hline : Sockets.readline false [] f.buffer = some (msg, rest)) (tmout starttime : Nat) (p : BitVec 32)
    (ws : List Wake) :
    espmReadline fdlist tmout starttime s [] false p ws =
      some ⟨Sockets.lineCount p msg, none, msg, rest, 0⟩ := by
  have hcount := LineState.run_counted f.buffer p ⟨false, [], p⟩ (BitVec.add_zero p).symm
  rw [readline_eq f.buffer ⟨false, [], p⟩, Option.map_eq_some_iff] at hline
  obtain ⟨rest', hrest, heq⟩ := hline
  obtain ⟨hmsg, rfl⟩ := Prod.mk.inj heq
  rw [hmsg] at hcount
  have hrun : (⟨false, [], p⟩ : LineState).run (fdlist.getD ind (Fd.new 0 0)).buffer =
      (((⟨false, [], p⟩ : LineState).run f.buffer).1, some rest') := by
    rw [List.getD_eq_getElem?_getD, hf, Option.getD_some, ← hrest]
  unfold espmReadline
  rw [hind]
  unfold readlineLoop
  dsimp only
  rw [hrun]
  dsimp only
  rw [hmsg, hcount]
  rfl

end Espmod.Socket
