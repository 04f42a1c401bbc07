/-
# Espmod.I2c.Master — the symbols of the I2C master

`transfer_th` takes one symbol after the other from `to`. `S` and `P` are taken in any state; what the
others do depends on how far the transfer is. A branch writes the two enables, which pull a line low,
with waits in between; `Z` gives the other side a clock, looks at the data line and answers in `from`.
After a refused address or byte the thread is idle, and takes every symbol up to the next `S` without
doing anything.
-/
import Mathlib.Tactic.Common

namespace Espmod.I2c

/-! ## §1 — the branches -/

/-- The `state` of the thread. -/
inductive State where
  | idle
  | devid
  | reading
  | writing
deriving Repr, DecidableEq

/-- What a branch does between two reads of `to`. -/
inductive Act where
  | sdaEn (b : Bool)
  | sclEn (b : Bool)
  | wait (ns : Nat)
  /-- the look at `sda_i`, with what depends on it -/
  | sample
  | rwbit (b : Bool)
  | goto (s : State)
deriving Repr, DecidableEq

open Act

/-- A bit, sent with its clock: the data line is released for a one. -/
def sendBit (b : Bool) : List Act :=
  [wait 625, sdaEn (!b), wait 625, sclEn false, wait 1250, sclEn true]

/-- A clock for the other side's bit. -/
def clockIn : List Act := [sdaEn false, wait 1250, sclEn false, sample, wait 1250, sclEn true]

/-- The branch of `transfer_th` that a symbol takes. -/
def transfer (state : State) (p : Char) : List Act :=
  if p = 'S' then
    [sdaEn false, sclEn false, wait 625, sdaEn true, wait 625, sclEn true, wait 1250, goto .devid]
  else if p = 'P' then
    [wait 625, sdaEn true, wait 625, sclEn false, wait 625, sdaEn false, wait 1250, goto .idle]
  else
    match state with
    | .devid | .writing =>
      if p = '1' then sendBit true ++ [rwbit true]
      else if p = '0' then sendBit false ++ [rwbit false]
      else if p = 'Z' then clockIn
      else [wait 2500]
    | .reading =>
      if p = 'N' then sendBit true ++ [goto .idle]
      else if p = 'A' then sendBit false
      else if p = 'Z' then clockIn
      else [wait 2500]
    | .idle => []

/-! ## §2 — the thread -/

/-- The local variables and the outputs of the master, with all it has written to `from`. -/
structure Master where
  state : State
  rwbit : Bool
  sdaEn : Bool
  sclEn : Bool
  fromFifo : List Char
deriving Repr, DecidableEq

namespace Master

/-- What `Z` does with the level of the data line: in a read it is a bit, otherwise an answer. -/
def look (sda : Bool) (m : Master) : Master :=
  match m.state with
  | .reading => { m with fromFifo := m.fromFifo ++ [if sda then '1' else '0'] }
  | _ =>
    if sda then { m with fromFifo := m.fromFifo ++ ['N'], state := .idle }
    else
      { m with
        fromFifo := m.fromFifo ++ ['A']
        state := if m.state = .devid ∧ !m.rwbit ∨ m.state = .writing then .writing else .reading }

/-- One act. -/
def act (sda : Bool) (m : Master) : Act → Master
  | .sdaEn b => { m with sdaEn := b }
  | .sclEn b => { m with sclEn := b }
  | .wait _ => m
  | .sample => m.look sda
  | .rwbit b => { m with rwbit := b }
  | .goto s => { m with state := s }

/-- A whole branch, with the level it finds if it looks at the data line. -/
def symbol (sda : Bool) (m : Master) (p : Char) : Master := (transfer m.state p).foldl (act sda) m

/-! ## §3 — what a symbol does -/

variable {m : Master} (sda : Bool)

theorem symbol_start : (m.symbol sda 'S').state = .devid ∧ (m.symbol sda 'S').fromFifo = m.fromFifo :=
  ⟨rfl, rfl⟩

theorem symbol_stop : (m.symbol sda 'P').state = .idle ∧ (m.symbol sda 'P').fromFifo = m.fromFifo :=
  ⟨rfl, rfl⟩

/-- A bit is sent and remembered as the direction. -/
theorem symbol_bit (h : m.state = .devid ∨ m.state = .writing) (b : Bool) :
    (m.symbol sda (if b then '1' else '0')).state = m.state ∧
      (m.symbol sda (if b then '1' else '0')).rwbit = b ∧
      (m.symbol sda (if b then '1' else '0')).fromFifo = m.fromFifo := by
  unfold symbol
  rcases h with h | h <;> rw [h] <;> cases b <;> exact ⟨h, rfl, rfl⟩

/-- The answer to an address of a write or to a byte of one. -/
theorem symbol_ask (h : m.state = .devid ∧ m.rwbit = false ∨ m.state = .writing) :
    (m.symbol sda 'Z').state = (if sda then .idle else .writing) ∧
      (m.symbol sda 'Z').fromFifo = m.fromFifo ++ [if sda then 'N' else 'A'] := by
  unfold symbol
  rcases h with ⟨h, hrw⟩ | h
  · cases sda <;> simp [h, hrw, transfer, clockIn, act, look]
  · cases sda <;> simp [h, transfer, clockIn, act, look]

/-- An idle master takes symbols and does nothing. -/
theorem symbol_idle (h : m.state = .idle) {p : Char} (hS : p ≠ 'S') (hP : p ≠ 'P') :
    m.symbol sda p = m := by
  unfold symbol transfer
  rw [if_neg hS, if_neg hP, h]
  rfl

/-- The answer to an address of a read. -/
theorem symbol_ask_read (h : m.state = .devid) (hrw : m.rwbit = true) :
    (m.symbol sda 'Z').state = (if sda then .idle else .reading) ∧
      (m.symbol sda 'Z').fromFifo = m.fromFifo ++ [if sda then 'N' else 'A'] := by
  unfold symbol
  cases sda <;> simp [h, hrw, transfer, clockIn, act, look]

/-- A clock for a bit of a read. -/
theorem symbol_clock (h : m.state = .reading) :
    (m.symbol sda 'Z').state = .reading ∧
      (m.symbol sda 'Z').fromFifo = m.fromFifo ++ [if sda then '1' else '0'] := by
  unfold symbol
  rw [h]
  exact ⟨by simp [transfer, clockIn, act, look, h], by simp [transfer, clockIn, act, look, h]⟩

/-- The acknowledgement of a byte that was read. -/
theorem symbol_acknowledge (h : m.state = .reading) : (m.symbol sda 'A').state = .reading := by
  unfold symbol
  rw [h]
  exact h

/-- Only the branch of a `Z` looks at the data line. -/
theorem sample_notMem (state : State) {p : Char} (h : p ≠ 'Z') : Act.sample ∉ transfer state p := by
  unfold transfer
  cases state <;> dsimp only <;> split_ifs <;> decide

/-- Only `Z` has an answer. -/
theorem fromFifo_symbol (m : Master) (sda : Bool) {p : Char} (h : p ≠ 'Z') :
    (m.symbol sda p).fromFifo = m.fromFifo := by
  have hkeep : ∀ m' : Master, m'.fromFifo = m.fromFifo → ∀ a ∈ transfer m.state p,
      (m'.act sda a).fromFifo = m.fromFifo := by
    intro m' hm a ha
    cases a with
    | sample => exact absurd ha (sample_notMem m.state h)
    | _ => exact hm
  exact List.foldlRecOn (transfer m.state p) (Master.act sda) (motive := fun m' => m'.fromFifo = m.fromFifo)
    rfl hkeep

end Master

end Espmod.I2c
