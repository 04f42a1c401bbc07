/-
# Espmod.Spi.Driver — byte transfers of the HAL

`spiTransferBytes` cuts a buffer into chunks of 64 bytes, packs each into the words of `data_buf`, the
first byte in the low end of the first word, starts a transfer that sends and receives as many bits,
and copies the words back. The model is of a driver with a device and an `out` buffer in place; a
chunk records for each clock cycle the level the module drives on `d_o` and the one it samples on
`q_i`.

A transfer need not end, so a chunk runs for as many cycles as it is given and has a result if they are
enough.
-/
import Espmod.Spi.Bounds

namespace Espmod.Spi

open Espmod.Lib
open Espmod.Pcnt (Field rdfield)

/-! ## §1 — the bus -/

def spiCsHold : Field := ⟨0x1, 4⟩
def spiDoutdin : Field := ⟨0x1, 0⟩

/-- A bit field of a register is assigned. -/
def wrfield (f : Field) (v reg : BitVec 32) : BitVec 32 :=
  (reg &&& ~~~(f.v <<< f.s)) ||| ((v &&& f.v) <<< f.s)

def spiLsbfirst : Nat := 0
def spiMsbfirst : Nat := 1

/-- `wordsBuf[i]`, which shares its memory with `bytesBuf`. -/
def wordOf (bytesBuf : List (BitVec 8)) (i : Nat) : BitVec 32 :=
  bytesBuf.getD (4 * i + 3) 0 ++ bytesBuf.getD (4 * i + 2) 0 ++ bytesBuf.getD (4 * i + 1) 0 ++
    bytesBuf.getD (4 * i) 0

/-- `bytesBuf[j]`, with the words of the data buffer in `wordsBuf`. -/
def byteAt (dataBuf : Int → BitVec 32) (j : Nat) : BitVec 8 :=
  (dataBuf (j / 4 : Nat)).extractLsb' (8 * (j % 4)) 8

namespace SpiMod

/-- `spiStopBus`. -/
def spiStopBus (s : SpiMod) : SpiMod := { s with user := 0, ctrl := 0, ctrl2 := 0 }

/-- The clock edge `spiSetDataMode` chooses. -/
def ckOutEdge : Nat → BitVec 32
  | 1 => 1
  | 2 => 1
  | 3 => 0
  | _ => 0

/-- `spiSetDataMode`. -/
def spiSetDataMode (dataMode : Nat) (s : SpiMod) : SpiMod :=
  { s with user := wrfield spiCkOutEdge (ckOutEdge dataMode) s.user }

/-- `spiSetBitOrder`. -/
def spiSetBitOrder (bitOrder : Nat) (s : SpiMod) : SpiMod :=
  if spiMsbfirst = bitOrder then
    { s with ctrl := wrfield spiRdBitOrder 0 (wrfield spiWrBitOrder 0 s.ctrl) }
  else if spiLsbfirst = bitOrder then
    { s with ctrl := wrfield spiRdBitOrder 1 (wrfield spiWrBitOrder 1 s.ctrl) }
  else s

/-- `spiStartBus`. -/
def spiStartBus (dataMode bitOrder : Nat) (s : SpiMod) : SpiMod :=
  let s := ((s.spiStopBus).spiSetDataMode dataMode).spiSetBitOrder bitOrder
  { s with
    user := wrfield spiDoutdin 1 (wrfield spiUsrMiso 1 (wrfield spiUsrMosi 1 s.user))
    dataBuf := fun i => if 0 ≤ i ∧ i < 16 then 0 else s.dataBuf i }

/-- A bus in the default little-endian byte order and without delay cycles. Both phases are on, in one
bit order, from the low half of the buffer, and the chip select has no hold time. -/
structure Ready (s : SpiMod) : Prop where
  mosiOn : s.MosiOn
  misoOn : s.MisoOn
  mosiLow : s.mosiHigh = false
  misoLow : s.misoHigh = false
  wrLittle : s.wrLittle = true
  rdLittle : s.rdLittle = true
  order : s.rdMsb = s.wrMsb
  mosiDelay : s.mosiDelay = 0
  misoDelay : s.misoDelay = 0
  csHold : rdfield s.user spiCsHold = 0

theorem spiSetBitOrder_cases (bitOrder : Nat) (s : SpiMod) :
    s.spiSetBitOrder bitOrder = s ∨
      s.spiSetBitOrder bitOrder = { s with
        ctrl := wrfield spiRdBitOrder 0 (wrfield spiWrBitOrder 0 s.ctrl) } ∨
      s.spiSetBitOrder bitOrder = { s with
        ctrl := wrfield spiRdBitOrder 1 (wrfield spiWrBitOrder 1 s.ctrl) } := by
  unfold spiSetBitOrder
  split
  · exact Or.inr (Or.inl rfl)
  · split
    · exact Or.inr (Or.inr rfl)
    · exact Or.inl rfl

/-- The registers that `spiStartBus` leaves: the edge at which data goes out is that of the data mode,
and the bit orders are both 0 or both 1. -/
theorem spiStartBus_registers (dataMode bitOrder : Nat) (s : SpiMod) :
    ((s.spiStartBus dataMode bitOrder).user = 0x18000001 ∨
      (s.spiStartBus dataMode bitOrder).user = 0x18000081) ∧
    ((s.spiStartBus dataMode bitOrder).ctrl = 0 ∨
      (s.spiStartBus dataMode bitOrder).ctrl = 0x06000000) ∧
    (s.spiStartBus dataMode bitOrder).ctrl2 = 0 := by
  have hedge : ckOutEdge dataMode = 0 ∨ ckOutEdge dataMode = 1 := by
    unfold ckOutEdge
    split <;> decide
  have huser : ∀ e : BitVec 32, e = 0 ∨ e = 1 →
      wrfield spiDoutdin 1 (wrfield spiUsrMiso 1 (wrfield spiUsrMosi 1
        (wrfield spiCkOutEdge e 0))) = 0x18000001 ∨
      wrfield spiDoutdin 1 (wrfield spiUsrMiso 1 (wrfield spiUsrMosi 1
        (wrfield spiCkOutEdge e 0))) = 0x18000081 := by
    rintro e (rfl | rfl) <;> decide
  have hmsb : wrfield spiRdBitOrder 0 (wrfield spiWrBitOrder 0 0) = 0 := by decide
  have hlsb : wrfield spiRdBitOrder 1 (wrfield spiWrBitOrder 1 0) = 0x06000000 := by decide
  unfold spiStartBus
  rcases spiSetBitOrder_cases bitOrder (s.spiStopBus.spiSetDataMode dataMode) with h | h | h <;> rw [h]
  · exact ⟨huser _ hedge, Or.inl rfl, rfl⟩
  · exact ⟨huser _ hedge, Or.inl hmsb, rfl⟩
  · exact ⟨huser _ hedge, Or.inr hlsb, rfl⟩

/-- **The driver leaves a ready bus**, in every data mode and bit order. -/
theorem spiStartBus_ready (dataMode bitOrder : Nat) (s : SpiMod) :
    (s.spiStartBus dataMode bitOrder).Ready := by
  obtain ⟨huser, hctrl, hctrl2⟩ := spiStartBus_registers dataMode bitOrder s
  have hmosi : ∀ u : BitVec 32, u = 0x18000001 ∨ u = 0x18000081 →
      rdfield u spiUsrMosi ≠ 0 ∧ rdfield u spiUsrMiso ≠ 0 ∧
      decide (rdfield u spiUsrMosiHighpart = 1) = false ∧
      decide (rdfield u spiUsrMisoHighpart = 1) = false ∧
      decide (rdfield u spiWrByteOrder = 0) = true ∧
      decide (rdfield u spiRdByteOrder = 0) = true ∧ rdfield u spiCsHold = 0 := by
    rintro u (rfl | rfl) <;> decide
  have horder : ∀ c : BitVec 32, c = 0 ∨ c = 0x06000000 →
      decide (rdfield c spiRdBitOrder = 0) = decide (rdfield c spiWrBitOrder = 0) := by
    rintro c (rfl | rfl) <;> decide
  obtain ⟨h1, h2, h3, h4, h5, h6, h7⟩ := hmosi _ huser
  exact ⟨h1, h2, h3, h4, h5, h6, horder _ hctrl, by rw [SpiMod.mosiDelay, hctrl2]; rfl,
    by rw [SpiMod.misoDelay, hctrl2]; rfl, h7⟩

/-! ## §2 — a chunk -/

/-- What a chunk, or several, did: the state after it, the levels of `d_o` and `q_i` in each clock
cycle, and the bytes copied to `out`. -/
structure Transfer where
  state : SpiMod
  beats : List (Bool × Bool)
  out : List (BitVec 8)

/-- The loop of `transfer_th` until `usr` is lowered. -/
def runTransfer (q : Wiring) : Nat → SpiMod → Option (SpiMod × List (Bool × Bool))
  | 0, _ => none
  | fuel + 1, s =>
    let beat := ((s.cycle q).dO.next, (s.cycle q).bitreceived)
    if (s.cycle q).usr then (runTransfer q fuel (s.cycle q)).map fun r => (r.1, beat :: r.2)
    else some (s.cycle q, [beat])

/-- The registers and the data buffer before a chunk. -/
def load (bytesBuf : List (BitVec 8)) (bytes : Nat) (s : SpiMod) : SpiMod :=
  { s with
    mosiDlen := BitVec.ofNat 32 (bytes * 8 - 1)
    misoDlen := BitVec.ofNat 32 (bytes * 8 - 1)
    dataBuf := fun i =>
      if 0 ≤ i ∧ i < ((bytes + 3) / 4 : Nat) then wordOf bytesBuf i.toNat else s.dataBuf i }

theorem load_dataBuf (bytesBuf : List (BitVec 8)) (bytes : Nat) (s : SpiMod) (i : Int) :
    (s.load bytesBuf bytes).dataBuf i =
      if 0 ≤ i ∧ i < ((bytes + 3) / 4 : Nat) then wordOf bytesBuf i.toNat else s.dataBuf i := rfl

/-- `__spiTransferBytes`. -/
def transferBytes (q : Wiring) (fuel : Nat) (data : Option (List (BitVec 8))) (bytes : Nat)
    (s : SpiMod) : Option Transfer :=
  let bytes := if bytes > 64 then 64 else bytes
  let bytesBuf := match data with
    | some data => data.take bytes
    | none => List.replicate bytes 0xFF
  (runTransfer q fuel (s.load bytesBuf bytes).start).map fun r =>
    ⟨r.1, r.2, (List.range bytes).map (byteAt r.1.dataBuf)⟩

/-- `spiTransferBytes`. -/
def spiTransferBytes (q : Wiring) (fuel : Nat) (data : Option (List (BitVec 8))) (size : Nat)
    (s : SpiMod) : Option Transfer :=
  if size = 0 then some ⟨s, [], []⟩
  else if size > 64 then
    (transferBytes q fuel data 64 s).bind fun r =>
      (spiTransferBytes q fuel (data.map (List.drop 64)) (size - 64) r.state).map fun r' =>
        ⟨r'.state, r.beats ++ r'.beats, r.out ++ r'.out⟩
  else transferBytes q fuel data size s
termination_by size

/-! ## §3 — runs of the transfer thread -/

variable {q : Wiring}

/-- A run that ends does so with the first cycle that lowers `usr`, and records every cycle. -/
theorem runTransfer_spec : ∀ {fuel : Nat} {s s' : SpiMod} {beats : List (Bool × Bool)},
    runTransfer q fuel s = some (s', beats) →
      s' = (cycle q)^[beats.length] s ∧ 0 < beats.length ∧ s'.usr = false ∧
      (∀ i, 0 < i → i < beats.length → ((cycle q)^[i] s).usr = true) ∧
      ∀ i (h : i < beats.length), beats[i] =
        (((cycle q)^[i + 1] s).dO.next, ((cycle q)^[i + 1] s).bitreceived) := by
  intro fuel
  induction fuel with
  | zero => intro s s' beats h; exact absurd h (by simp [runTransfer])
  | succ fuel ih =>
    intro s s' beats h
    unfold runTransfer at h
    by_cases husr : (s.cycle q).usr = true
    · -- the first cycle is recorded, and the rest is a run from the state after it
      rw [if_pos husr] at h
      obtain ⟨⟨t, rest⟩, hrun, hr⟩ := Option.map_eq_some_iff.mp h
      obtain ⟨rfl, rfl⟩ := Prod.mk.inj hr
      obtain ⟨hlast, hpos, hlow, hhigh, hbeats⟩ := ih hrun
      refine ⟨hlast, Nat.succ_pos _, hlow, fun i hi hlt => ?_, fun i hi => ?_⟩
      · cases i with
        | zero => omega
        | succ i =>
          cases i with
          | zero => exact husr
          | succ i => exact hhigh (i + 1) (Nat.succ_pos i) (by simpa using hlt)
      · cases i with
        | zero => rfl
        | succ i => exact hbeats i (by simpa using hi)
    · rw [if_neg husr] at h
      obtain ⟨rfl, rfl⟩ := Prod.mk.inj (Option.some.inj h)
      refine ⟨rfl, Nat.one_pos, Bool.eq_false_iff.mpr husr, fun i hi hlt => ?_, fun i hi => ?_⟩
      · exact absurd hlt (by simp; omega)
      · obtain rfl : i = 0 := by simpa using hi
        rfl

/-- Enough cycles give a result. -/
theorem runTransfer_ends : ∀ {n fuel : Nat} {s : SpiMod}, 0 < n → n ≤ fuel →
    ((cycle q)^[n] s).usr = false → (runTransfer q fuel s).isSome := by
  intro n
  induction n with
  | zero => intro fuel s h; omega
  | succ n ih =>
    intro fuel s _ hfuel hlow
    obtain ⟨fuel, rfl⟩ : ∃ k, fuel = k + 1 := ⟨fuel - 1, by omega⟩
    unfold runTransfer
    split
    next husr =>
      rw [Option.isSome_map]
      refine ih ?_ (by omega) hlow
      cases n with
      | zero => exact absurd (husr.symm.trans hlow) (by simp)
      | succ n => exact Nat.succ_pos n
    next => rfl

/-! ## §4 — what a transfer leaves alone -/

/-- The registers of `t` that a driver sets for good are those of `s`. -/
structure Keeps (s t : SpiMod) : Prop where
  user : t.user = s.user
  ctrl : t.ctrl = s.ctrl
  ctrl2 : t.ctrl2 = s.ctrl2

theorem Keeps.trans {s t u : SpiMod} (h : Keeps s t) (k : Keeps t u) : Keeps s u :=
  ⟨k.user.trans h.user, k.ctrl.trans h.ctrl, k.ctrl2.trans h.ctrl2⟩

theorem Keeps.ready {s t : SpiMod} (k : Keeps s t) (h : s.Ready) : t.Ready := by
  constructor
  · rw [MosiOn, k.user]; exact h.mosiOn
  · rw [MisoOn, k.user]; exact h.misoOn
  · rw [mosiHigh, k.user]; exact h.mosiLow
  · rw [misoHigh, k.user]; exact h.misoLow
  · rw [SpiMod.wrLittle, k.user]; exact h.wrLittle
  · rw [SpiMod.rdLittle, k.user]; exact h.rdLittle
  · rw [rdMsb, wrMsb, k.ctrl]; exact h.order
  · rw [SpiMod.mosiDelay, k.ctrl2]; exact h.mosiDelay
  · rw [SpiMod.misoDelay, k.ctrl2]; exact h.misoDelay
  · rw [k.user]; exact h.csHold

/-- The point of a cycle at which a bit is driven. -/
def mosiPoint (s : SpiMod) : Nat := s.getdly (rdfield s.ctrl2 spiMosiDelayMode)

/-- The point of a cycle at which a bit is sampled. -/
def misoPoint (s : SpiMod) : Nat := s.getdly (rdfield s.ctrl2 spiMisoDelayMode)

theorem Keeps.points {s t : SpiMod} (k : Keeps s t) :
    t.wrMsb = s.wrMsb ∧ t.mosiPoint = s.mosiPoint ∧ t.misoPoint = s.misoPoint := by
  unfold wrMsb mosiPoint misoPoint getdly
  rw [k.user, k.ctrl, k.ctrl2]
  exact ⟨rfl, rfl, rfl⟩

theorem getdly_le (mode : Nat) (s : SpiMod) : s.getdly mode ≤ 2 := by
  unfold getdly
  dsimp only
  split
  · decide
  · split
    · decide
    · split <;> decide

variable (q) (s : SpiMod)

theorem keeps_start :
    Keeps s s.start ∧ s.start.dlywr = s.mosiPoint ∧ s.start.dlyrd = s.misoPoint := by
  obtain ⟨_, _, _, _, _, hwr⟩ := setupwr_cases s.setupdelays
  obtain ⟨_, _, _, _, hrd⟩ := setuprd_cases s.setupdelays.setupwr
  unfold start setupmaster
  rw [hrd, hwr]
  exact ⟨⟨rfl, rfl, rfl⟩, rfl, rfl⟩

theorem keeps_after (i : Nat) :
    Keeps s (s.after q i) ∧ (s.after q i).dlywr = s.mosiPoint ∧
      (s.after q i).dlyrd = s.misoPoint := by
  induction i with
  | zero => exact keeps_start s
  | succ i ih =>
    obtain ⟨dO, hcycle⟩ := cycle_cases q (s.after q i)
    rw [after_succ, hcycle]
    exact ⟨⟨ih.1.user, ih.1.ctrl, ih.1.ctrl2⟩, ih.2⟩

end SpiMod

end Espmod.Spi
