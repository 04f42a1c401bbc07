/-
# Espmod.Spi.Module — the SPI master's transfer thread

`transfer_th` walks two cursors through the data buffer, one for the bits it sends and one for the
bits it receives. A cursor is a bit position, kept in an `int`, or -1 when its phase is over;
`setupmaster` places the cursors and computes the last positions, and `calcnextbit` moves on from one
position to the next in the bit and byte order of the phase. The thread looks at the lines at three
points of each clock cycle: when the cycle begins, at the half and at the end. Between the end of a
cycle and the beginning of the next it does not wait, so what it writes to `d_o` at the one is not
yet there at the other.

Clock cycles are counted, their length is not modelled; nor are the chip selects, a reset during a
transfer and slave mode, which `setupslave` refuses.
-/
import Espmod.Lib.Signal
import Espmod.Pcnt.Unit
import Espmod.Spi.Cursor

namespace Espmod.Spi

open Espmod.Lib
open Espmod.Pcnt (Field rdfield)

/-! ## §1 — registers -/

def spiWrBitOrder : Field := ⟨0x1, 26⟩
def spiRdBitOrder : Field := ⟨0x1, 25⟩
def spiMosiDelayNum : Field := ⟨0x7, 23⟩
def spiMosiDelayMode : Field := ⟨0x3, 21⟩
def spiMisoDelayNum : Field := ⟨0x7, 18⟩
def spiMisoDelayMode : Field := ⟨0x3, 16⟩
def spiUsrMiso : Field := ⟨0x1, 28⟩
def spiUsrMosi : Field := ⟨0x1, 27⟩
def spiUsrMosiHighpart : Field := ⟨0x1, 25⟩
def spiUsrMisoHighpart : Field := ⟨0x1, 24⟩
def spiWrByteOrder : Field := ⟨0x1, 11⟩
def spiRdByteOrder : Field := ⟨0x1, 10⟩
def spiCkOutEdge : Field := ⟨0x1, 7⟩
def spiCkIEdge : Field := ⟨0x1, 6⟩

/-! ## §2 — the data buffer -/

/-- `bit >> 5`, an index of `data_buf`. -/
def indexOf (bit : BitVec 32) : Int := (bit.sshiftRight 5).toInt

/-- `1 << (bit & 0x1f)`. -/
def maskOf (bit : BitVec 32) : BitVec 32 := 1 <<< (bit &&& 0x1f).toNat

/-- The data buffer with the bit at a position set or cleared. -/
def put (dataBuf : Int → BitVec 32) (bit : BitVec 32) (b : Bool) (i : Int) : BitVec 32 :=
  if i = indexOf bit then
    if b then dataBuf i ||| maskOf bit else dataBuf i &&& ~~~maskOf bit
  else dataBuf i

/-- A bit of the data buffer. -/
def bitAt (dataBuf : Int → BitVec 32) (p : Nat) : Bool := (dataBuf (p / 32 : Nat)).getLsbD (p % 32)

theorem indexOf_ofNat {p : Nat} (h : p < 2 ^ 31) : indexOf (BitVec.ofNat 32 p) = (p / 32 : Nat) := by
  have hnat : (BitVec.ofNat 32 p).toNat = p := by
    rw [BitVec.toNat_ofNat]
    omega
  unfold indexOf
  rw [BitVec.toInt_sshiftRight, BitVec.toInt_eq_toNat_of_lt (by omega), hnat,
    Int.shiftRight_eq_div_pow]
  rfl

theorem maskOf_ofNat (p : Nat) : maskOf (BitVec.ofNat 32 p) = BitVec.twoPow 32 (p % 32) := by
  have hlow : (BitVec.ofNat 32 p &&& 0x1f).toNat = p % 32 := by
    rw [BitVec.toNat_and, show (0x1f : BitVec 32).toNat = 2 ^ 5 - 1 from rfl,
      Nat.and_two_pow_sub_one_eq_mod, BitVec.toNat_ofNat]
    omega
  unfold maskOf
  rw [hlow, BitVec.twoPow_eq]
  rfl

/-- The test of a bit of the buffer. -/
theorem and_maskOf {p : Nat} (h : p < 2 ^ 31) (dataBuf : Int → BitVec 32) :
    (dataBuf (indexOf (BitVec.ofNat 32 p)) &&& maskOf (BitVec.ofNat 32 p) != 0) =
      bitAt dataBuf p := by
  have hbit : BitVec.twoPow 32 (p % 32) ≠ 0 := by
    intro hzero
    have hnat := congrArg (BitVec.getLsbD · (p % 32)) hzero
    simp [Nat.mod_lt] at hnat
  rw [indexOf_ofNat h, maskOf_ofNat, BitVec.and_twoPow]
  unfold bitAt
  cases hb : (dataBuf (p / 32 : Nat)).getLsbD (p % 32)
  · rfl
  · simpa using hbit

/-- A bit of the buffer is set or cleared, and the others are not. -/
theorem bitAt_put {p : Nat} (h : p < 2 ^ 31) (dataBuf : Int → BitVec 32) (b : Bool) (p' : Nat) :
    bitAt (put dataBuf (BitVec.ofNat 32 p) b) p' = if p' = p then b else bitAt dataBuf p' := by
  have hlt : p' % 32 < 32 := Nat.mod_lt _ (by omega)
  unfold bitAt put
  rw [indexOf_ofNat h, maskOf_ofNat]
  by_cases hword : ((p' / 32 : Nat) : Int) = (p / 32 : Nat)
  · have hmask : (BitVec.twoPow 32 (p % 32)).getLsbD (p' % 32) = decide (p' = p) := by
      rw [BitVec.getLsbD_twoPow, decide_eq_true (Nat.mod_lt p (by omega)), Bool.true_and]
      exact decide_eq_decide.mpr (by omega)
    rw [if_pos hword]
    cases b with
    | true =>
      rw [if_pos rfl, BitVec.getLsbD_or, hmask]
      by_cases hsame : p' = p
      · rw [if_pos hsame, decide_eq_true hsame, Bool.or_true]
      · rw [if_neg hsame, decide_eq_false hsame, Bool.or_false]
    | false =>
      rw [if_neg Bool.false_ne_true, BitVec.getLsbD_and, BitVec.getLsbD_not, hmask,
        decide_eq_true hlt, Bool.true_and]
      by_cases hsame : p' = p
      · rw [if_pos hsame, decide_eq_true hsame, Bool.not_true, Bool.and_false]
      · rw [if_neg hsame, decide_eq_false hsame, Bool.not_false, Bool.and_true]
  · rw [if_neg hword, if_neg (by rintro rfl; exact hword rfl)]

/-! ## §3 — the module -/

/-- The level of `q_i` at a point of a clock cycle, which what is connected there may make depend on
the level of `d_o`. -/
def Wiring := Nat → Nat → Bool → Bool

/-- `q_i` is tied to `d_o`. -/
def loopback : Wiring := fun _ _ level => level

/-- `spimod` in master mode with the registers its transfers read. `dataBuf` is the memory around
`data_buf`; the array itself has the indices 0 to 15. -/
structure SpiMod where
  user : BitVec 32
  ctrl : BitVec 32
  ctrl2 : BitVec 32
  mosiDlen : BitVec 32
  misoDlen : BitVec 32
  dataBuf : Int → BitVec 32
  usr : Bool
  dlywr : Nat
  dlyrd : Nat
  precycwr : Nat
  precycrd : Nat
  startbit : BitVec 32
  startbitrd : BitVec 32
  lastbit : BitVec 32
  lastbitrd : BitVec 32
  wrlittleendian : Bool
  rdlittleendian : Bool
  wrmsbfirst : Bool
  rdmsbfirst : Bool
  bit : BitVec 32
  bitrd : BitVec 32
  bitreceived : Bool
  dO : Signal Bool
  /-- the clock cycles so far -/
  now : Nat

namespace SpiMod

/-- The module at the start of simulation. The positions have no initial value in the source; zero
stands for it. -/
def new : SpiMod where
  user := 0
  ctrl := 0
  ctrl2 := 0
  mosiDlen := 0
  misoDlen := 0
  dataBuf := fun _ => 0
  usr := false
  dlywr := 0
  dlyrd := 0
  precycwr := 0
  precycrd := 0
  startbit := 0
  startbitrd := 0
  lastbit := 0
  lastbitrd := 0
  wrlittleendian := false
  rdlittleendian := false
  wrmsbfirst := false
  rdmsbfirst := false
  bit := -1
  bitrd := -1
  bitreceived := false
  dO := .init false
  now := 0

/-! ## §4 — the start of a transfer -/

def wrLittle (s : SpiMod) : Bool := rdfield s.user spiWrByteOrder = 0
def rdLittle (s : SpiMod) : Bool := rdfield s.user spiRdByteOrder = 0
def wrMsb (s : SpiMod) : Bool := rdfield s.ctrl spiWrBitOrder = 0
def rdMsb (s : SpiMod) : Bool := rdfield s.ctrl spiRdBitOrder = 0

/-- The position of the first word to send, before the bit and byte order. -/
def mosiFirst (s : SpiMod) : BitVec 32 := 32 * if rdfield s.user spiUsrMosiHighpart = 1 then 8 else 0

/-- The position of the first word to receive into. -/
def misoFirst (s : SpiMod) : BitVec 32 := 32 * if rdfield s.user spiUsrMisoHighpart = 1 then 8 else 0

/-- `getdly`. -/
def getdly (mode : Nat) (s : SpiMod) : Nat :=
  let ckOutOrIOut : Bool := rdfield s.user spiCkOutEdge = 0 ∨ rdfield s.user spiCkIEdge = 0
  if mode = 0 then 0
  else if mode = 1 ∧ ckOutOrIOut then 1
  else if mode = 2 ∧ ¬ ckOutOrIOut then 1
  else 2

/-- The delays of `setupmaster`. -/
def setupdelays (s : SpiMod) : SpiMod :=
  { s with
    dlywr := s.getdly (rdfield s.ctrl2 spiMosiDelayMode)
    dlyrd := s.getdly (rdfield s.ctrl2 spiMisoDelayMode)
    precycwr := rdfield s.ctrl2 spiMosiDelayNum
    precycrd := rdfield s.ctrl2 spiMisoDelayNum }

/-- What `setupmaster` does about the bits to send. With the phase off it sets `lastbitrd`, and
`lastbit` keeps the value of an earlier command. -/
def setupwr (s : SpiMod) : SpiMod :=
  if rdfield s.user spiUsrMosi = 0 then { s with startbit := -1, lastbitrd := -1 }
  else
    { s with
      wrlittleendian := s.wrLittle
      wrmsbfirst := s.wrMsb
      lastbit := converttoendian s.wrLittle s.wrMsb (s.mosiFirst + s.mosiDlen)
      startbit := converttoendian s.wrLittle s.wrMsb s.mosiFirst }

/-- What `setupmaster` does about the bits to receive. -/
def setuprd (s : SpiMod) : SpiMod :=
  if rdfield s.user spiUsrMiso = 0 then { s with startbitrd := -1, lastbitrd := -1 }
  else
    { s with
      rdlittleendian := s.rdLittle
      rdmsbfirst := s.rdMsb
      lastbitrd := converttoendian s.rdLittle s.rdMsb (s.misoFirst + s.misoDlen)
      startbitrd := converttoendian s.rdLittle s.rdMsb s.misoFirst }

/-- `setupmaster`. -/
def setupmaster (s : SpiMod) : SpiMod := s.setupdelays.setupwr.setuprd

/-- The transfer thread sees `start_ev`: `cmd.usr` is set and the cursors are placed. It has waited, so
that `d_o` has its level. -/
def start (s : SpiMod) : SpiMod :=
  { s.setupmaster with
    usr := true
    bit := s.setupmaster.startbit
    bitrd := s.setupmaster.startbitrd
    dO := s.dO.update }

/-! ## §5 — one clock cycle -/

/-- `bittosend`. -/
def bittosend (s : SpiMod) : Bool :=
  if s.precycwr > 0 ∨ s.bit = -1 then false else s.dataBuf (indexOf s.bit) &&& maskOf s.bit != 0

/-- The thread at one of the three points of a cycle. -/
def point (q : Wiring) (p : Nat) (bittosend : Bool) (s : SpiMod) : SpiMod :=
  { s with
    dO := if s.dlywr = p then s.dO.write bittosend else s.dO
    bitreceived := if s.dlyrd = p then q s.now p s.dO.cur else s.bitreceived }

/-- The thread waits. -/
def elapse (s : SpiMod) : SpiMod := { s with dO := s.dO.update }

/-- The received bit goes to the data buffer. -/
def store (s : SpiMod) : SpiMod :=
  if s.bitrd ≠ -1 ∧ s.precycrd = 0 then
    { s with dataBuf := put s.dataBuf s.bitrd s.bitreceived }
  else s

/-- The cursors and the delay counters move on; when both phases are over, `update_th` lowers the
`usr` bit. -/
def moveon (s : SpiMod) : SpiMod :=
  let bit := advance s.lastbit s.wrlittleendian s.wrmsbfirst s.bit
  let bitrd := advance s.lastbitrd s.rdlittleendian s.rdmsbfirst s.bitrd
  { s with
    bit := bit
    bitrd := bitrd
    usr := if bit = -1 ∧ bitrd = -1 then false else s.usr
    precycwr := s.precycwr - 1
    precycrd := s.precycrd - 1
    now := s.now + 1 }

/-- One turn of the loop of `transfer_th`. -/
def cycle (q : Wiring) (s : SpiMod) : SpiMod :=
  let b := s.bittosend
  ((((((s.point q 0 b).elapse).point q 1 b).elapse).point q 2 b).store).moveon

/-- The transfer of `s` after `i` cycles. -/
def after (q : Wiring) (s : SpiMod) (i : Nat) : SpiMod := (cycle q)^[i] s.start

/-! ## §6 — what one cycle does -/

variable (q : Wiring) (s : SpiMod)

/-- The thread at the end of a cycle, before it stores what it has received. -/
def sampled : SpiMod :=
  let b := s.bittosend
  (((s.point q 0 b).elapse).point q 1 b).elapse.point q 2 b

theorem cycle_eq : s.cycle q = (s.sampled q).store.moveon := rfl

/-- `t` differs from `s` in `d_o` and `bitreceived` at most. -/
def OnLines (s t : SpiMod) : Prop := ∃ dO r, t = { s with dO := dO, bitreceived := r }

theorem OnLines.trans {s t u : SpiMod} (h : OnLines s t) (k : OnLines t u) : OnLines s u := by
  obtain ⟨_, _, rfl⟩ := h
  obtain ⟨dO, r, rfl⟩ := k
  exact ⟨dO, r, rfl⟩

theorem onLines_point (p : Nat) (b : Bool) : OnLines s (s.point q p b) := ⟨_, _, rfl⟩

theorem onLines_elapse : OnLines s s.elapse := ⟨_, _, rfl⟩

theorem onLines_sampled : OnLines s (s.sampled q) :=
  (onLines_point q s 0 _).trans <| (onLines_elapse _).trans <| (onLines_point q _ 1 _).trans <|
    (onLines_elapse _).trans (onLines_point q _ 2 _)

/-- The store writes to the data buffer and to nothing else. -/
theorem store_eq : s.store = { s with
    dataBuf := if s.bitrd ≠ -1 ∧ s.precycrd = 0 then put s.dataBuf s.bitrd s.bitreceived
      else s.dataBuf } := by
  unfold store
  split <;> rfl

/-- A cycle, as far as it does not concern `d_o`. -/
theorem cycle_cases : ∃ dO, s.cycle q = { s with
    bit := advance s.lastbit s.wrlittleendian s.wrmsbfirst s.bit
    bitrd := advance s.lastbitrd s.rdlittleendian s.rdmsbfirst s.bitrd
    usr := if advance s.lastbit s.wrlittleendian s.wrmsbfirst s.bit = -1 ∧
      advance s.lastbitrd s.rdlittleendian s.rdmsbfirst s.bitrd = -1 then false else s.usr
    precycwr := s.precycwr - 1
    precycrd := s.precycrd - 1
    now := s.now + 1
    dO := dO
    bitreceived := (s.sampled q).bitreceived
    dataBuf := if s.bitrd ≠ -1 ∧ s.precycrd = 0 then
      put s.dataBuf s.bitrd (s.sampled q).bitreceived else s.dataBuf } := by
  obtain ⟨dO, r, h⟩ := onLines_sampled q s
  refine ⟨dO, ?_⟩
  rw [cycle_eq, store_eq, h]
  rfl

theorem after_succ (i : Nat) : after q s (i + 1) = (after q s i).cycle q :=
  Function.iterate_succ_apply' (cycle q) i s.start

theorem cycle_lines :
    (s.cycle q).dO = (s.sampled q).dO ∧ (s.cycle q).bitreceived = (s.sampled q).bitreceived := by
  rw [cycle_eq, store_eq]
  exact ⟨rfl, rfl⟩

/-! ## §7 — the lines in one cycle -/

variable (p : Nat) (b : Bool)

@[simp] theorem point_dO :
    (s.point q p b).dO = if s.dlywr = p then s.dO.write b else s.dO := rfl

@[simp] theorem point_bitreceived :
    (s.point q p b).bitreceived = if s.dlyrd = p then q s.now p s.dO.cur else s.bitreceived := rfl

@[simp] theorem point_dlywr : (s.point q p b).dlywr = s.dlywr := rfl

@[simp] theorem point_dlyrd : (s.point q p b).dlyrd = s.dlyrd := rfl

@[simp] theorem point_now : (s.point q p b).now = s.now := rfl

@[simp] theorem elapse_dO : s.elapse.dO = s.dO.update := rfl

@[simp] theorem elapse_bitreceived : s.elapse.bitreceived = s.bitreceived := rfl

@[simp] theorem elapse_dlywr : s.elapse.dlywr = s.dlywr := rfl

@[simp] theorem elapse_dlyrd : s.elapse.dlyrd = s.dlyrd := rfl

@[simp] theorem elapse_now : s.elapse.now = s.now := rfl

variable {q s}

/-- Every delay is one of the three points. -/
theorem delay_cases {d : Nat} (h : d ≤ 2) : d = 0 ∨ d = 1 ∨ d = 2 := by omega

/-- The bit to send is driven in the cycle, at one of its points. -/
theorem cycle_driven (hwr : s.dlywr ≤ 2) : (s.cycle q).dO.next = s.bittosend := by
  rw [(cycle_lines q s).1]
  unfold sampled
  rcases delay_cases hwr with h | h | h <;> simp [h]

/-- What is driven at an earlier point than the sample is sampled in the same cycle. -/
theorem cycle_prompt (hwr : s.dlywr < s.dlyrd) (hrd : s.dlyrd ≤ 2) :
    (s.cycle loopback).bitreceived = s.bittosend := by
  rw [(cycle_lines loopback s).2]
  unfold sampled
  rcases delay_cases hrd with h | h | h
  · omega
  · have hwr : s.dlywr = 0 := by omega
    simp [h, hwr, loopback]
  · rcases delay_cases (show s.dlywr ≤ 2 by omega) with hwr | hwr | hwr
    · simp [h, hwr, loopback]
    · simp [h, hwr, loopback]
    · omega

/-- `d_o` is and stays at a level. -/
def Steady (v : Bool) (s : SpiMod) : Prop := s.dO = .init v

/-- What is not driven before the sample is sampled in a later cycle: this one sees the level there
was. -/
theorem cycle_late {v : Bool} (hwr : s.dlyrd ≤ s.dlywr) (hwr' : s.dlywr ≤ 2) (hv : s.Steady v) :
    (s.cycle loopback).bitreceived = v := by
  rw [(cycle_lines loopback s).2]
  unfold Steady at hv
  unfold sampled
  rcases delay_cases (Nat.le_trans hwr hwr') with hrd | hrd | hrd
  · simp [hrd, loopback, hv]
  · have hlate : s.dlywr ≠ 0 := by omega
    simp [hrd, hlate, loopback, hv]
  · have hlate : s.dlywr = 2 := by omega
    simp [hrd, hlate, loopback, hv]

/-- A cycle that drives the level there is keeps it. -/
theorem cycle_steady {v : Bool} (hv : s.Steady v) (hb : s.bittosend = v) :
    (s.cycle q).Steady v := by
  unfold Steady at hv ⊢
  have hwrite : (Signal.init v).write v = .init v := rfl
  have hupdate : (Signal.init v).update = .init v := rfl
  rw [(cycle_lines q s).1]
  unfold sampled
  simp only [point_dO, elapse_dO, point_dlywr, elapse_dlywr, hv, hb, hwrite, hupdate, ite_self]

end SpiMod

end Espmod.Spi
