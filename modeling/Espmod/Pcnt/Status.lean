/-
# Espmod.Pcnt.Status — the comparators that firmware reads

`docnt` and `returnth` compare the counter with the same fields: `docnt` to find the limits and thresholds
that raise an interrupt, `returnth` to fill in `status_unit`. The first casts the fields to `int16_t`; the
second compares the register struct's words as they are, which are not negative. Equality comes out the
same. The order does so only for two numbers on one side of zero.
-/
import Espmod.Pcnt.Module
import Espmod.Pcnt.Counting

namespace Espmod.Pcnt

open Espmod.Lib

/-! ## §1 — the fields as `docnt` reads them -/

namespace PcntUnit

/-- The thresholds and limits of a unit, each cast to `int16_t`. -/
def thres0 (u : PcntUnit) : BitVec 16 := BitVec.ofNat 16 (rdfield u.conf1.cur pcntCntThres0)

def thres1 (u : PcntUnit) : BitVec 16 := BitVec.ofNat 16 (rdfield u.conf1.cur pcntCntThres1)

def lLim (u : PcntUnit) : BitVec 16 := BitVec.ofNat 16 (rdfield u.conf2.cur pcntCntLLim)

def hLim (u : PcntUnit) : BitVec 16 := BitVec.ofNat 16 (rdfield u.conf2.cur pcntCntHLim)

/-- What `docnt` takes for a limit that is hit, said with these. -/
theorem atLimit_iff (u : PcntUnit) (nc : BitVec 16) :
    atLimit u.conf0.cur u.conf2.cur nc ↔
      rdfield u.conf0.cur pcntThrLLimEn ≠ 0 ∧ nc.sle u.lLim = true
        ∨ rdfield u.conf0.cur pcntThrHLimEn ≠ 0 ∧ u.hLim.sle nc = true :=
  Iff.rfl

end PcntUnit

/-- **The status agrees with the counting logic**: equality for the thresholds and for zero, and the order
of `int16_t` for the limits. -/
structure StatusAgrees (u : PcntUnit) (s : StatusUnit) : Prop where
  thres0 : s.thres0Lat = decide (u.cnt.cur = u.thres0)
  thres1 : s.thres1Lat = decide (u.cnt.cur = u.thres1)
  lLim : s.lLimLat = u.cnt.cur.sle u.lLim
  hLim : s.hLimLat = u.hLim.sle u.cnt.cur
  zero : s.zeroLat = decide (u.cnt.cur = 0)

/-! ## §2 — comparing with and without a sign -/

/-- The two orders agree on numbers of the same sign, and only on these. -/
theorem ule_eq_sle_iff (x y : BitVec 16) : x.ule y = x.sle y ↔ x.msb = y.msb := by
  rw [BitVec.sle_eq_carry, BitVec.ule_eq_carry]
  cases x.msb <;> cases y.msb <;> simp

/-- A field is no greater than its mask. -/
theorem rdfield_le (w : BitVec 32) (f : Field) : rdfield w f ≤ (f.v <<< f.s).toNat >>> f.s := by
  unfold rdfield
  rw [BitVec.toNat_ushiftRight, BitVec.toNat_and, Nat.shiftRight_eq_div_pow, Nat.shiftRight_eq_div_pow]
  exact Nat.div_le_div_right Nat.and_le_right

/-- A field that casts without loss: comparing with it is comparing with the cast. -/
theorem toNat_cast {n : Nat} (hn : n ≤ 0xFFFF) : (BitVec.ofNat 16 n).toNat = n := by
  rw [BitVec.toNat_ofNat]
  exact Nat.mod_eq_of_lt (by omega)

variable (u : PcntUnit)

theorem toNat_thres0 : u.thres0.toNat = rdfield u.conf1.cur pcntCntThres0 :=
  toNat_cast (rdfield_le _ pcntCntThres0)

theorem toNat_thres1 : u.thres1.toNat = rdfield u.conf1.cur pcntCntThres1 :=
  toNat_cast (rdfield_le _ pcntCntThres1)

theorem toNat_lLim : u.lLim.toNat = rdfield u.conf2.cur pcntCntLLim :=
  toNat_cast (rdfield_le _ pcntCntLLim)

theorem toNat_hLim : u.hLim.toNat = rdfield u.conf2.cur pcntCntHLim :=
  toNat_cast (rdfield_le _ pcntCntHLim)

/-! ## §3 — what `returnth` fills in -/

namespace PcntMod

/-- The equalities come out as in `docnt`, and the limits by the order without a sign. -/
theorem statusOf_eq : statusOf u =
    ⟨decide (u.cnt.cur = u.thres0), decide (u.cnt.cur = u.thres1), u.cnt.cur.ule u.lLim,
      u.hLim.ule u.cnt.cur, decide (u.cnt.cur = 0)⟩ := by
  unfold statusOf
  rw [← toNat_thres0, ← toNat_thres1, ← toNat_lLim, ← toNat_hLim]
  congr 1
  · exact decide_eq_decide.mpr BitVec.toNat_inj
  · exact decide_eq_decide.mpr BitVec.toNat_inj
  · exact decide_eq_decide.mpr (@BitVec.toNat_inj 16 _ 0)

variable {u}

/-- The counter is on the side of zero where both limits are. -/
def SameSide (u : PcntUnit) : Prop := u.cnt.cur.msb = u.lLim.msb ∧ u.cnt.cur.msb = u.hLim.msb

instance (u : PcntUnit) : Decidable (SameSide u) := inferInstanceAs (Decidable (_ ∧ _))

theorem statusOf_agrees : StatusAgrees u (statusOf u) ↔ SameSide u := by
  rw [statusOf_eq]
  constructor
  · intro h
    exact ⟨(ule_eq_sle_iff _ _).mp h.lLim, ((ule_eq_sle_iff _ _).mp h.hLim).symm⟩
  · rintro ⟨hlow, hhigh⟩
    exact ⟨rfl, rfl, (ule_eq_sle_iff _ _).mpr hlow, (ule_eq_sle_iff _ _).mpr hhigh.symm, rfl⟩

/-- **A turn of `returnth` leaves latches that agree with the counting logic exactly for a unit whose
counter and limits have one sign**: for every state of the module, and each unit. -/
theorem status_agrees (m : PcntMod) (i : Fin 8) :
    StatusAgrees (m.unit i) (m.returnth.pcnt.statusUnit i) ↔ SameSide (m.unit i) :=
  statusOf_agrees

/-- A module with unit 0 at `cnt` and with the limits `low` and `high`. -/
def standing (cnt : BitVec 16) (conf2 : BitVec 32) : PcntMod :=
  let m := PcntMod.new 12
  { m with
    unit := fun i =>
      if i.val = 0 then { m.unit i with cnt := .init cnt, conf2 := .init conf2 } else m.unit i }

/-- One below zero, between limits at -100 and 100: `docnt` sees no limit, `returnth` shows the upper one.
At -100 the lower one is shown, and the upper one still. -/
theorem reverse_shows_high :
    let m := standing (-1) 0xFF9C0064
    let m' := standing (-100) 0xFF9C0064
    (m.returnth.pcnt.statusUnit 0).hLimLat = true ∧ (m.unit 0).hLim.sle (m.unit 0).cnt.cur = false ∧
      ¬ StatusAgrees (m.unit 0) (m.returnth.pcnt.statusUnit 0) ∧
      m'.returnth.pcnt.statusUnit 0 = ⟨false, false, true, true, false⟩ := by
  refine ⟨by decide, by decide, fun h => ?_, by decide⟩
  exact absurd h.hLim (by decide)

end PcntMod

end Espmod.Pcnt
