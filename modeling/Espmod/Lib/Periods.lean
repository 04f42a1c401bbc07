/-
# Espmod.Lib.Periods — counting over whole periods

How often something holds in a row of periods is the sum of how often it holds in each. A pulse counts
with its length, and a test of the position in a cycle counts alike from wherever the cycle is entered.
-/
import Mathlib.Algebra.BigOperators.Intervals
import Mathlib.Data.Nat.Periodic

namespace Espmod.Lib

/-- What holds alike counts alike. -/
theorem count_congr {p q : Nat → Prop} [DecidablePred p] [DecidablePred q] {m : Nat}
    (h : ∀ v < m, p v ↔ q v) : Nat.count p m = Nat.count q m := by
  rw [Nat.count_eq_card_filter_range, Nat.count_eq_card_filter_range,
    Finset.filter_congr fun v hv => h v (Finset.mem_range.mp hv)]

/-- A pulse inside of its period. -/
theorem count_pulse {h len m : Nat} (hfit : h + len ≤ m) :
    Nat.count (fun v => h ≤ v ∧ v < h + len) m = len := by
  obtain ⟨rest, rfl⟩ := Nat.exists_eq_add_of_le hfit
  have hbefore : Nat.count (fun v => h ≤ v ∧ v < h + len) h = 0 :=
    Nat.count_of_forall_not fun v hv hin => absurd hin.1 (Nat.not_le.mpr hv)
  have hinside : Nat.count (fun v => h ≤ h + v ∧ h + v < h + len) len = len :=
    Nat.count_of_forall fun v hv => ⟨Nat.le_add_right _ _, Nat.add_lt_add_left hv h⟩
  have hbehind : Nat.count (fun v => h ≤ h + len + v ∧ h + len + v < h + len) rest = 0 :=
    Nat.count_of_forall_not fun v _ hin => absurd hin.2 (Nat.not_lt.mpr (Nat.le_add_right _ _))
  rw [Nat.count_add, Nat.count_add, hbefore, hinside, hbehind, Nat.zero_add, Nat.add_zero]

/-- **Period by period.** -/
theorem count_periods {p : Nat → Prop} [DecidablePred p] {m : Nat} {f : Nat → Nat} {n : Nat}
    (h : ∀ j < n, Nat.count (fun v => p (j * m + v)) m = f j) :
    Nat.count p (n * m) = ∑ j ∈ Finset.range n, f j := by
  induction n with
  | zero => rw [Nat.zero_mul, Nat.count_zero, Finset.sum_range_zero]
  | succ n ih =>
    rw [Nat.succ_mul, Nat.count_add, ih fun j hj => h j (Nat.lt_succ_of_lt hj),
      h n (Nat.lt_succ_self n), Finset.sum_range_succ]

/-- **A whole cycle, entered anywhere**, has as many positions below a bound as the bound says. -/
theorem sum_cycle {n b : Nat} (hb : b ≤ n) (k : Nat) :
    ∑ j ∈ Finset.range n, (if (k + j) % n < b then 1 else 0) = b := by
  have hperiodic : Function.Periodic (fun i => i % n < b) n := fun i => by
    show ((i + n) % n < b) = (i % n < b)
    rw [Nat.add_mod_right]
  have hwindow := Nat.filter_Ico_card_eq_of_periodic k n (fun i => i % n < b) hperiodic
  have hfirst : Nat.count (fun i => i % n < b) n = b := by
    obtain ⟨rest, rfl⟩ := Nat.exists_eq_add_of_le hb
    have hlow : Nat.count (fun i => i % (b + rest) < b) b = b :=
      Nat.count_of_forall fun i hi => by rwa [Nat.mod_eq_of_lt (by omega)]
    have hhigh : Nat.count (fun i => (b + i) % (b + rest) < b) rest = 0 :=
      Nat.count_of_forall_not fun i hi hin => by
        rw [Nat.mod_eq_of_lt (by omega)] at hin
        omega
    rw [Nat.count_add, hlow, hhigh, Nat.add_zero]
  rw [Finset.card_filter, Finset.sum_Ico_eq_sum_range, Nat.add_sub_cancel_left] at hwindow
  exact hwindow.trans hfirst

end Espmod.Lib
