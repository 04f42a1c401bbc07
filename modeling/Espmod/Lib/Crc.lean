/-
# Espmod.Lib.Crc — cyclic redundancy checks, most significant bit first

The register is shifted left by each bit of the message, and the polynomial is added when the bit that
leaves it is not the bit that comes in. All of it is linear over exclusive or: `feeds_xor` for two messages,
`iterate_shift_split` for the two parts of a register. This gives the rule for a table of the shifts of the
upper part: `feeds_topBits` puts a whole group of bits in at once.
-/
import Mathlib.Logic.Function.Iterate
import Mathlib.Tactic.Common

namespace Espmod.Lib.Crc

variable {w : Nat} (poly : BitVec w)

/-- The register moves on by one bit of zero. -/
def shift (c : BitVec w) : BitVec w := if c.msb then (c <<< 1) ^^^ poly else c <<< 1

/-- The register takes in one bit of a message. -/
def feed (c : BitVec w) (b : Bool) : BitVec w := if c.msb ^^ b then (c <<< 1) ^^^ poly else c <<< 1

/-- And a whole message. -/
def feeds (c : BitVec w) (bits : List Bool) : BitVec w := bits.foldl (feed poly) c

/-! ## Linearity -/

theorem xor_xor_cancel (a b p : BitVec w) : (a ^^^ p) ^^^ (b ^^^ p) = a ^^^ b := by
  rw [BitVec.xor_comm b p, BitVec.xor_assoc, ← BitVec.xor_assoc p p b, BitVec.xor_self, BitVec.zero_xor]

/-- Two registers with a bit each. -/
theorem feed_xor (a b : BitVec w) (p q : Bool) :
    feed poly (a ^^^ b) (p ^^ q) = feed poly a p ^^^ feed poly b q := by
  have hmsb : ((a ^^^ b).msb ^^ (p ^^ q)) = ((a.msb ^^ p) ^^ (b.msb ^^ q)) := by
    rw [BitVec.msb_xor]
    cases a.msb <;> cases b.msb <;> cases p <;> cases q <;> rfl
  have hshift : (a ^^^ b) <<< 1 = (a <<< 1) ^^^ (b <<< 1) := BitVec.shiftLeft_xor_distrib a b 1
  unfold feed
  rw [hmsb, hshift]
  cases a.msb ^^ p <;> cases b.msb ^^ q
  · rfl
  · exact BitVec.xor_assoc ..
  · show (a <<< 1 ^^^ b <<< 1) ^^^ poly = (a <<< 1 ^^^ poly) ^^^ b <<< 1
    rw [BitVec.xor_assoc, BitVec.xor_comm (b <<< 1), BitVec.xor_assoc]
  · exact (xor_xor_cancel _ _ poly).symm

@[simp] theorem feed_false (c : BitVec w) : feed poly c false = shift poly c := by
  unfold feed shift
  rw [Bool.xor_false]

theorem shift_xor (a b : BitVec w) : shift poly (a ^^^ b) = shift poly a ^^^ shift poly b := by
  have h := feed_xor poly a b false false
  rwa [Bool.xor_false, feed_false, feed_false, feed_false] at h

theorem iterate_shift_xor (n : Nat) (a b : BitVec w) :
    (shift poly)^[n] (a ^^^ b) = (shift poly)^[n] a ^^^ (shift poly)^[n] b := by
  induction n generalizing a b with
  | zero => rfl
  | succ n ih => rw [Function.iterate_succ_apply, shift_xor, ih]; rfl

/-- **Two messages** of one length. -/
theorem feeds_xor (ps : List Bool) : ∀ (qs : List Bool) (a b : BitVec w), qs.length = ps.length →
    feeds poly (a ^^^ b) (List.zipWith xor ps qs) = feeds poly a ps ^^^ feeds poly b qs := by
  induction ps with
  | nil =>
    intro qs a b hlen
    obtain rfl := List.eq_nil_of_length_eq_zero hlen
    rfl
  | cons p ps ih =>
    intro qs a b hlen
    cases qs with
    | nil => cases hlen
    | cons q qs =>
      show feeds poly (feed poly (a ^^^ b) (p ^^ q)) (List.zipWith xor ps qs) = _
      rw [feed_xor]
      exact ih qs _ _ (Nat.succ.inj hlen)

theorem feeds_append (c : BitVec w) (ps qs : List Bool) :
    feeds poly c (ps ++ qs) = feeds poly (feeds poly c ps) qs := List.foldl_append

/-! ## Many bits at once -/

/-- The `n` upper bits of a register. -/
def topBits (n : Nat) (x : BitVec w) : List Bool := (List.range n).map x.getMsbD

theorem topBits_succ (n : Nat) (x : BitVec w) : topBits (n + 1) x = x.msb :: topBits n (x <<< 1) := by
  unfold topBits
  rw [List.range_succ_eq_map, List.map_cons, List.map_map]
  refine congrArg (x.msb :: ·) (List.map_congr_left fun i _ => ?_)
  exact (BitVec.getMsbD_shiftLeft ..).symm

/-- A bit can be added to the upper end of the register instead. -/
theorem shift_xor_msb (c x : BitVec w) : shift poly (c ^^^ x) = feed poly c x.msb ^^^ (x <<< 1) := by
  have hshift : (c ^^^ x) <<< 1 = (c <<< 1) ^^^ (x <<< 1) := BitVec.shiftLeft_xor_distrib c x 1
  unfold shift feed
  rw [BitVec.msb_xor, hshift]
  cases c.msb ^^ x.msb
  · rfl
  · show (c <<< 1 ^^^ x <<< 1) ^^^ poly = (c <<< 1 ^^^ poly) ^^^ x <<< 1
    rw [BitVec.xor_assoc, BitVec.xor_comm (x <<< 1), BitVec.xor_assoc]

/-- And so can many. -/
theorem iterate_shift_xor_top (n : Nat) (c x : BitVec w) :
    (shift poly)^[n] (c ^^^ x) = feeds poly c (topBits n x) ^^^ (x <<< n) := by
  induction n generalizing c x with
  | zero => simp [feeds, topBits]
  | succ n ih =>
    rw [Function.iterate_succ_apply, shift_xor_msb, ih, topBits_succ, ← BitVec.shiftLeft_add, Nat.add_comm 1 n]
    rfl

/-- **A group of bits**, at the upper end of `x`, in one go. -/
theorem feeds_topBits {n : Nat} (c : BitVec w) {x : BitVec w} (hx : x <<< n = 0#w) :
    feeds poly c (topBits n x) = (shift poly)^[n] (c ^^^ x) := by
  rw [iterate_shift_xor_top, hx, BitVec.xor_zero]

/-- Bits that do not reach the upper end only move. -/
theorem iterate_shift_low (n : Nat) {z : BitVec w} (hz : ∀ i < n, z.getMsbD i = false) :
    (shift poly)^[n] z = z <<< n := by
  induction n generalizing z with
  | zero => exact (BitVec.shiftLeft_zero z).symm
  | succ n ih =>
    have hmsb : z.msb = false := hz 0 (Nat.succ_pos n)
    have hshift : shift poly z = z <<< 1 := by
      unfold shift
      rw [hmsb]
      rfl
    have hnext : ∀ i < n, (z <<< 1).getMsbD i = false := by
      intro i hi
      rw [BitVec.getMsbD_shiftLeft]
      exact hz (i + 1) (by omega)
    rw [Function.iterate_succ_apply, hshift, ih hnext, ← BitVec.shiftLeft_add, Nat.add_comm 1 n]

/-- A register is its upper part and its lower part, and only the upper part meets the polynomial. -/
theorem iterate_shift_split {n : Nat} (hn : n ≤ w) (y : BitVec w) :
    (shift poly)^[n] y = (shift poly)^[n] ((y >>> (w - n)) <<< (w - n)) ^^^ (y <<< n) := by
  have hupper : ∀ i, ((y >>> (w - n)) <<< (w - n)).getMsbD i = (decide (i < n) && y.getMsbD i) := by
    intro i
    rw [BitVec.getMsbD_shiftLeft, BitVec.getMsbD_ushiftRight, Nat.add_sub_cancel,
      decide_eq_false (show ¬ i + (w - n) < w - n by omega), Bool.not_false, Bool.true_and]
    exact congrArg (· && _) (decide_eq_decide.mpr (by omega))
  -- the lower part
  have hlower : ∀ i, (((y >>> (w - n)) <<< (w - n)) ^^^ y).getMsbD i = (decide (n ≤ i) && y.getMsbD i) := by
    intro i
    rw [BitVec.getMsbD_xor, hupper]
    by_cases hi : i < n
    · simp [hi, Nat.not_le_of_lt hi]
    · simp [hi, Nat.le_of_not_lt hi]
  have hmove : (((y >>> (w - n)) <<< (w - n)) ^^^ y) <<< n = y <<< n := by
    refine BitVec.eq_of_getMsbD_eq fun i _ => ?_
    rw [BitVec.getMsbD_shiftLeft, BitVec.getMsbD_shiftLeft, hlower, decide_eq_true (Nat.le_add_left n i),
      Bool.true_and]
  have hparts : y = ((y >>> (w - n)) <<< (w - n)) ^^^ (((y >>> (w - n)) <<< (w - n)) ^^^ y) := by
    rw [← BitVec.xor_assoc, BitVec.xor_self, BitVec.zero_xor]
  have hlow := iterate_shift_low poly n (z := ((y >>> (w - n)) <<< (w - n)) ^^^ y) fun i hi => by
    rw [hlower, decide_eq_false (Nat.not_le_of_lt hi), Bool.false_and]
  rw [hmove] at hlow
  calc (shift poly)^[n] y
      = (shift poly)^[n] (((y >>> (w - n)) <<< (w - n)) ^^^ (((y >>> (w - n)) <<< (w - n)) ^^^ y)) :=
        congrArg _ hparts
    _ = (shift poly)^[n] ((y >>> (w - n)) <<< (w - n)) ^^^ (y <<< n) := by rw [iterate_shift_xor, hlow]

end Espmod.Lib.Crc
