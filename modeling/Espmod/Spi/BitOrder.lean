/-
# Espmod.Spi.BitOrder — the two ways to a position

`calcnextbit` is to come, bit by bit, to where `converttoendian` puts them. In little-endian order it does
with the least significant bit first, and within one byte with the most significant bit first: at the end of
a byte it adds 8, which is the end of the next byte, where 15 would be its top. In big-endian order
`converttoendian` has the complement of `pos & 0x18` where the bytes should change places, so that every
bit of the first byte is at -1.
-/
import Espmod.Spi.Cursor

namespace Espmod.Spi

/-! ## §1 — the agreement -/

/-- The bits of a transfer, from the first one on. -/
structure BitOrder (littleendian msbfirst highpart : Bool) (dlen : Nat) : Prop where
  follows : ∀ n ≤ dlen,
    (fun bit => calcnextbit bit littleendian msbfirst)^[n]
        (converttoendian littleendian msbfirst (BitVec.ofNat 32 (base highpart))) =
      converttoendian littleendian msbfirst (BitVec.ofNat 32 (base highpart + n))
  inside : ∀ n ≤ dlen, (converttoendian littleendian msbfirst (BitVec.ofNat 32 (base highpart + n))).toNat < 512
  apart : ∀ m ≤ dlen, ∀ n ≤ dlen, m ≠ n →
    converttoendian littleendian msbfirst (BitVec.ofNat 32 (base highpart + m)) ≠
      converttoendian littleendian msbfirst (BitVec.ofNat 32 (base highpart + n))

variable {le msb high : Bool} {dlen : Nat}

/-- A walk that `calcnextbit` follows. -/
theorem iterate_walk (le msb : Bool) {start : BitVec 32} (walk : Nat → Nat) (n : Nat)
    (hstart : start = BitVec.ofNat 32 (walk 0))
    (hstep : ∀ i < n, calcnextbit (BitVec.ofNat 32 (walk i)) le msb = BitVec.ofNat 32 (walk (i + 1))) :
    ∀ i ≤ n, (fun bit => calcnextbit bit le msb)^[i] start = BitVec.ofNat 32 (walk i) := by
  intro i
  induction i with
  | zero => exact fun _ => hstart
  | succ i ih =>
    intro hi
    rw [Function.iterate_succ_apply', ih (by omega)]
    exact hstep i (by omega)

/-- Positions that are where the walk is. -/
theorem BitOrder.of_walk (walk : Nat → Nat)
    (hplace : ∀ n ≤ dlen, converttoendian le msb (BitVec.ofNat 32 (base high + n)) = BitVec.ofNat 32 (walk n))
    (hstep : ∀ i < dlen, calcnextbit (BitVec.ofNat 32 (walk i)) le msb = BitVec.ofNat 32 (walk (i + 1)))
    (hlt : ∀ n ≤ dlen, walk n < 512) (hinj : ∀ m ≤ dlen, ∀ n ≤ dlen, m ≠ n → walk m ≠ walk n) :
    BitOrder le msb high dlen where
  follows := by
    intro n hn
    rw [hplace n hn]
    exact iterate_walk le msb walk dlen (hplace 0 (Nat.zero_le _)) hstep n hn
  inside := by
    intro n hn
    have hfit := hlt n hn
    rw [hplace n hn, BitVec.toNat_ofNat]
    omega
  apart := by
    intro m hm n hn hne
    have hfit := hlt m hm
    have hfit' := hlt n hn
    rw [hplace m hm, hplace n hn]
    exact ofNat_ne_ofNat (by omega) (by omega) (hinj m hm n hn hne)

/-! ## §2 — little-endian order -/

theorem converttoendian_lsb (pos : BitVec 32) : converttoendian true false pos = pos := rfl

/-- Down from the top of the first byte. -/
theorem calcnextbit_down (high : Bool) {i : Nat} (hi : i < 7) :
    calcnextbit (BitVec.ofNat 32 (base high + 7 - i)) true true = BitVec.ofNat 32 (base high + 7 - (i + 1)) := by
  have hbase := base_cases high
  rw [calcnextbit_msb, BitVec.toNat_ofNat, if_neg (by omega)]
  apply BitVec.eq_of_toNat_eq
  simp
  omega

theorem converttoendian_first (high : Bool) {n : Nat} (hn : n ≤ 7) :
    converttoendian true true (BitVec.ofNat 32 (base high + n)) = BitVec.ofNat 32 (base high + 7 - n) := by
  have hbase := base_cases high
  rw [converttoendian_msb (by omega)]
  congr 1
  omega

theorem bitOrder_little (high : Bool) (hlen : dlen < 256) (hshort : msb = true → dlen ≤ 7) :
    BitOrder true msb high dlen := by
  have hbase := base_cases high
  cases msb with
  | false =>
    refine BitOrder.of_walk (fun n => base high + n) (fun n _ => converttoendian_lsb _) ?_ ?_ ?_
    · intro i _
      rw [calcnextbit_lsb, ← Nat.add_assoc, BitVec.ofNat_add _ 1]
      rfl
    · intro n hn
      omega
    · intro m hm n hn hne
      omega
  | true =>
    have hshort := hshort rfl
    refine BitOrder.of_walk (fun n => base high + 7 - n) ?_ ?_ ?_ ?_
    · exact fun n hn => converttoendian_first high (by omega)
    · exact fun i hi => calcnextbit_down high (by omega)
    · intro n hn
      omega
    · intro m hm n hn hne
      omega

/-- The first bit of the second byte: the walk is at its end, and the place is its top. -/
theorem not_bitOrder_msb (high : Bool) (hlong : 7 < dlen) : ¬ BitOrder true true high dlen := by
  intro h
  have hbase := base_cases high
  have hstart : converttoendian true true (BitVec.ofNat 32 (base high)) = BitVec.ofNat 32 (base high + 7 - 0) :=
    converttoendian_first high (Nat.zero_le 7)
  have hseven := iterate_walk true true (fun n => base high + 7 - n) 7 hstart
    (fun i hi => calcnextbit_down high hi) 7 (Nat.le_refl 7)
  have height := h.follows 8 (by omega)
  rw [Function.iterate_succ_apply', hseven, calcnextbit_msb, BitVec.toNat_ofNat, if_pos (by omega),
    converttoendian_msb (by omega)] at height
  have hnat := congrArg BitVec.toNat height
  simp at hnat
  omega

/-! ## §3 — the result -/

/-- **The two agree** in little-endian order, with the most significant bit first not beyond the first byte,
and nowhere else. -/
theorem bitOrder_iff (hlen : dlen < 256) :
    BitOrder le msb high dlen ↔ le = true ∧ (msb = true → dlen ≤ 7) := by
  constructor
  · intro h
    cases le with
    | false =>
      have hinside := h.inside 0 (Nat.zero_le _)
      rw [Nat.add_zero, start_big] at hinside
      exact absurd hinside (by decide)
    | true =>
      refine ⟨rfl, fun hmsb => ?_⟩
      subst hmsb
      by_contra hlong
      exact not_bitOrder_msb high (Nat.lt_of_not_le hlong) h
  · rintro ⟨rfl, hshort⟩
    exact bitOrder_little high hlen hshort

theorem bitOrder_iff_word : BitOrder true false false 255 :=
  (bitOrder_iff (by decide)).mpr ⟨rfl, fun h => Bool.noConfusion h⟩

/-- In big-endian order the first bit is at -1; with the most significant bit first the ninth is at 15, and
`calcnextbit` is at 8. -/
theorem bit_orders_apart :
    converttoendian false false 0 = -1 ∧ ¬ BitOrder false false false 255 ∧
      (fun bit => calcnextbit bit true true)^[8] (converttoendian true true 0) = 8 ∧
      converttoendian true true 8 = 15 ∧ ¬ BitOrder true true false 255 := by
  refine ⟨by decide, fun h => ?_, by decide, by decide, fun h => ?_⟩
  · exact absurd (h.inside 0 (by decide)) (by decide)
  · exact absurd (h.follows 8 (by decide)) (by decide)

end Espmod.Spi
