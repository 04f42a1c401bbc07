/-
# Espmod.Lib.Words — little-endian words and lists written in place

A 32-bit word travels as four bytes, low byte first. `unwords` is the byte string of a word list and
`wordsOf` reads it back; the two are inverse up to the bytes that do not fill a word. `overlay` is a
list with a window replaced, the effect of storing words one by one into a long enough vector.
-/
import Espmod.Lib.Text
import Mathlib.Tactic.IntervalCases

namespace Espmod.Lib.Words

open Espmod.Lib.Text (Bytes)

/-! ## §1 — one word -/

/-- The bytes of a word, low byte first. -/
def bytesOf (w : UInt32) : Bytes :=
  [w.toUInt8, (w >>> 8).toUInt8, (w >>> 16).toUInt8, (w >>> 24).toUInt8]

/-- The word whose bytes arrive in this order. -/
def wordOf (b₀ b₁ b₂ b₃ : UInt8) : UInt32 :=
  b₀.toUInt32 ||| (b₁.toUInt32 <<< 8) ||| (b₂.toUInt32 <<< 16) ||| (b₃.toUInt32 <<< 24)

theorem bytesOf_wordOf (b₀ b₁ b₂ b₃ : UInt8) : bytesOf (wordOf b₀ b₁ b₂ b₃) = [b₀, b₁, b₂, b₃] := by
  have byte {x y : UInt8} (h : ∀ i < 8, x.toBitVec.getLsbD i = y.toBitVec.getLsbD i) : x = y :=
    UInt8.toBitVec_inj.mp (BitVec.eq_of_getLsbD_eq h)
  simp only [bytesOf, wordOf, List.cons.injEq, and_true]
  refine ⟨byte fun i hi => ?_, byte fun i hi => ?_, byte fun i hi => ?_, byte fun i hi => ?_⟩ <;>
    interval_cases i <;> simp

theorem wordOf_bytesOf (w : UInt32) :
    wordOf w.toUInt8 (w >>> 8).toUInt8 (w >>> 16).toUInt8 (w >>> 24).toUInt8 = w := by
  apply UInt32.toBitVec_inj.mp
  apply BitVec.eq_of_getLsbD_eq
  intro i hi
  -- every bit of the word lies in exactly one of the four shifted bytes
  simp only [wordOf, UInt32.toBitVec_or, UInt32.toBitVec_shiftLeft, UInt32.toBitVec_shiftRight,
    UInt8.toBitVec_toUInt32, UInt32.toBitVec_toUInt8, UInt32.toBitVec_ofNat, BitVec.getLsbD_or,
    BitVec.getLsbD_setWidth, BitVec.shiftLeft_eq', BitVec.ushiftRight_eq', BitVec.getLsbD_shiftLeft,
    BitVec.getLsbD_ushiftRight, BitVec.toNat_umod, BitVec.toNat_ofNat, hi]
  interval_cases i <;> simp

/-! ## §2 — word lists -/

/-- The bytes of a word list. -/
def unwords (ws : List UInt32) : Bytes := ws.flatMap bytesOf

/-- A byte string read as words; bytes that do not fill a word are left out. -/
def wordsOf : Bytes → List UInt32
  | b₀ :: b₁ :: b₂ :: b₃ :: bs => wordOf b₀ b₁ b₂ b₃ :: wordsOf bs
  | _ => []

@[simp] theorem unwords_nil : unwords [] = [] := rfl

@[simp] theorem unwords_cons (w : UInt32) (ws : List UInt32) :
    unwords (w :: ws) = bytesOf w ++ unwords ws := rfl

@[simp] theorem bytesOf_length (w : UInt32) : (bytesOf w).length = 4 := rfl

theorem unwords_append (us ws : List UInt32) : unwords (us ++ ws) = unwords us ++ unwords ws := by
  simp [unwords]

@[simp] theorem unwords_length (ws : List UInt32) : (unwords ws).length = 4 * ws.length := by
  induction ws with
  | nil => rfl
  | cons w ws ih => simp only [unwords_cons, List.length_append, bytesOf_length, ih, List.length_cons]; omega

theorem wordsOf_length : ∀ bs : Bytes, (wordsOf bs).length = bs.length / 4
  | b₀ :: b₁ :: b₂ :: b₃ :: bs => by
    have ih := wordsOf_length bs
    simp only [wordsOf, List.length_cons, ih]
    omega
  | [] | [_] | [_, _] | [_, _, _] => by simp [wordsOf]

/-- Reading as words and writing the words back keeps the whole words. -/
theorem unwords_wordsOf : ∀ bs : Bytes, unwords (wordsOf bs) = bs.take (4 * (bs.length / 4))
  | b₀ :: b₁ :: b₂ :: b₃ :: bs => by
    have ih := unwords_wordsOf bs
    have hlen : 4 * ((b₀ :: b₁ :: b₂ :: b₃ :: bs).length / 4) = 4 * (bs.length / 4) + 4 := by
      simp only [List.length_cons]
      omega
    rw [hlen]
    simp only [wordsOf, unwords_cons, bytesOf_wordOf, ih, List.take_succ_cons, List.cons_append,
      List.nil_append]
  | [] | [_] | [_, _] | [_, _, _] => by simp [wordsOf]

theorem unwords_replicate_ones (n : Nat) :
    unwords (List.replicate n 0xffffffff) = List.replicate (4 * n) 0xff := by
  induction n with
  | zero => rfl
  | succ n ih =>
    rw [List.replicate_succ, unwords_cons, ih, show 4 * (n + 1) = 4 + 4 * n by omega,
      List.replicate_add]
    rfl

theorem unwords_replicate_zero (n : Nat) :
    unwords (List.replicate n 0) = List.replicate (4 * n) 0 := by
  induction n with
  | zero => rfl
  | succ n ih =>
    rw [List.replicate_succ, unwords_cons, ih, show 4 * (n + 1) = 4 + 4 * n by omega,
      List.replicate_add]
    rfl

/-- The low byte of a word stands at four times its index. -/
theorem getElem?_unwords (ws : List UInt32) (k : Nat) :
    (unwords ws)[4 * k]? = ws[k]?.map UInt32.toUInt8 := by
  induction ws generalizing k with
  | nil => simp
  | cons w ws ih =>
    cases k with
    | zero => rfl
    | succ k =>
      rw [unwords_cons, List.getElem?_append_right (by simp only [bytesOf_length]; omega), bytesOf_length,
        show 4 * (k + 1) - 4 = 4 * k by omega, ih, List.getElem?_cons_succ]

/-- Every byte of a word list is the byte of one of its words. -/
theorem getElem?_unwords_byte (ws : List UInt32) (k : Nat) :
    (unwords ws)[k]? = ws[k / 4]?.bind fun w => (bytesOf w)[k % 4]? := by
  induction ws generalizing k with
  | nil => simp
  | cons w ws ih =>
    rw [unwords_cons]
    by_cases hk : k < 4
    · rw [List.getElem?_append_left (by rw [bytesOf_length]; exact hk), Nat.div_eq_of_lt hk,
        Nat.mod_eq_of_lt hk]
      rfl
    · rw [List.getElem?_append_right (by rw [bytesOf_length]; omega), bytesOf_length, ih,
        show (k - 4) / 4 = k / 4 - 1 by omega, show (k - 4) % 4 = k % 4 by omega]
      obtain ⟨j, hj⟩ : ∃ j, k / 4 = j + 1 := ⟨k / 4 - 1, by omega⟩
      rw [hj, List.getElem?_cons_succ, Nat.add_sub_cancel]

/-! ## §3 — a window written into a list -/

variable {α : Type}

/-- `l` with `ws` written over the entries from `k` on. -/
def overlay (l : List α) (k : Nat) (ws : List α) : List α :=
  l.take k ++ ws ++ l.drop (k + ws.length)

theorem overlay_nil (l : List α) (k : Nat) : overlay l k [] = l := by
  simp [overlay]

/-- Writing the first entry and then the rest one place further is writing them all. -/
theorem overlay_cons {l : List α} {k : Nat} {w : α} {ws : List α} (hk : k < l.length) :
    overlay (l.set k w) (k + 1) ws = overlay l k (w :: ws) := by
  have htake : (l.set k w).take (k + 1) = l.take k ++ [w] := by
    rw [List.take_add_one, List.take_set_of_le (Nat.le_refl k)]
    simp [hk]
  have hdrop : (l.set k w).drop (k + 1 + ws.length) = l.drop (k + 1 + ws.length) :=
    List.drop_set_of_lt (by omega)
  simp only [overlay, htake, hdrop, List.length_cons, List.append_assoc, List.cons_append,
    List.nil_append]
  rw [show k + 1 + ws.length = k + (ws.length + 1) by omega]

theorem getElem?_overlay {l : List α} {k : Nat} {ws : List α} (hk : k + ws.length ≤ l.length)
    (j : Nat) : (overlay l k ws)[j]? =
      if k ≤ j ∧ j < k + ws.length then ws[j - k]? else l[j]? := by
  have hlen : (l.take k).length = k := by simp; omega
  simp only [overlay, List.append_assoc]
  by_cases hlo : j < k
  · rw [List.getElem?_append_left (by omega), List.getElem?_take_of_lt hlo, if_neg (by omega)]
  · rw [List.getElem?_append_right (by omega), hlen]
    by_cases hhi : j < k + ws.length
    · rw [List.getElem?_append_left (by omega), if_pos (by omega)]
    · rw [List.getElem?_append_right (by omega), if_neg (by omega), List.getElem?_drop]
      congr 1
      omega

theorem overlay_length {l : List α} {k : Nat} {ws : List α} (hk : k + ws.length ≤ l.length) :
    (overlay l k ws).length = l.length := by
  simp only [overlay, List.length_append, List.length_take, List.length_drop]
  omega

end Espmod.Lib.Words
