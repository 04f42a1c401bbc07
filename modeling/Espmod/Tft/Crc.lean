/-
# Espmod.Tft.Crc — the checksum of the picture

`do1crc` takes in a byte through `crcTable`, whose entries `crctable_init` computes by division of the byte
in the upper end of the register. A byte is thus what its eight bits are, one after the other.
-/
import Espmod.Lib.Crc

namespace Espmod.Tft

open Espmod.Lib

/-! ## §1 — the table -/

def polynomial : BitVec 32 := 0x04C11DB7

/-- The body of the inner loop of `crctable_init`. -/
def divide (current : BitVec 32) : BitVec 32 :=
  if current &&& 0x80000000 ≠ 0 then (current <<< 1) ^^^ polynomial else current <<< 1

/-- The inner loop. -/
def current (divident : Fin 256) : BitVec 32 := divide^[8] (BitVec.ofNat 32 divident <<< 24)

/-- `crctable_init`, from what is in the table before. -/
def crctableInit (crcTable : Vector (BitVec 32) 256) : Vector (BitVec 32) 256 :=
  (List.finRange 256).foldl
    (fun crcTable (divident : Fin 256) => crcTable.set divident (current divident) divident.isLt) crcTable

def do1crc (crcTable : Vector (BitVec 32) 256) (crc : BitVec 32) (b : BitVec 8) : BitVec 32 :=
  let pos : BitVec 8 := ((crc ^^^ (b.setWidth 32 <<< 24)) >>> 24).setWidth 8
  (crc <<< 8) ^^^ crcTable.get ⟨pos.toNat, pos.isLt⟩

/-- The bits of a byte, the most significant one first. -/
def bits (b : BitVec 8) : List Bool := [7, 6, 5, 4, 3, 2, 1, 0].map b.getLsbD

/-! ## §2 — a byte is its bits -/

theorem divide_eq : divide = Crc.shift polynomial := by
  funext c
  have hmsb : (c &&& 0x80000000 ≠ 0) ↔ c.msb = true := by
    have hand : c &&& 0x80000000 = if c.getLsbD 31 then BitVec.twoPow 32 31 else 0#32 := BitVec.and_twoPow c 31
    have hlast : c.msb = c.getLsbD 31 := BitVec.msb_eq_getLsbD_last c
    rw [hand, hlast]
    cases c.getLsbD 31 <;> decide
  unfold divide Crc.shift
  exact if_congr hmsb rfl rfl

/-- A loop that sets each entry once. -/
theorem get_foldl_set {n : Nat} {α : Type} (f : Fin n → α) (is : List (Fin n)) :
    ∀ (t : Vector α n) (i : Fin n), i ∈ is ∨ t.get i = f i →
      (is.foldl (fun t j => t.set j (f j) j.isLt) t).get i = f i := by
  induction is with
  | nil => exact fun t i hi => hi.resolve_left List.not_mem_nil
  | cons j is ih =>
    intro t i hi
    refine ih _ i ?_
    by_cases hij : i = j
    · subst hij
      exact Or.inr (Vector.getElem_set_self ..)
    · refine hi.imp (fun hmem => (List.mem_cons.mp hmem).resolve_left hij) fun ht => ?_
      rw [← ht]
      exact Vector.getElem_set_ne _ _ fun heq => hij (Fin.ext heq.symm)

theorem crctable_get (t : Vector (BitVec 32) 256) (pos : BitVec 8) :
    (crctableInit t).get ⟨pos.toNat, pos.isLt⟩ = (Crc.shift polynomial)^[8] (pos.setWidth 32 <<< 24) := by
  have hpos : BitVec.ofNat 32 pos.toNat = pos.setWidth 32 := BitVec.ofNat_toNat 32 pos
  have hmem : (⟨pos.toNat, pos.isLt⟩ : Fin 256) ∈ List.finRange 256 := List.mem_finRange _
  unfold crctableInit
  rw [get_foldl_set current (List.finRange 256) t _ (Or.inl hmem)]
  unfold current
  rw [divide_eq]
  exact congrArg (fun x : BitVec 32 => (Crc.shift polynomial)^[8] (x <<< 24)) hpos

theorem bits_eq_topBits (b : BitVec 8) : bits b = Crc.topBits 8 (b.setWidth 32 <<< 24) := by
  have hbit : ∀ i < 8, (b.setWidth 32 <<< 24).getMsbD i = b.getLsbD (7 - i) := by
    intro i hi
    rw [BitVec.getMsbD_shiftLeft, BitVec.getMsbD_eq_getLsbD, BitVec.getLsbD_setWidth, decide_eq_true (by omega),
      decide_eq_true (by omega), Bool.true_and, Bool.true_and]
    exact congrArg b.getLsbD (by omega)
  symm
  unfold Crc.topBits
  rw [List.map_congr_left fun i hi => hbit i (List.mem_range.mp hi)]
  rfl

/-- **A byte through the table** is its bits, one after the other. -/
theorem do1crc_eq_feeds (t : Vector (BitVec 32) 256) (crc : BitVec 32) (b : BitVec 8) :
    do1crc (crctableInit t) crc b = Crc.feeds polynomial crc (bits b) := by
  have hout : (b.setWidth 32 <<< 24) <<< 8 = 0#32 := by
    rw [← BitVec.shiftLeft_add]
    exact BitVec.shiftLeft_eq_zero (by decide)
  have hpos : ∀ y : BitVec 32, ((y >>> 24).setWidth 8).setWidth 32 = y >>> 24 := by
    intro y
    bv_omega
  have hlow : (crc ^^^ (b.setWidth 32 <<< 24)) <<< 8 = crc <<< 8 := by
    rw [BitVec.shiftLeft_xor_distrib, hout, BitVec.xor_zero]
  rw [bits_eq_topBits, Crc.feeds_topBits polynomial crc hout, Crc.iterate_shift_split polynomial (by decide), hlow]
  show crc <<< 8 ^^^ (crctableInit t).get ⟨(((crc ^^^ (b.setWidth 32 <<< 24)) >>> 24).setWidth 8).toNat, _⟩ = _
  rw [crctable_get, hpos, BitVec.xor_comm]

/-! ## §3 — a message is its bits -/

/-- `do1crc` over the bytes of a message, after `crctable_init`. -/
def checksum (t : Vector (BitVec 32) 256) (crc : BitVec 32) (bytes : List (BitVec 8)) : BitVec 32 :=
  bytes.foldl (do1crc (crctableInit t)) crc

theorem checksum_eq_feeds (t : Vector (BitVec 32) 256) (bytes : List (BitVec 8)) :
    ∀ crc, checksum t crc bytes = Crc.feeds polynomial crc (bytes.flatMap bits) := by
  induction bytes with
  | nil => exact fun _ => rfl
  | cons b bytes ih =>
    intro crc
    rw [List.flatMap_cons, Crc.feeds_append, ← do1crc_eq_feeds t, ← ih]
    rfl

theorem bits_xor (a b : BitVec 8) : bits (a ^^^ b) = List.zipWith xor (bits a) (bits b) := by
  have hbit : ∀ i, (a ^^^ b).getLsbD i = (a.getLsbD i ^^ b.getLsbD i) := fun i => BitVec.getLsbD_xor
  simp only [bits, List.map_cons, List.map_nil, List.zipWith_cons_cons, List.zipWith_nil_left, hbit]

theorem flatMap_bits_xor (as : List (BitVec 8)) : ∀ bs : List (BitVec 8), bs.length = as.length →
    (List.zipWith (· ^^^ ·) as bs).flatMap bits = List.zipWith xor (as.flatMap bits) (bs.flatMap bits) ∧
      (bs.flatMap bits).length = (as.flatMap bits).length := by
  induction as with
  | nil =>
    intro bs hlen
    obtain rfl := List.eq_nil_of_length_eq_zero hlen
    exact ⟨rfl, rfl⟩
  | cons a as ih =>
    intro bs hlen
    cases bs with
    | nil => cases hlen
    | cons b bs =>
      obtain ⟨hxor, hsame⟩ := ih bs (Nat.succ.inj hlen)
      have hbits : (bits a).length = (bits b).length := rfl
      refine ⟨?_, ?_⟩
      · rw [List.zipWith_cons_cons, List.flatMap_cons, List.flatMap_cons, List.flatMap_cons, hxor, bits_xor,
          List.zipWith_append hbits]
      · rw [List.flatMap_cons, List.flatMap_cons, List.length_append, List.length_append, hsame, hbits]

/-- **The checksum is the bitwise one**, from which it follows that it can be taken of a message in parts,
and of the exclusive or of two messages of one length. -/
theorem checksum_bitwise (t : Vector (BitVec 32) 256) (crc : BitVec 32) (bytes : List (BitVec 8)) :
    checksum t crc bytes = (bytes.flatMap bits).foldl (Crc.feed polynomial) crc ∧
      (∀ more, checksum t crc (bytes ++ more) = checksum t (checksum t crc bytes) more) ∧
      ∀ (others : List (BitVec 8)) (crc' : BitVec 32), others.length = bytes.length →
        checksum t (crc ^^^ crc') (List.zipWith (· ^^^ ·) bytes others) =
          checksum t crc bytes ^^^ checksum t crc' others := by
  refine ⟨checksum_eq_feeds t bytes crc, fun more => List.foldl_append, fun others crc' hlen => ?_⟩
  obtain ⟨hxor, hsame⟩ := flatMap_bits_xor bytes others hlen
  rw [checksum_eq_feeds, checksum_eq_feeds, checksum_eq_feeds, hxor]
  exact Crc.feeds_xor polynomial _ _ crc crc' hsame

theorem checksum_bitwise_one :
    checksum (Vector.replicate 256 0) (0 ^^^ 0xffffffff) (List.zipWith (· ^^^ ·) [0x31] [0x32]) =
      checksum (Vector.replicate 256 0) 0 [0x31] ^^^ checksum (Vector.replicate 256 0) 0xffffffff [0x32] :=
  (checksum_bitwise (Vector.replicate 256 0) 0 [0x31]).2.2 [0x32] 0xffffffff rfl

example : (([0x31, 0x32, 0x33, 0x34, 0x35, 0x36, 0x37, 0x38, 0x39] : List (BitVec 8)).flatMap bits).foldl
    (Crc.feed polynomial) 0xffffffff = 0x0376e6e7 := by
  decide +kernel

end Espmod.Tft
