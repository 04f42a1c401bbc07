/-
# Espmod.Lib.Text — C number conversions over byte strings

`printf` and `sscanf` as byte-list functions: `showNat`/`showInt` are the `%x`, `%u` and `%d`
conversions, `scanf` runs a list of directives over its input and returns the values it assigned
before the first mismatch, the way the C function returns their count. Values are stored the way
the C library stores them: a `strtoul`/`strtol` of 64 bits that saturates, cut to 32 bits.

The round trips are stated against an arbitrary continuation: what a conversion printed is read
back exactly, provided the text after it does not start with another digit.
-/
import Mathlib.Data.Nat.Digits.Lemmas
import Mathlib.Data.List.TakeWhile
import Mathlib.Tactic.Ring

namespace Espmod.Lib.Text

/-- A byte string, in the order the bytes travel. -/
abbrev Bytes := List UInt8

/-- The byte of an ASCII character. -/
def chr (c : Char) : UInt8 := UInt8.ofNat c.toNat

/-- The bytes of an ASCII literal, without the terminating NUL. -/
def str (s : String) : Bytes := s.toList.map chr

/-- A buffer read as a C string: everything before the first NUL. -/
def cstr (bs : Bytes) : Bytes := bs.takeWhile (· ≠ 0)

/-! ## §1 — digits and the printing conversions -/

/-- The character `printf` uses for a digit (lower case above nine). -/
def digitChar (d : Nat) : UInt8 := if d < 10 then UInt8.ofNat (48 + d) else UInt8.ofNat (87 + d)

/-- The value of a character read as a digit of base `b`, or `none` when it is not one. -/
def digitVal (b : Nat) (c : UInt8) : Option Nat :=
  let v :=
    if chr '0' ≤ c ∧ c ≤ chr '9' then some (c.toNat - 48)
    else if chr 'a' ≤ c ∧ c ≤ chr 'f' then some (c.toNat - 87)
    else if chr 'A' ≤ c ∧ c ≤ chr 'F' then some (c.toNat - 55)
    else none
  v.filter (· < b)

/-- `%u` (base 10) and `%x` (base 16) of a non-negative number. -/
def showNat (b n : Nat) : Bytes :=
  if n = 0 then [chr '0'] else (Nat.digits b n).reverse.map digitChar

/-- `%d`. -/
def showInt (n : Int) : Bytes :=
  if n < 0 then chr '-' :: showNat 10 n.natAbs else showNat 10 n.toNat

theorem digitVal_digitChar : ∀ b ≤ 16, ∀ d < b, digitVal b (digitChar d) = some d := by
  decide

/-- Digits of a number, most significant first, all below the base. -/
theorem digits_reverse_lt {b n : Nat} (hb : 2 ≤ b) : ∀ d ∈ (Nat.digits b n).reverse, d < b := by
  intro d hd
  exact Nat.digits_lt_base (by omega) (List.mem_reverse.mp hd)

/-- `showNat` is the image of a non-empty digit list that evaluates to the number. -/
theorem showNat_eq_map {b : Nat} (hb : 2 ≤ b) (n : Nat) :
    ∃ ds : List Nat, ds ≠ [] ∧ (∀ d ∈ ds, d < b) ∧ (n = 0 → ds = [0]) ∧ (n ≠ 0 → ds.head? ≠ some 0) ∧
      showNat b n = ds.map digitChar ∧ ds.foldl (fun v d => v * b + d) 0 = n := by
  by_cases hn : n = 0
  · subst hn
    exact ⟨[0], by simp, by intro d hd; simp at hd; omega, fun _ => rfl, fun h => absurd rfl h,
      by simp [showNat]; decide, by simp⟩
  · refine ⟨(Nat.digits b n).reverse, ?_, digits_reverse_lt hb, fun h => absurd h hn, ?_, ?_, ?_⟩
    · simpa using Nat.digits_ne_nil_iff_ne_zero.mpr hn
    · intro _ hhead
      have hne : Nat.digits b n ≠ [] := Nat.digits_ne_nil_iff_ne_zero.mpr hn
      rw [List.head?_reverse, List.getLast?_eq_some_getLast hne, Option.some.injEq] at hhead
      exact Nat.getLast_digit_ne_zero b hn hhead
    · simp [showNat, hn]
    · have hofDigits : Nat.ofDigits b (Nat.digits b n) = n := Nat.ofDigits_digits b n
      rw [Nat.ofDigits_eq_foldr] at hofDigits
      rw [List.foldl_reverse]
      calc List.foldr (fun d v => v * b + d) 0 (Nat.digits b n)
          = List.foldr (fun d v => ((d : Nat) : Nat) + b * v) 0 (Nat.digits b n) := by
            congr 1; funext d v; ring
        _ = n := hofDigits

/-- A number of one decimal digit. -/
theorem showNat_of_lt {n : Nat} (h : n < 10) : showNat 10 n = [digitChar n] := by
  revert n
  decide

/-- The last decimal digit. -/
theorem showNat_of_le {n : Nat} (h : 10 ≤ n) :
    showNat 10 n = showNat 10 (n / 10) ++ [digitChar (n % 10)] := by
  have hn : n ≠ 0 := by omega
  have hq : n / 10 ≠ 0 := by omega
  unfold showNat
  rw [if_neg hn, if_neg hq, Nat.digits_def' (by decide) (Nat.pos_of_ne_zero hn), List.reverse_cons,
    List.map_append]
  rfl

/-- How long a printed number is. -/
theorem length_showNat_le (k : Nat) : ∀ {n : Nat}, n < 10 ^ (k + 1) → (showNat 10 n).length ≤ k + 1 := by
  induction k with
  | zero =>
    intro n h
    rw [showNat_of_lt h]
    exact Nat.le_refl 1
  | succ k ih =>
    intro n h
    by_cases hsmall : n < 10
    · rw [showNat_of_lt hsmall]
      exact Nat.succ_le_succ (Nat.zero_le _)
    · have hquot : n / 10 < 10 ^ (k + 1) := by
        rw [Nat.pow_succ] at h
        omega
      rw [showNat_of_le (Nat.not_lt.mp hsmall), List.length_append, List.length_singleton]
      exact Nat.succ_le_succ (ih hquot)

/-- What `printf` prints of a number lies between `0` and `f`. -/
theorem showNat_range {b : Nat} (hb : 2 ≤ b) (hb' : b ≤ 16) {n : Nat} {c : UInt8}
    (h : c ∈ showNat b n) : 48 ≤ c ∧ c ≤ 102 := by
  have hdigit : ∀ d < 16, 48 ≤ digitChar d ∧ digitChar d ≤ 102 := by decide
  obtain ⟨ds, _, hlt, _, _, heq, _⟩ := showNat_eq_map hb n
  rw [heq] at h
  obtain ⟨d, hd, rfl⟩ := List.mem_map.mp h
  exact hdigit d (by have := hlt d hd; omega)

/-- A decimal number consists of the characters from `0` to `9`. -/
theorem showNat_decimal {n : Nat} {c : UInt8} (h : c ∈ showNat 10 n) : 48 ≤ c ∧ c ≤ 57 := by
  have hdigit : ∀ d < 10, 48 ≤ digitChar d ∧ digitChar d ≤ 57 := by decide
  obtain ⟨ds, _, hlt, _, _, heq, _⟩ := showNat_eq_map (by decide : 2 ≤ 10) n
  rw [heq] at h
  obtain ⟨d, hd, rfl⟩ := List.mem_map.mp h
  exact hdigit d (hlt d hd)

theorem notMem_decimal (n : Nat) {c : UInt8} (hc : ¬ (48 ≤ c ∧ c ≤ 57)) : c ∉ showNat 10 n :=
  fun h => hc (showNat_decimal h)

/-- Characters outside that interval do not occur in a printed number. -/
theorem notMem_showNat {b : Nat} (hb : 2 ≤ b) (hb' : b ≤ 16) (n : Nat) {c : UInt8}
    (hc : ¬ (48 ≤ c ∧ c ≤ 102)) : c ∉ showNat b n :=
  fun h => hc (showNat_range hb hb' h)

theorem cstr_of_notMem {bs : Bytes} (h : 0 ∉ bs) : cstr bs = bs := by
  refine List.takeWhile_eq_self_iff.mpr fun c hc => ?_
  simpa using fun h0 : c = 0 => h (h0 ▸ hc)

/-! ## §2 — the scanning conversions -/

/-- `isspace`. -/
def isSpace (c : UInt8) : Bool := c == 32 || (9 ≤ c && c ≤ 13)

def skipSpace (s : Bytes) : Bytes := s.dropWhile isSpace

/-- Consume the longest run of digits, accumulating their value. -/
def readDigits (b : Nat) : Nat → Bytes → Nat × Bytes
  | acc, [] => (acc, [])
  | acc, c :: cs =>
    match digitVal b c with
    | some d => readDigits b (acc * b + d) cs
    | none => (acc, c :: cs)

/-- The optional sign of a conversion. -/
def readSign : Bytes → Bool × Bytes
  | [] => (false, [])
  | c :: cs => if c = chr '-' then (true, cs) else if c = chr '+' then (false, cs) else (false, c :: cs)

/-- The optional `0x` of a hexadecimal conversion. -/
def readHexMark (b : Nat) : Bytes → Option Bytes
  | z :: x :: cs => if b = 16 ∧ z = chr '0' ∧ (x = chr 'x' ∨ x = chr 'X') then some cs else none
  | _ => none

theorem readHexMark_ten (s : Bytes) : readHexMark 10 s = none := by
  unfold readHexMark
  split <;> simp

/-- One number: white space, sign, the hexadecimal mark, then at least one digit. -/
def scanNumber (b : Nat) (s : Bytes) : Option ((Bool × Nat) × Bytes) :=
  let (neg, s) := readSign (skipSpace s)
  match readHexMark b s with
  | some t => let (v, r) := readDigits b 0 t; some ((neg, v), r)
  | none =>
    match s with
    | [] => none
    | c :: cs =>
      match digitVal b c with
      | none => none
      | some _ => let (v, r) := readDigits b 0 (c :: cs); some ((neg, v), r)

/-- What `%u` and `%x` store: a 64-bit `strtoul`, saturating, cut to 32 bits. -/
def storeUnsigned : Bool × Nat → Int
  | (neg, v) =>
    if 2 ^ 64 ≤ v then 2 ^ 32 - 1
    else if neg then ((2 ^ 64 - v) % 2 ^ 32 : Nat) else (v % 2 ^ 32 : Nat)

/-- What `%d` stores: a 64-bit `strtol`, saturating, cut to a 32-bit two's complement value. -/
def storeSigned : Bool × Nat → Int
  | (neg, v) =>
    let w : Int := if neg then max (-(v : Int)) (-2 ^ 63) else min (v : Int) (2 ^ 63 - 1)
    w.bmod (2 ^ 32)

/-- `atoi`: what `%d` would store, 0 where there is no number. -/
def atoi (s : Bytes) : Int :=
  match scanNumber 10 s with
  | some (r, _) => storeSigned r
  | none => 0

/-- The string `snprintf` leaves in a buffer of `size` bytes for a `%d`. -/
def snprintfD (size : Nat) (n : Int) : Bytes := (showInt n).take (size - 1)

/-- A format directive. -/
inductive Directive where
  | lit (c : UInt8)
  | blank
  | convD
  | convU
  | convX
  deriving DecidableEq, Repr

/-- The conversion a directive asks for: base and storing rule. -/
def Directive.scan : Directive → Bytes → Option (Int × Bytes)
  | .convD, s => (scanNumber 10 s).map fun r => (storeSigned r.1, r.2)
  | .convU, s => (scanNumber 10 s).map fun r => (storeUnsigned r.1, r.2)
  | .convX, s => (scanNumber 16 s).map fun r => (storeUnsigned r.1, r.2)
  | _, _ => none

/-- `sscanf`: the values assigned before the first directive that does not match. -/
def scanf : List Directive → Bytes → List Int
  | [], _ => []
  | .blank :: ds, s => scanf ds (skipSpace s)
  | .lit c :: ds, s =>
    match s with
    | [] => []
    | c' :: cs => if c = c' then scanf ds cs else []
  | d :: ds, s =>
    match d.scan s with
    | some (v, r) => v :: scanf ds r
    | none => []

/-! ## §3 — what was printed is read back -/

/-- The text `rest` does not continue a number of base `b`. -/
def Stops (b : Nat) (rest : Bytes) : Prop := ∀ c, rest.head? = some c → digitVal b c = none

theorem stops_cons {b : Nat} {c : UInt8} {cs : Bytes} (h : digitVal b c = none) :
    Stops b (c :: cs) := by
  intro c' hc'
  simp only [List.head?_cons, Option.some.injEq] at hc'
  exact hc' ▸ h

theorem readDigits_stops {b acc : Nat} {rest : Bytes} (h : Stops b rest) :
    readDigits b acc rest = (acc, rest) := by
  cases rest with
  | nil => rfl
  | cons c cs => simp [readDigits, h c rfl]

/-- Digits are consumed one by one, whatever follows them. -/
theorem readDigits_map {b : Nat} (hb : b ≤ 16) (rest : Bytes) :
    ∀ (ds : List Nat) (acc : Nat), (∀ d ∈ ds, d < b) →
      readDigits b acc (ds.map digitChar ++ rest) =
        readDigits b (ds.foldl (fun v d => v * b + d) acc) rest := by
  intro ds
  induction ds with
  | nil => intro acc _; rfl
  | cons d ds ih =>
    intro acc hlt
    have hd : digitVal b (digitChar d) = some d := digitVal_digitChar b hb d (hlt d (by simp))
    simp only [List.map_cons, List.cons_append, List.foldl_cons, readDigits, hd]
    exact ih _ fun d hd => hlt d (List.mem_cons_of_mem _ hd)

theorem readDigits_showNat {b : Nat} (hb : 2 ≤ b) (hb' : b ≤ 16) (n : Nat) {rest : Bytes}
    (h : Stops b rest) : readDigits b 0 (showNat b n ++ rest) = (n, rest) := by
  obtain ⟨ds, _, hlt, _, _, heq, hval⟩ := showNat_eq_map hb n
  rw [heq, readDigits_map hb' rest ds 0 hlt, hval, readDigits_stops h]

/-- A digit character is neither white space nor a sign. -/
theorem digitChar_plain : ∀ d < 16, isSpace (digitChar d) = false ∧ digitChar d ≠ chr '-' ∧
    digitChar d ≠ chr '+' ∧ digitChar d ≠ chr 'x' ∧ digitChar d ≠ chr 'X' ∧
    (digitChar d = chr '0' → d = 0) := by
  decide

/-- A printed number starts with no white space. -/
theorem skipSpace_showNat {b : Nat} (hb : 2 ≤ b) (hb' : b ≤ 16) (n : Nat) (rest : Bytes) :
    skipSpace (showNat b n ++ rest) = showNat b n ++ rest := by
  obtain ⟨ds, hne, hlt, _, _, heq, _⟩ := showNat_eq_map hb n
  obtain ⟨d, ds', rfl⟩ := List.exists_cons_of_ne_nil hne
  have hsp := (digitChar_plain d (by have := hlt d (by simp); omega)).1
  simp [heq, skipSpace, hsp]

/-- **A printed number is scanned back**, in either base, up to a continuation that neither extends
it nor turns a printed `0` into the hexadecimal mark. -/
theorem scanNumber_showNat {b : Nat} (hb : 2 ≤ b) (hb' : b ≤ 16) (n : Nat) {rest : Bytes}
    (h : Stops b rest) (hx : ∀ c, rest.head? = some c → c ≠ chr 'x' ∧ c ≠ chr 'X') :
    scanNumber b (showNat b n ++ rest) = some ((false, n), rest) := by
  have hread := readDigits_showNat hb hb' n h
  obtain ⟨ds, hne, hlt, hzero, hnz, heq, _⟩ := showNat_eq_map hb n
  obtain ⟨d, ds', rfl⟩ := List.exists_cons_of_ne_nil hne
  have hd : d < b := hlt d (by simp)
  obtain ⟨_, hminus, hplus, _, _, hz⟩ := digitChar_plain d (by omega)
  have hval : digitVal b (digitChar d) = some d := digitVal_digitChar b hb' d hd
  rw [heq] at hread ⊢
  simp only [List.map_cons, List.cons_append] at hread ⊢
  have hskip : skipSpace (digitChar d :: (ds'.map digitChar ++ rest)) =
      digitChar d :: (ds'.map digitChar ++ rest) := by
    simpa [heq] using skipSpace_showNat hb hb' n rest
  have hmark : readHexMark b (digitChar d :: (ds'.map digitChar ++ rest)) = none := by
    cases ds' with
    | nil =>
      cases rest with
      | nil => rfl
      | cons c cs =>
        obtain ⟨h1, h2⟩ := hx c rfl
        simp [readHexMark, h1, h2]
    | cons d' ds'' =>
      -- a second digit means the number is not zero, so the first digit is not `0`
      have hn : n ≠ 0 := fun h0 => by simpa using hzero h0
      have hd0 : d ≠ 0 := fun h0 => hnz hn (by simp [h0])
      have hc : digitChar d ≠ chr '0' := fun hc => hd0 (hz hc)
      simp [readHexMark, hc]
  simp only [scanNumber, hskip, readSign, hminus, hplus, if_false, hmark, hval, hread]

theorem storeUnsigned_of_lt {n : Nat} (h : n < 2 ^ 32) : storeUnsigned (false, n) = (n : Int) := by
  have h64 : ¬ 2 ^ 64 ≤ n := by omega
  simp only [storeUnsigned, h64, if_false, Bool.false_eq_true]
  rw [Nat.mod_eq_of_lt h]

theorem storeSigned_of_lt {n : Nat} (h : n < 2 ^ 31) : storeSigned (false, n) = (n : Int) := by
  simp only [storeSigned, Bool.false_eq_true, if_false]
  rw [min_eq_left (by omega)]
  exact Int.bmod_eq_of_le (by omega) (by omega)

theorem storeSigned_neg {n : Nat} (h : n ≤ 2 ^ 31) : storeSigned (true, n) = -(n : Int) := by
  simp only [storeSigned, if_true]
  rw [max_eq_left (by omega)]
  exact Int.bmod_eq_of_le (by omega) (by omega)

/-- Text that a `%d` or `%u` conversion stops in front of. -/
def DecimalStop (rest : Bytes) : Prop :=
  Stops 10 rest ∧ ∀ c, rest.head? = some c → c ≠ chr 'x' ∧ c ≠ chr 'X'

theorem decimalStop_cons {c : UInt8} {cs : Bytes} (h : digitVal 10 c = none)
    (hx : c ≠ chr 'x' ∧ c ≠ chr 'X') : DecimalStop (c :: cs) := by
  refine ⟨stops_cons h, fun c' hc' => ?_⟩
  simp only [List.head?_cons, Option.some.injEq] at hc'
  exact hc' ▸ hx

theorem scanf_convD {n : Nat} (hn : n < 2 ^ 31) {rest : Bytes} (h : DecimalStop rest)
    (ds : List Directive) :
    scanf (.convD :: ds) (showNat 10 n ++ rest) = (n : Int) :: scanf ds rest := by
  simp [scanf, Directive.scan, scanNumber_showNat (by decide : 2 ≤ 10) (by decide) n h.1 h.2,
    storeSigned_of_lt hn]

theorem scanf_convU {n : Nat} (hn : n < 2 ^ 32) {rest : Bytes} (h : DecimalStop rest)
    (ds : List Directive) :
    scanf (.convU :: ds) (showNat 10 n ++ rest) = (n : Int) :: scanf ds rest := by
  simp [scanf, Directive.scan, scanNumber_showNat (by decide : 2 ≤ 10) (by decide) n h.1 h.2,
    storeUnsigned_of_lt hn]

theorem scanf_convX {n : Nat} (hn : n < 2 ^ 32) {rest : Bytes} (h : Stops 16 rest)
    (hx : ∀ c, rest.head? = some c → c ≠ chr 'x' ∧ c ≠ chr 'X') (ds : List Directive) :
    scanf (.convX :: ds) (showNat 16 n ++ rest) = (n : Int) :: scanf ds rest := by
  simp [scanf, Directive.scan, scanNumber_showNat (by decide : 2 ≤ 16) (by decide) n h hx,
    storeUnsigned_of_lt hn]

/-! ## §4 — a `%d` through a buffer and back through `atoi` -/

/-- A negative number is scanned back. -/
theorem scanNumber_minus (n : Nat) :
    scanNumber 10 (chr '-' :: showNat 10 n) = some ((true, n), []) := by
  have hread : readDigits 10 0 (showNat 10 n ++ []) = (n, []) :=
    readDigits_showNat (by decide) (by decide) n (by simp [Stops])
  rw [List.append_nil] at hread
  obtain ⟨ds, hne, hlt, _, _, heq, _⟩ := showNat_eq_map (by decide : 2 ≤ 10) n
  obtain ⟨d, ds', rfl⟩ := List.exists_cons_of_ne_nil hne
  have hval := digitVal_digitChar 10 (by decide) d (hlt d (by simp))
  have hskip : skipSpace (chr '-' :: showNat 10 n) = chr '-' :: showNat 10 n := rfl
  have hmark : readHexMark 10 (showNat 10 n) = none := readHexMark_ten _
  rw [heq] at hread hskip hmark ⊢
  simp only [List.map_cons] at hread hskip hmark ⊢
  simp only [scanNumber, hskip, readSign, if_true, hmark, hval, hread]

/-- **What `%d` prints of a 32-bit number, `atoi` reads back.** -/
theorem atoi_showInt {n : Int} (h : -2 ^ 31 ≤ n) (h' : n < 2 ^ 31) : atoi (showInt n) = n := by
  by_cases hn : n < 0
  · rw [showInt, if_pos hn, atoi, scanNumber_minus]
    show storeSigned (true, n.natAbs) = n
    rw [storeSigned_neg (by omega)]
    omega
  · have hscan : scanNumber 10 (showNat 10 n.toNat ++ []) = some ((false, n.toNat), []) :=
      scanNumber_showNat (by decide) (by decide) n.toNat (by simp [Stops]) (by simp)
    rw [List.append_nil] at hscan
    rw [showInt, if_neg hn, atoi, hscan]
    show storeSigned (false, n.toNat) = n
    rw [storeSigned_of_lt (by omega)]
    omega

/-- How long a printed number is, its sign counted. -/
theorem length_showInt_le (k : Nat) {n : Int} (h : -((10 ^ (k + 1) : Nat) : Int) < n)
    (h' : n < ((10 ^ (k + 2) : Nat) : Int)) : (showInt n).length ≤ k + 2 := by
  by_cases hn : n < 0
  · have habs : n.natAbs < 10 ^ (k + 1) := by omega
    rw [showInt, if_pos hn, List.length_cons]
    exact Nat.succ_le_succ (length_showNat_le k habs)
  · have habs : n.toNat < 10 ^ (k + 2) := by omega
    rw [showInt, if_neg hn]
    exact length_showNat_le (k + 1) habs

/-- A number that the buffer has room for is kept whole. -/
theorem snprintfD_of_fits (k : Nat) {n : Int} (h : -((10 ^ (k + 1) : Nat) : Int) < n)
    (h' : n < ((10 ^ (k + 2) : Nat) : Int)) : snprintfD (k + 3) n = showInt n :=
  List.take_of_length_le (length_showInt_le k h h')

theorem digitVal_lt {b d : Nat} {c : UInt8} (h : digitVal b c = some d) : d < b := by
  simpa using (Option.filter_eq_some_iff.mp h).2

/-- Few digits make a small number. -/
theorem readDigits_lt {b : Nat} (hb : 0 < b) (s : Bytes) :
    ∀ acc, (readDigits b acc s).1 < (acc + 1) * b ^ s.length := by
  induction s with
  | nil => intro acc; simp [readDigits]
  | cons c cs ih =>
    intro acc
    cases hd : digitVal b c with
    | none =>
      simp only [readDigits, hd]
      exact Nat.lt_of_lt_of_le (Nat.lt_succ_self acc) (Nat.le_mul_of_pos_right _ (Nat.pow_pos hb))
    | some d =>
      have hlt : d < b := digitVal_lt hd
      simp only [readDigits, hd]
      calc (readDigits b (acc * b + d) cs).1 < (acc * b + d + 1) * b ^ cs.length := ih _
        _ ≤ (acc + 1) * b * b ^ cs.length :=
          Nat.mul_le_mul_right _ (by rw [Nat.succ_mul]; omega)
        _ = (acc + 1) * b ^ (c :: cs).length := by rw [List.length_cons, Nat.pow_succ]; ring

/-- A sign takes a character of its own. -/
theorem length_readSign (s : Bytes) :
    (readSign s).2.length + (if (readSign s).1 then 1 else 0) ≤ s.length := by
  cases s with
  | nil => simp [readSign]
  | cons c cs =>
    by_cases hminus : c = chr '-'
    · simp [readSign, hminus]
    · by_cases hplus : c = chr '+'
      · simp [readSign, hplus, show chr '+' ≠ chr '-' by decide]
      · simp [readSign, hminus, hplus]

/-- A short text holds a small number, a negative one with a digit less. -/
theorem scanNumber_lt {s r : Bytes} {neg : Bool} {v : Nat}
    (h : scanNumber 10 s = some ((neg, v), r)) :
    v * (if neg then 10 else 1) < 10 ^ s.length := by
  have hlength := length_readSign (skipSpace s)
  have hskip : (skipSpace s).length ≤ s.length := (List.dropWhile_sublist _).length_le
  have hlt := readDigits_lt (by decide : 0 < 10) (readSign (skipSpace s)).2 0
  rw [Nat.zero_add, Nat.one_mul] at hlt
  obtain ⟨hneg, hv⟩ : (readSign (skipSpace s)).1 = neg ∧
      (readDigits 10 0 (readSign (skipSpace s)).2).1 = v := by
    simp only [scanNumber, readHexMark_ten] at h
    split at h
    · cases h
    · split at h
      · cases h
      · simp only [Option.some.injEq, Prod.mk.injEq] at h
        rename_i heq _ _ _
        exact ⟨h.1.1, heq ▸ h.1.2⟩
  rw [hv] at hlt
  rw [hneg] at hlength
  cases neg with
  | false =>
    rw [if_neg (by decide), Nat.mul_one]
    exact Nat.lt_of_lt_of_le hlt (Nat.pow_le_pow_right (by decide) (by omega))
  | true =>
    rw [if_pos rfl] at hlength ⊢
    calc v * 10 < 10 ^ (readSign (skipSpace s)).2.length * 10 := Nat.mul_lt_mul_of_pos_right hlt (by decide)
      _ = 10 ^ ((readSign (skipSpace s)).2.length + 1) := (Nat.pow_succ ..).symm
      _ ≤ 10 ^ s.length := Nat.pow_le_pow_right (by decide) (Nat.le_trans hlength hskip)

/-- **A short text cannot hold a long number.** -/
theorem atoi_of_length_le {k : Nat} (hk : k ≤ 8) {s : Bytes} (h : s.length ≤ k + 1) :
    -((10 ^ k : Nat) : Int) < atoi s ∧ atoi s < ((10 ^ (k + 1) : Nat) : Int) := by
  have hten : 10 ^ (k + 1) = 10 ^ k * 10 := Nat.pow_succ ..
  have hpos : 0 < 10 ^ k := Nat.pow_pos (by decide)
  cases hscan : scanNumber 10 s with
  | none =>
    have hzero : atoi s = 0 := by simp [atoi, hscan]
    omega
  | some rest =>
    obtain ⟨⟨neg, v⟩, r⟩ := rest
    have hstored : atoi s = storeSigned (neg, v) := by simp [atoi, hscan]
    have hlt := scanNumber_lt hscan
    have hlong : 10 ^ s.length ≤ 10 ^ (k + 1) := Nat.pow_le_pow_right (by decide) h
    have hword : 10 ^ (k + 1) ≤ 10 ^ 9 := Nat.pow_le_pow_right (by decide) (by omega)
    cases neg with
    | false =>
      rw [if_neg (by decide), Nat.mul_one] at hlt
      rw [hstored, storeSigned_of_lt (by omega)]
      omega
    | true =>
      rw [if_pos rfl] at hlt
      rw [hstored, storeSigned_neg (by omega)]
      omega

@[simp] theorem scanf_lit (c : UInt8) (ds : List Directive) (cs : Bytes) :
    scanf (.lit c :: ds) (c :: cs) = scanf ds cs := by
  simp [scanf]

end Espmod.Lib.Text
