/-
# Espmod.Flash.Partition — requests to a partition

`esp_partition_read`, `esp_partition_write` and `esp_partition_erase_range` check a request against the
size of the partition and pass it on to the flash driver. The sum of offset and size is taken in `size_t`:
a size near its limit makes it wrap, and a request that does not fit passes the check. Any other request
is handled as it should be (`partition_confined`).
-/
import Mathlib.Tactic.Common
import Mathlib.Algebra.Group.Nat.Defs

namespace Espmod.Flash

/-! ## §1 — the three routines -/

/-- The fields of `esp_partition_t` that are used. -/
structure Partition where
  address : BitVec 32
  size : BitVec 32
  encrypted : Bool
deriving Repr, DecidableEq

inductive PartitionErr where
  /-- `ESP_ERR_INVALID_ARG` -/
  | invalidArg
  /-- `ESP_ERR_INVALID_SIZE` -/
  | invalidSize
  /-- `ESP_ERR_NOT_SUPPORTED` -/
  | notSupported
deriving Repr, DecidableEq

/-- A call of the driver, with the flash address and the size; `w` is the width of `size_t`. -/
inductive Access (w : Nat) where
  /-- `spi_flash_read` -/
  | read (addr size : BitVec w)
  /-- `spi_flash_write` -/
  | write (addr size : BitVec w)
  /-- `spi_flash_write_encrypted` -/
  | writeEncrypted (addr size : BitVec w)
  /-- `spi_flash_erase_range` -/
  | eraseRange (addr size : BitVec w)
deriving Repr, DecidableEq

/-- The flash address and the size of a call. -/
def Access.extent {w : Nat} : Access w → BitVec w × BitVec w
  | read addr size | write addr size | writeEncrypted addr size | eraseRange addr size => (addr, size)

/-- `SPI_FLASH_SEC_SIZE`. -/
def SPI_FLASH_SEC_SIZE : Nat := 4096

namespace Partition

variable {w : Nat}

/-- The two checks at the head of each routine. -/
def checked (p : Partition) (offset size : BitVec w) : Except PartitionErr Unit :=
  if offset > p.size.setWidth w then .error .invalidArg
  else if offset + size > p.size.setWidth w then .error .invalidSize
  else .ok ()

def espPartitionRead (p : Partition) (srcOffset size : BitVec w) : Except PartitionErr (Access w) := do
  p.checked srcOffset size
  if !p.encrypted then return .read (p.address.setWidth w + srcOffset) size
  else throw .notSupported

/-- `encryption` is `CONFIG_FLASH_ENCRYPTION_ENABLED`. -/
def espPartitionWrite (encryption : Bool) (p : Partition) (dstOffset size : BitVec w) :
    Except PartitionErr (Access w) := do
  p.checked dstOffset size
  let dstOffset := p.address.setWidth w + dstOffset
  if !p.encrypted then return .write dstOffset size
  else if encryption then return .writeEncrypted dstOffset size
  else throw .notSupported

def espPartitionEraseRange (p : Partition) (startAddr size : BitVec w) : Except PartitionErr (Access w) := do
  p.checked startAddr size
  if size.toNat % SPI_FLASH_SEC_SIZE ≠ 0 then throw .invalidSize
  if startAddr.toNat % SPI_FLASH_SEC_SIZE ≠ 0 then throw .invalidArg
  return .eraseRange (p.address.setWidth w + startAddr) size

/-- One of the three. -/
inductive Routine where
  | read
  | write (encryption : Bool)
  | eraseRange
deriving Repr, DecidableEq

/-- A request to one of the three. -/
def request (p : Partition) (offset size : BitVec w) : Routine → Except PartitionErr (Access w)
  | .read => p.espPartitionRead offset size
  | .write encryption => p.espPartitionWrite encryption offset size
  | .eraseRange => p.espPartitionEraseRange offset size

/-! ## §2 — what is asked of them -/

/-- Every byte of an access lies in the partition. -/
def Holds (p : Partition) (a : Access w) : Prop :=
  ∀ k < a.extent.2.toNat, p.address.toNat ≤ a.extent.1.toNat + k ∧
    a.extent.1.toNat + k < p.address.toNat + p.size.toNat

/-- What a request leads to lies in the partition, and a request that does not fit leads to nothing. -/
def Confined (p : Partition) (offset size : BitVec w) (r : Routine) : Prop :=
  (∀ a, p.request offset size r = .ok a → p.Holds a) ∧
    (p.size.toNat < offset.toNat + size.toNat → ∃ e, p.request offset size r = .error e)

/-- What a routine asks of a request besides that it fits. -/
def Routine.Passes (p : Partition) (offset size : BitVec w) : Routine → Prop
  | .read => p.encrypted = false
  | .write encryption => p.encrypted = true → encryption = true
  | .eraseRange => size.toNat % SPI_FLASH_SEC_SIZE = 0 ∧ offset.toNat % SPI_FLASH_SEC_SIZE = 0

/-- The sum of offset and size wraps to a value that the partition could hold. -/
def Wraps (p : Partition) (offset size : BitVec w) : Prop :=
  offset.toNat ≤ p.size.toNat ∧ 2 ^ w ≤ offset.toNat + size.toNat ∧
    offset.toNat + size.toNat ≤ 2 ^ w + p.size.toNat

/-! ## §3 — the checks -/

variable {p : Partition} {offset size : BitVec w} {r : Routine} {a : Access w}

theorem setWidth_toNat (hw : 32 ≤ w) (x : BitVec 32) : (x.setWidth w).toNat = x.toNat :=
  BitVec.toNat_setWidth_of_le hw

/-- What passes the checks. -/
theorem checked_eq_ok (hw : 32 ≤ w) :
    p.checked offset size = .ok () ↔
      offset.toNat ≤ p.size.toNat ∧ (offset + size).toNat ≤ p.size.toNat := by
  unfold checked
  simp only [gt_iff_lt, BitVec.lt_def, setWidth_toNat hw]
  split
  · rename_i h
    simp only [reduceCtorEq, false_iff]
    omega
  · split
    · simp only [reduceCtorEq, false_iff]
      omega
    · simp only [true_iff]
      omega

theorem checked_cases (p : Partition) (offset size : BitVec w) :
    p.checked offset size = .ok () ∨ ∃ e, p.checked offset size = .error e := by
  unfold checked
  split
  · exact Or.inr ⟨_, rfl⟩
  · split
    · exact Or.inr ⟨_, rfl⟩
    · exact Or.inl rfl

/-- **What a routine does**: a request that passes the checks and suits the routine leads to an access
at its offset, every other one is refused. -/
theorem request_cases (p : Partition) (offset size : BitVec w) (r : Routine) :
    (p.checked offset size = .ok () ∧ r.Passes p offset size ∧
        ∃ a, p.request offset size r = .ok a ∧ a.extent = (p.address.setWidth w + offset, size)) ∨
      (¬ (p.checked offset size = .ok () ∧ r.Passes p offset size) ∧
        ∃ e, p.request offset size r = .error e) := by
  rcases p.checked_cases offset size with h | ⟨e, h⟩
  · cases r with
    | read =>
      unfold request espPartitionRead Routine.Passes
      rw [h]
      cases p.encrypted
      · exact Or.inl ⟨rfl, rfl, _, rfl, rfl⟩
      · exact Or.inr ⟨fun hpass => Bool.noConfusion hpass.2, _, rfl⟩
    | write encryption =>
      unfold request espPartitionWrite Routine.Passes
      rw [h]
      cases p.encrypted
      · exact Or.inl ⟨rfl, nofun, _, rfl, rfl⟩
      · cases encryption
        · exact Or.inr ⟨fun hpass => Bool.noConfusion (hpass.2 rfl), _, rfl⟩
        · exact Or.inl ⟨rfl, fun _ => rfl, _, rfl, rfl⟩
    | eraseRange =>
      unfold request espPartitionEraseRange Routine.Passes
      rw [h]
      by_cases hsize : size.toNat % SPI_FLASH_SEC_SIZE = 0
      · by_cases hstart : offset.toNat % SPI_FLASH_SEC_SIZE = 0
        · refine Or.inl ⟨rfl, ⟨hsize, hstart⟩, .eraseRange (p.address.setWidth w + offset) size, ?_, rfl⟩
          simp [hsize, hstart, bind, Except.bind]
          rfl
        · refine Or.inr ⟨fun hpass => hstart hpass.2.2, .invalidArg, ?_⟩
          simp [hsize, hstart]
          rfl
      · refine Or.inr ⟨fun hpass => hsize hpass.2.1, .invalidSize, ?_⟩
        simp [hsize]
        rfl
  · refine Or.inr ⟨fun hpass => (nomatch h.symm.trans hpass.1), e, ?_⟩
    cases r <;> simp only [request, espPartitionRead, espPartitionWrite, espPartitionEraseRange, h] <;> rfl

/-- The sum of two words, as it is or less the size of the type. -/
theorem toNat_add_cases (x y : BitVec w) :
    (x.toNat + y.toNat < 2 ^ w ∧ (x + y).toNat = x.toNat + y.toNat) ∨
      (2 ^ w ≤ x.toNat + y.toNat ∧ (x + y).toNat + 2 ^ w = x.toNat + y.toNat) := by
  have hx := x.isLt
  have hy := y.isLt
  rw [BitVec.toNat_add]
  by_cases h : x.toNat + y.toNat < 2 ^ w
  · exact Or.inl ⟨h, Nat.mod_eq_of_lt h⟩
  · have hlt : x.toNat + y.toNat - 2 ^ w < 2 ^ w := by omega
    rw [Nat.mod_eq_sub_mod (Nat.le_of_not_lt h), Nat.mod_eq_of_lt hlt]
    exact Or.inr ⟨Nat.le_of_not_lt h, by omega⟩

/-- **The routines confine a request to the partition exactly when it does not get past the checks by a
sum that wraps.** -/
theorem partition_confined (hw : 32 ≤ w) (hp : p.address.toNat + p.size.toNat ≤ 2 ^ 32)
    (offset size : BitVec w) (r : Routine) :
    p.Confined offset size r ↔ ¬ (p.Wraps offset size ∧ r.Passes p offset size) := by
  have hword : 2 ^ 32 ≤ 2 ^ w := Nat.pow_le_pow_right (by decide) hw
  have hsum := toNat_add_cases offset size
  have hcheck : p.checked offset size = .ok () ↔
      offset.toNat ≤ p.size.toNat ∧ (offset + size).toNat ≤ p.size.toNat := checked_eq_ok hw
  rcases p.request_cases offset size r with
    ⟨hok, hpass, a, hreq, hext⟩ | ⟨hno, e, hreq⟩
  · obtain ⟨hoff, hfit⟩ := hcheck.mp hok
    constructor
    · rintro ⟨-, hrefuse⟩ ⟨hwraps, -⟩
      obtain ⟨e, he⟩ := hrefuse (by have := hwraps.2.1; omega)
      exact nomatch hreq.symm.trans he
    · intro hnot
      -- what passed the checks without a wrap fits
      have hsmall : offset.toNat + size.toNat ≤ p.size.toNat := by
        by_contra hlarge
        refine hnot ⟨⟨hoff, ?_, ?_⟩, hpass⟩ <;> omega
      refine ⟨fun a' ha' => ?_, fun hbig => absurd hbig (by omega)⟩
      obtain rfl : a = a' := Except.ok.inj (hreq.symm.trans ha')
      intro k hk
      rw [hext] at hk ⊢
      dsimp only at hk ⊢
      have haddr := toNat_add_cases (p.address.setWidth w) offset
      rw [setWidth_toNat hw] at haddr
      omega
  · constructor
    · rintro - ⟨hwraps, hpass⟩
      obtain ⟨hoff, hwrap, hfit⟩ := hwraps
      exact hno ⟨hcheck.mpr ⟨hoff, by omega⟩, hpass⟩
    · intro _
      exact ⟨fun a ha => (nomatch hreq.symm.trans ha), fun _ => ⟨e, hreq⟩⟩

/-- The first megabyte of the flash. -/
def megabyte : Partition := ⟨0, 0x100000, false⟩

/-- With a 32-bit `size_t`, the second half of the first megabyte. -/
theorem partition_confined_half :
    megabyte.Confined (0x80000#32) 0x80000 .read ↔
      ¬ (megabyte.Wraps (0x80000#32) 0x80000 ∧ Routine.read.Passes megabyte (0x80000#32) 0x80000) :=
  partition_confined (by decide) (by decide) _ _ _

/-- A read of 4 GB less 4 kB from the second sector on is passed on to the driver, for both widths of
`size_t` with the sizes that wrap there, and so is an erase. -/
theorem partition_left :
    megabyte.request (0x1000#32) 0xfffff000 .read = .ok (.read 0x1000 0xfffff000) ∧
      ¬ megabyte.Confined (0x1000#32) 0xfffff000 .read ∧
      megabyte.request (0x1000#32) 0xfffff000 .eraseRange = .ok (.eraseRange 0x1000 0xfffff000) ∧
      megabyte.request (0x1000#64) 0xfffffffffffff000 (.write false) =
        .ok (.write 0x1000 0xfffffffffffff000) := by
  have hread : megabyte.request (0x1000#32) 0xfffff000 .read = .ok (.read 0x1000 0xfffff000) := by
    decide
  refine ⟨hread, fun hconf => ?_, by decide, by decide⟩
  obtain ⟨e, he⟩ := hconf.2 (by decide)
  exact nomatch hread.symm.trans he

end Partition

end Espmod.Flash
