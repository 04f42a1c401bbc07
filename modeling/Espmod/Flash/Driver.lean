/-
# Espmod.Flash.Driver — `spi_flash_erase_sector`, `spi_flash_write` and `spi_flash_read`

The firmware side of the channel. Every call holds `flashmutex`, so it is one exchange (a long read:
several) with a thread that nobody else talks to; both FIFOs are blocking and lose nothing, so the
whole request can be handed over before the reply is looked at. A call that waits for a byte the
thread will never send is `none`: thread and caller then block one another, with the mutex held.
-/
import Espmod.Flash.Store

namespace Espmod.Flash

open Espmod.Lib.Text Espmod.Lib.Words

/-! ## §1 — the calls -/

/-- The `esp_err_t` values these calls return. -/
inductive EspErr where
  | ESP_OK
  | ESP_FAIL
  deriving DecidableEq, Repr

def retflerr (code : UInt8) : EspErr := if code = 0 then .ESP_OK else .ESP_FAIL

/-- `Flashport.read()` once a byte is available. -/
def CchanFlash.recvByte (f : CchanFlash) : Option (UInt8 × CchanFlash) :=
  match f.reply with
  | [] => none
  | b :: bs => some (b, { f with reply := bs })

/-- The loop over `n` words: each waits for four bytes and stores them, low byte first. -/
def CchanFlash.recvWords (f : CchanFlash) (n : Nat) : Option (Bytes × CchanFlash) :=
  if 4 * n ≤ f.reply.length then
    some (f.reply.take (4 * n), { f with reply := f.reply.drop (4 * n) })
  else none

section Calls

variable (rand : Nat → UInt8)

def spiFlashEraseSector (f : CchanFlash) (sec : Nat) : Option (EspErr × CchanFlash) := do
  let (code, f) ← (f.feed rand (eraseLine sec)).recvByte
  return (retflerr code, f)

/-- `src` holds the `size` bytes at `src_addr`. `ceil(size/4)` divides before it rounds, so `sizew`
counts the whole words only. The report for more than 256 bytes does not end the call. -/
def spiFlashWrite (f : CchanFlash) (desAddr : Nat) (src : Bytes) : Option (EspErr × CchanFlash) := do
  let sizew := src.length / 4
  let (code, f) ← (f.feed rand (writeLine desAddr sizew ++ dataLine (wordsOf src))).recvByte
  return (retflerr code, f)

/-- `spi_flash_read` for at most 256 bytes, into the buffer `dst` at offset `off`. -/
def shortRead (f : CchanFlash) (srcAddr off size : Nat) (dst : Bytes) :
    Option (EspErr × Bytes × CchanFlash) :=
  if size = 0 then some (.ESP_OK, dst, f)
  else do
    let sizew := size / 4
    let (bs, f) ← (f.feed rand (readLine srcAddr sizew)).recvWords sizew
    let (code, f) ← f.recvByte
    return (retflerr code, overlay dst off bs, f)

/-- The variables of `spi_flash_read` after its `do` loop. -/
structure LoopEnd where
  resp : EspErr
  size : Nat
  srcAddr : Nat
  off : Nat
  dst : Bytes
  flash : CchanFlash

/-- The `do` loop over chunks of 256 bytes. -/
def readLoop (f : CchanFlash) (srcAddr off size : Nat) (dst : Bytes) : Option LoopEnd :=
  match shortRead rand f srcAddr off 256 dst with
  | none => none
  | some (resp, dst, f) =>
    if 256 < size - 256 ∧ resp = .ESP_OK then readLoop f (srcAddr + 256) (off + 256) (size - 256) dst
    else some ⟨resp, size - 256, srcAddr + 256, off + 256, dst, f⟩
  termination_by size

/-- `spi_flash_read`. The loop leaves at most 256 bytes, so the call it makes for them is short. -/
def spiFlashRead (f : CchanFlash) (srcAddr size : Nat) (dst : Bytes) :
    Option (EspErr × Bytes × CchanFlash) :=
  if 256 < size then do
    let e ← readLoop rand f srcAddr 0 size dst
    if e.resp ≠ .ESP_OK then return (e.resp, e.dst, e.flash)
    else if 0 < e.size then shortRead rand e.flash e.srcAddr e.off e.size e.dst
    else return (.ESP_OK, e.dst, e.flash)
  else shortRead rand f srcAddr 0 size dst

end Calls

/-! ## §2 — chunk by chunk -/

section Chunks

variable {rand : Nat → UInt8}

/-- The reads `spi_flash_read` makes, as one recursion over the chunks. -/
def readChunks (rand : Nat → UInt8) (f : CchanFlash) (srcAddr off size : Nat) (dst : Bytes) :
    Option (EspErr × Bytes × CchanFlash) :=
  if 256 < size then
    match shortRead rand f srcAddr off 256 dst with
    | none => none
    | some (resp, dst, f) =>
      if resp = .ESP_OK then readChunks rand f (srcAddr + 256) (off + 256) (size - 256) dst
      else some (resp, dst, f)
  else shortRead rand f srcAddr off size dst
  termination_by size

/-- The loop and the call after it, from any point of the buffer. -/
theorem readLoop_chunks (size : Nat) :
    ∀ (f : CchanFlash) (srcAddr off : Nat) (dst : Bytes), 256 < size →
      ((readLoop rand f srcAddr off size dst).bind fun e =>
        if e.resp ≠ .ESP_OK then some (e.resp, e.dst, e.flash)
        else if 0 < e.size then shortRead rand e.flash e.srcAddr e.off e.size e.dst
        else some (.ESP_OK, e.dst, e.flash)) = readChunks rand f srcAddr off size dst := by
  induction size using Nat.strong_induction_on with
  | _ size ih =>
    intro f srcAddr off dst hsize
    rw [readLoop, readChunks, if_pos hsize]
    cases shortRead rand f srcAddr off 256 dst with
    | none => rfl
    | some p =>
      obtain ⟨resp, dst', f'⟩ := p
      simp only
      by_cases hresp : resp = .ESP_OK
      · by_cases hmore : 256 < size - 256
        · rw [if_pos ⟨hmore, hresp⟩, if_pos hresp]
          exact ih (size - 256) (by omega) f' _ _ dst' hmore
        · rw [if_neg (by simp [hmore]), if_pos hresp, readChunks, if_neg hmore]
          have hrest : 0 < size - 256 := by omega
          simp [hresp, hrest]
      · rw [if_neg (by simp [hresp]), if_neg hresp]
        simp [hresp]

/-- **`spi_flash_read` reads chunk by chunk** and stops at the first one that is not `ESP_OK`. -/
theorem spiFlashRead_eq (f : CchanFlash) (srcAddr size : Nat) (dst : Bytes) :
    spiFlashRead rand f srcAddr size dst = readChunks rand f srcAddr 0 size dst := by
  rw [spiFlashRead]
  by_cases hsize : 256 < size
  · rw [if_pos hsize]
    exact readLoop_chunks size f srcAddr 0 dst hsize
  · rw [if_neg hsize, readChunks, if_neg hsize]

end Chunks

end Espmod.Flash
