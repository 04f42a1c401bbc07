/-
# Espmod.Flash.Thread — `cchanflash::flash` as a byte-driven machine

The thread blocks in `i_uflash.from.read()` only, so it is a machine that takes one byte at a time:
`Pc` names the read it is blocked in, `step` runs it to the next one and appends what it wrote to
`i_uflash.to` to `reply`. The locals `addr` and `size` survive from one command to the next, as in
the source, so a line that `sscanf` cannot parse works on the values of an earlier command.

The two `wait` calls and the report calls do not touch the channel and are left out; every error
branch answers with the byte `1`. `rand` is the stream of `rand()` results.
-/
import Espmod.Flash.Layout
import Espmod.Lib.Words

namespace Espmod.Flash

open Espmod.Lib.Text Espmod.Lib.Words

/-! ## §1 — the memory arrays -/

/-- `secstate_t`. -/
inductive SecState where
  | UNK
  | ERS
  | PROG
  deriving DecidableEq, Repr

/-- The module's arrays: `secs`, and `pgm` with one variable-length vector a page. -/
structure Store where
  layout : Layout
  secs : List SecState
  pgm : List (List UInt32)
  deriving DecidableEq, Repr

namespace Store

/-- The arrays as `rangeinit` leaves them. -/
def fresh (L : Layout) : Store where
  layout := L
  secs := List.replicate L.seccnt .UNK
  pgm := List.replicate (L.seccnt * 16) []

def sec (st : Store) (i : Nat) : SecState := st.secs.getD i .UNK
def page (st : Store) (i : Nat) : List UInt32 := st.pgm.getD i []
def setSec (st : Store) (i : Nat) (s : SecState) : Store := { st with secs := st.secs.set i s }
def setPage (st : Store) (i : Nat) (p : List UInt32) : Store := { st with pgm := st.pgm.set i p }

/-- The accepted part of the `e:` branch: the sector's state and its sixteen page vectors. -/
def erase (st : Store) (range addr : Nat) : Store :=
  let st := st.setSec (st.layout.secaddr range addr) .ERS
  let pgstart := st.layout.pageaddr range addr
  (List.range 16).foldl (fun st k => st.setPage (pgstart + k) []) st

/-- The `w:` branch up to its data: the range of an accepted write, or `none` where the thread
answers `1` before it looks for the data line. -/
def writeRange (st : Store) (addr size : Nat) : Option Nat :=
  match st.layout.getrange addr with
  | none => none
  | some range =>
    if st.sec (st.layout.secaddr range addr) = .UNK then none
    else if size < 1 ∨ size > 64 then none
    else if ((addr + size * 4 - 1) % 2 ^ 32) &&& 0xffffff00 ≠ addr &&& 0xffffff00 then none
    else some range

/-- `std::vector<int>::resize(n)`: new elements are value-initialised, to zero. -/
def resize (n : Nat) (p : List UInt32) : List UInt32 := p.take n ++ List.replicate (n - p.length) 0

/-- What an accepted write does before it reads the data words. -/
def prepare (st : Store) (range addr size : Nat) : Store :=
  let st := st.setSec (st.layout.secaddr range addr) .PROG
  let pageaddr := st.layout.pageaddr range addr
  let addrinpage := st.layout.addrinpage range addr
  if addrinpage + size > (st.page pageaddr).length then
    st.setPage pageaddr (resize (addrinpage + size) (st.page pageaddr))
  else st

/-- `pgm[pageaddr][pos+addrinpage] = data`. -/
def putWord (st : Store) (range addr pos : Nat) (data : UInt32) : Store :=
  let pageaddr := st.layout.pageaddr range addr
  st.setPage pageaddr ((st.page pageaddr).set (pos + st.layout.addrinpage range addr) data)

/-- The data bytes of the `r:` branch for an accepted address, and how many `rand()` results they
took; `none` where the filling loop has `end = 0xffffffff` and `pos <= end` never fails. -/
def fetch (st : Store) (rand : Nat → UInt8) (rands range addr size : Nat) : Option (Bytes × Nat) :=
  let sec := st.sec (st.layout.secaddr range addr)
  let page := st.page (st.layout.pageaddr range addr)
  if sec = .UNK then some ((List.range (4 * size)).map fun k => rand (rands + k), 4 * size)
  else if sec = .ERS ∨ page.length = 0 then some (List.replicate (4 * size) 0xff, 0)
  else
    let pos := (addr >>> 2) &&& 0x3f
    let fin := (size + pos + (2 ^ 32 - 1)) % 2 ^ 32
    let endsto := page.length - 1
    let last := if fin > endsto then endsto else fin
    let stored := if pos ≤ last then (page.drop pos).take (last + 1 - pos) else []
    let pos := if pos ≤ last then last + 1 else pos
    if fin = 2 ^ 32 - 1 then none
    else some (unwords stored ++ List.replicate (4 * (fin + 1 - pos)) 0xff, 0)

end Store

/-! ## §2 — the thread -/

/-- The read the thread is blocked in. -/
inductive Pc where
  /-- collecting the command line; the bytes of it seen so far -/
  | line (msg : Bytes)
  | wantD (range : Nat)
  | wantColon (range : Nat)
  /-- skipping a data line that does not start with `d:` -/
  | bad
  /-- word number `pos` of the data, with its bytes read so far -/
  | data (range pos : Nat) (got : Bytes)
  /-- skipping to the end of an accepted data line -/
  | tail
  /-- in the filling loop that does not end -/
  | stuck
  deriving DecidableEq, Repr

/-- The thread: the arrays, the locals that outlive a command and the two channels. -/
structure CchanFlash where
  store : Store
  addr : Nat
  size : Nat
  rands : Nat
  pc : Pc
  reply : Bytes
  deriving DecidableEq, Repr

/-- `"e:%x"`. -/
def fmtErase : List Directive := [.lit (chr 'e'), .lit (chr ':'), .convX]
/-- `"w:%x %u"`. -/
def fmtWrite : List Directive := [.lit (chr 'w'), .lit (chr ':'), .convX, .blank, .convU]
/-- `"r:%x %u"`. -/
def fmtRead : List Directive := [.lit (chr 'r'), .lit (chr ':'), .convX, .blank, .convU]

namespace CchanFlash

/-- The values an `sscanf` call leaves in `addr` and `size`. -/
def scanInto (f : CchanFlash) (args : List Int) : CchanFlash :=
  match args with
  | [] => f
  | [a] => { f with addr := a.toNat }
  | a :: s :: _ => { f with addr := a.toNat, size := s.toNat }

/-- Write bytes to `i_uflash.to` and go back to the top of the loop. -/
def answer (f : CchanFlash) (bs : Bytes) : CchanFlash := { f with reply := f.reply ++ bs, pc := .line [] }

/-- The `e:` branch. -/
def execErase (f : CchanFlash) (msg : Bytes) : CchanFlash :=
  let f := f.scanInto (scanf fmtErase (cstr msg))
  let f := { f with addr := f.addr * 4096 % 2 ^ 32 }
  match f.store.layout.getrange f.addr with
  | none => f.answer [1]
  | some range => { f with store := f.store.erase range f.addr }.answer [0]

/-- The `w:` branch up to its first read. -/
def execWrite (f : CchanFlash) (msg : Bytes) : CchanFlash :=
  let f := f.scanInto (scanf fmtWrite (cstr msg))
  match f.store.writeRange f.addr f.size with
  | none => f.answer [1]
  | some range => { f with pc := .wantD range }

/-- The `r:` branch, which every line that is no `e:` or `w:` command reaches. -/
def execRead (rand : Nat → UInt8) (f : CchanFlash) (msg : Bytes) : CchanFlash :=
  let f := f.scanInto (scanf fmtRead (cstr msg))
  match f.store.layout.getrange f.addr with
  | none => f.answer [1]
  | some range =>
    match f.store.fetch rand f.rands range f.addr f.size with
    | none => { f with pc := .stuck }
    | some (bs, used) => { f with rands := f.rands + used }.answer (bs ++ [0])

/-- The dispatch on `msg.find(..) == 0`. -/
def dispatch (rand : Nat → UInt8) (f : CchanFlash) (msg : Bytes) : CchanFlash :=
  if (str "e:").isPrefixOf msg then f.execErase msg
  else if (str "w:").isPrefixOf msg then f.execWrite msg
  else f.execRead rand msg

/-- Take one byte from `i_uflash.from` and run to the next read. -/
def step (rand : Nat → UInt8) (f : CchanFlash) (b : UInt8) : CchanFlash :=
  match f.pc with
  | .line msg =>
    if b = chr '\n' then f.dispatch rand (msg ++ [b]) else { f with pc := .line (msg ++ [b]) }
  | .wantD range => { f with pc := if b = chr 'd' then .wantColon range else .bad }
  | .wantColon range =>
    if b = chr ':' then
      { f with store := f.store.prepare range f.addr f.size, pc := .data range 0 [] }
    else { f with pc := .bad }
  | .bad => if b = chr '\n' then f.answer [1] else f
  | .data range pos got =>
    match got with
    | [b₀, b₁, b₂] =>
      { f with store := f.store.putWord range f.addr pos (wordOf b₀ b₁ b₂ b)
               pc := if pos + 1 < f.size then .data range (pos + 1) [] else .tail }
    | _ => { f with pc := .data range pos (got ++ [b]) }
  | .tail => if b = chr '\n' then f.answer [0] else f
  | .stuck => f

/-- The thread running over a received byte string. -/
def feed (rand : Nat → UInt8) (f : CchanFlash) (bs : Bytes) : CchanFlash := bs.foldl (step rand) f

/-- The thread with freshly initialised arrays; its locals are uninitialised. -/
def boot (L : Layout) (addr size rands : Nat) : CchanFlash where
  store := .fresh L
  addr := addr
  size := size
  rands := rands
  pc := .line []
  reply := []

/-- Between two commands. -/
def AtTop (f : CchanFlash) : Prop := f.pc = .line []

instance (f : CchanFlash) : Decidable f.AtTop := inferInstanceAs (Decidable (_ = _))

end CchanFlash

/-! ## §3 — what a line does -/

section Lines

variable {rand : Nat → UInt8} {f : CchanFlash}

theorem feed_append (bs cs : Bytes) :
    f.feed rand (bs ++ cs) = (f.feed rand bs).feed rand cs := by
  simp [CchanFlash.feed]

theorem feed_cons (b : UInt8) (bs : Bytes) :
    f.feed rand (b :: bs) = (f.step rand b).feed rand bs := rfl

@[simp] theorem feed_nil : f.feed rand [] = f := rfl

/-- Bytes before the newline are collected. -/
theorem feed_collect {msg : Bytes} (h : f.pc = .line msg) :
    ∀ bs : Bytes, chr '\n' ∉ bs → f.feed rand bs = { f with pc := .line (msg ++ bs) } := by
  intro bs
  induction bs generalizing f msg with
  | nil => intro _; simp [← h]
  | cons b bs ih =>
    intro hnl
    simp only [List.mem_cons, not_or] at hnl
    have hb : b ≠ chr '\n' := fun hb => hnl.1 hb.symm
    have hstep : f.step rand b = { f with pc := .line (msg ++ [b]) } := by
      simp [CchanFlash.step, h, hb]
    rw [feed_cons, hstep, ih rfl hnl.2]
    simp

/-- **A line from the top of the loop runs its command.** -/
theorem feed_line (h : f.AtTop) (bs : Bytes) (hnl : chr '\n' ∉ bs) :
    f.feed rand (bs ++ [chr '\n']) = ({ f with pc := .line bs }).dispatch rand (bs ++ [chr '\n']) := by
  rw [feed_append, feed_collect h bs hnl]
  simp [feed_cons, CchanFlash.step]

/-- The bytes of one data word store that word. -/
theorem feed_word {range pos : Nat} (h : f.pc = .data range pos []) (w : UInt32) :
    f.feed rand (bytesOf w) =
      { f with store := f.store.putWord range f.addr pos w
               pc := if pos + 1 < f.size then .data range (pos + 1) [] else .tail } := by
  simp [CchanFlash.feed, bytesOf, CchanFlash.step, h, wordOf_bytesOf]

/-- The store after consecutive words have been put from position `pos` on. -/
def putWords (st : Store) (range addr : Nat) : Nat → List UInt32 → Store
  | _, [] => st
  | pos, w :: ws => putWords (st.putWord range addr pos w) range addr (pos + 1) ws

/-- The data words of an accepted write, one after the other. -/
theorem feed_words {range : Nat} :
    ∀ (ws : List UInt32) (f : CchanFlash) (pos : Nat), f.pc = .data range pos [] → ws ≠ [] →
      pos + ws.length = f.size →
      f.feed rand (unwords ws) =
        { f with store := putWords f.store range f.addr pos ws, pc := .tail } := by
  intro ws
  induction ws with
  | nil => intro f pos _ hne; exact absurd rfl hne
  | cons w ws ih =>
    intro f pos h _ hlen
    simp only [List.length_cons] at hlen
    rw [unwords_cons, feed_append, feed_word h]
    cases ws with
    | nil =>
      have hlast : ¬ pos + 1 < f.size := by simp at hlen; omega
      simp [hlast, putWords]
    | cons w' ws =>
      have hmore : pos + 1 < f.size := by simp at hlen; omega
      rw [if_pos hmore, ih _ (pos + 1) rfl (by simp) (by simp at hlen ⊢; omega)]
      rfl

end Lines

end Espmod.Flash
