/-
# Espmod.Flash.Refinement — the command stream refines the memory

The thread fed with erase and write commands, observed by the reads it would answer. `lastWritten`
is the memory of a command history; `ReadsBack` says that every in-page read of a known sector
answers the words of that memory, blank words as `0xffffffff`.
-/
import Espmod.Flash.Memory

namespace Espmod.Flash

open Espmod.Lib Espmod.Lib.Text Espmod.Lib.Words

/-! ## §1 — commands and what they should do -/

/-- An erase or write command as it travels. -/
inductive Cmd where
  | erase (sec : Nat) (l : Line fmtErase [sec])
  | write (addr size : Nat) (l : Line fmtWrite [addr, size]) (d : Data size)

namespace Cmd

def bytes : Cmd → Bytes
  | erase _ l => l.bytes
  | write _ _ l d => l.bytes ++ d.bytes

/-- The command in terms of the memory. -/
def effect (m : Memory) : Cmd → Memory
  | erase sec _ => m.erase (sec * 4096 % 2 ^ 32)
  | write addr _ _ d => m.write addr d.words

/-- The thread takes the branch that answers `0`. -/
def accepted (st : Store) : Cmd → Prop
  | erase sec _ => ∃ range, st.layout.getrange (sec * 4096 % 2 ^ 32) = some range
  | write addr size _ _ => ∃ range, st.writeRange addr size = some range

/-- A write does not start past the end of its page vector. -/
def gapless (st : Store) : Cmd → Prop
  | erase _ _ => True
  | write addr _ _ _ => st.gapless addr

end Cmd

/-- The memory after a history of commands. -/
def lastWritten (h : List Cmd) : Memory := h.foldl Cmd.effect Memory.blank

theorem lastWritten_snoc (h : List Cmd) (c : Cmd) :
    lastWritten (h ++ [c]) = c.effect (lastWritten h) := by
  simp [lastWritten]

/-- Run one command to its end. -/
def CchanFlash.exec (rand : Nat → UInt8) (f : CchanFlash) (c : Cmd) : CchanFlash :=
  f.feed rand c.bytes

/-- **Every in-page read of a known sector answers the words last written.** -/
def ReadsBack (rand : Nat → UInt8) (h : List Cmd) (f : CchanFlash) : Prop :=
  ∀ (a n range : Nat) (l : Line fmtRead [a, n]), 1 ≤ n → n ≤ 64 → a % 256 + 4 * n ≤ 256 →
    f.store.layout.getrange a = some range →
    f.store.sec (f.store.layout.secaddr range a) ≠ .UNK →
    (f.feed rand l.bytes).reply = f.reply ++ (unwords ((lastWritten h).read a n) ++ [0])

/-! ## §2 — one command -/

section Step

variable (rand : Nat → UInt8) {f : CchanFlash} {h : List Cmd} {m : Memory}

theorem exec_erase (htop : f.AtTop) {sec range : Nat} (l : Line fmtErase [sec])
    (hr : f.store.layout.getrange (sec * 4096 % 2 ^ 32) = some range) :
    (f.exec rand (.erase sec l)).AtTop ∧ (f.exec rand (.erase sec l)).reply = f.reply ++ [0] ∧
    (f.exec rand (.erase sec l)).store = f.store.erase range (sec * 4096 % 2 ^ 32) := by
  have hfeed := feed_erase rand htop l
  rw [hr] at hfeed
  rw [CchanFlash.exec, Cmd.bytes, hfeed]
  exact ⟨rfl, rfl, rfl⟩

theorem exec_write (htop : f.AtTop) {addr size range : Nat} (l : Line fmtWrite [addr, size])
    (d : Data size) (hst : f.store.Shaped) (hr : f.store.writeRange addr size = some range) :
    (f.exec rand (.write addr size l d)).AtTop ∧
    (f.exec rand (.write addr size l d)).reply = f.reply ++ [0] ∧
    (f.exec rand (.write addr size l d)).store = f.store.write range addr d.words := by
  have hone := (hst.writeRange_eq_some.mp hr).2.2.1
  have hhead := feed_writeLine rand htop l
  rw [hr] at hhead
  rw [CchanFlash.exec, Cmd.bytes, feed_append, hhead, feed_data rand rfl rfl hone]
  exact ⟨rfl, rfl, rfl⟩

/-- A read answered from arrays that track a memory exactly answers that memory. -/
theorem reply_read (htop : f.AtTop) (ht : f.store.Tracks m) {a n range : Nat}
    (l : Line fmtRead [a, n]) (h1 : 1 ≤ n) (h64 : n ≤ 64)
    (hr : f.store.layout.getrange a = some range)
    (hsec : f.store.sec (f.store.layout.secaddr range a) ≠ .UNK) :
    (f.feed rand l.bytes).reply = f.reply ++ (unwords (Store.window
      (f.store.page (f.store.layout.pageaddr range a)) (a / 4 % 64) n) ++ [0]) := by
  have hfetch := Store.fetch_known rand f.rands hsec (ht.blank a range hr) h64 (by omega)
  rw [feed_read rand htop l, hr]
  simp only [hfetch, CchanFlash.answer]

/-- In exact arrays the window of a page is a read of the memory. -/
theorem window_eq_read {st : Store} (ht : st.Tracks m) (he : st.Exact m) {a n range : Nat}
    (hcross : a % 256 + 4 * n ≤ 256) (hr : st.layout.getrange a = some range) :
    Store.window (st.page (st.layout.pageaddr range a)) (a / 4 % 64) n = m.read a n := by
  refine List.map_congr_left fun k hk => ?_
  have hk : k < n := List.mem_range.mp hk
  have hsec : a / 4096 = (a + 4 * k) / 4096 := by omega
  have hrk := ht.shaped.aligned.getrange_sector hr hsec
  have hword := ht.word he hrk
  have hpage : st.layout.pageaddr range a = st.layout.pageaddr range (a + 4 * k) :=
    (ht.shaped.aligned.pageaddr_eq_iff hr hrk).mpr (by omega)
  rw [show (a + 4 * k) / 4 = a / 4 + k by omega] at hword
  rw [hpage, show a / 4 % 64 + k = (a / 4 + k) % 64 by omega, hword]

/-- What holds between commands: the arrays track the history, with no gap. -/
def Faithful (h : List Cmd) (f : CchanFlash) : Prop :=
  f.AtTop ∧ f.store.Tracks (lastWritten h) ∧ f.store.Exact (lastWritten h)

theorem Faithful.readsBack (hf : Faithful h f) : ReadsBack rand h f := by
  obtain ⟨htop, ht, he⟩ := hf
  intro a n range l h1 h64 hcross hr hsec
  rw [reply_read rand htop ht l h1 h64 hr hsec, window_eq_read ht he hcross hr]

/-- **Every accepted command keeps the arrays in track with the memory**, gap or no gap. -/
theorem exec_tracks (htop : f.AtTop) (ht : f.store.Tracks m) {c : Cmd} (hacc : c.accepted f.store) :
    (f.exec rand c).AtTop ∧ (f.exec rand c).store.Tracks (c.effect m) := by
  cases c with
  | erase sec l =>
    obtain ⟨range, hr⟩ := hacc
    obtain ⟨h1, _, h3⟩ := exec_erase rand htop l hr
    rw [h3]
    exact ⟨h1, ht.erase hr (by omega)⟩
  | write addr size l d =>
    obtain ⟨range, hr⟩ := hacc
    obtain ⟨h1, _, h3⟩ := exec_write rand htop l d ht.shaped hr
    obtain ⟨hrange, _, _, _, hcross⟩ := ht.shaped.writeRange_eq_some.mp hr
    rw [← d.length] at hcross
    rw [h3]
    exact ⟨h1, ht.write hrange hcross⟩

theorem exec_exact (htop : f.AtTop) (ht : f.store.Tracks m) (he : f.store.Exact m) {c : Cmd}
    (hacc : c.accepted f.store) (hgap : c.gapless f.store) :
    (f.exec rand c).store.Exact (c.effect m) := by
  cases c with
  | erase sec l =>
    obtain ⟨range, hr⟩ := hacc
    rw [(exec_erase rand htop l hr).2.2]
    exact ht.erase_exact he hr (by omega)
  | write addr size l d =>
    obtain ⟨range, hr⟩ := hacc
    obtain ⟨hrange, _, _, _, hcross⟩ := ht.shaped.writeRange_eq_some.mp hr
    rw [← d.length] at hcross
    rw [(exec_write rand htop l d ht.shaped hr).2.2]
    exact ht.write_exact he hrange hcross hgap

theorem Faithful.exec (hf : Faithful h f) {c : Cmd} (hacc : c.accepted f.store)
    (hgap : c.gapless f.store) : Faithful (h ++ [c]) (f.exec rand c) := by
  obtain ⟨htop, ht, he⟩ := hf
  obtain ⟨htop', ht'⟩ := exec_tracks rand htop ht hacc
  rw [Faithful, lastWritten_snoc]
  exact ⟨htop', ht', exec_exact rand htop ht he hacc hgap⟩

/-- A write that leaves a gap is seen by a read of the first word of the gap. -/
theorem Faithful.exec_gap (hf : Faithful h f) {c : Cmd} (hacc : c.accepted f.store)
    (hgap : ¬ c.gapless f.store) : ¬ ReadsBack rand (h ++ [c]) (f.exec rand c) := by
  obtain ⟨htop, ht, _⟩ := hf
  cases c with
  | erase sec l => exact absurd trivial hgap
  | write addr size l d =>
    obtain ⟨range, hr⟩ := hacc
    obtain ⟨h1, _, h3⟩ := exec_write rand htop l d ht.shaped hr
    obtain ⟨hrange, _, _, _, hcross⟩ := ht.shaped.writeRange_eq_some.mp hr
    rw [← d.length] at hcross
    obtain ⟨b, hpage, hb4, hb, hblank, hzero⟩ := ht.write_gap hrange hcross hgap
    have ht' := ht.write hrange hcross
    have hlay : (f.store.write range addr d.words).layout = f.store.layout := by
      rw [ht.shaped.write_arrays hrange d.words]; rfl
    have hbound : b < 2 ^ 32 := by
      have hend := (Layout.getrange_spec hb).2.2
      have := (ht.shaped.aligned.bounds _ (Layout.row_mem hb)).2
      omega
    obtain ⟨l'⟩ : Nonempty (Line fmtRead [b, 1]) := by
      obtain ⟨l', _⟩ := readLine_line b 1
      rw [Nat.mod_eq_of_lt hbound] at l'
      exact ⟨l'⟩
    intro hreads
    have hsec : (f.store.write range addr d.words).sec (f.store.layout.secaddr range b) = .PROG := by
      rw [(ht.shaped.write_at hrange d.words hb).1, if_pos (by omega)]
    have hread := hreads b 1 range l' (le_refl 1) (by decide) (by omega)
      (by rw [h3, hlay]; exact hb) (by rw [h3, hlay, hsec]; decide)
    rw [reply_read rand h1 (h3 ▸ ht') l' (le_refl 1) (by decide) (by rw [h3, hlay]; exact hb)
      (by rw [h3, hlay, hsec]; decide), List.append_cancel_left_eq, lastWritten_snoc, h3, hlay] at hread
    -- the page answers a zero word where the memory is blank
    have hspec : (Cmd.effect (lastWritten h) (.write addr size l d)).read b 1 = [0xffffffff] := by
      simp [Memory.read, Cmd.effect, hblank]
    have hcode : Store.window ((f.store.write range addr d.words).page
        (f.store.layout.pageaddr range b)) (b / 4 % 64) 1 = [0] := by
      simp [Store.window, hzero]
    rw [hspec, hcode] at hread
    revert hread
    decide

end Step

/-! ## §3 — whole command sequences -/

/-- **Flash store refinement, with its exact condition.** After any declaration of disjoint
sector-aligned ranges and along any sequence of accepted erase and write commands, all in-page reads
of known sectors return the words last written (and ones for blank words) at every point of the run
if and only if no write of the run starts past the end of its page vector. -/
theorem flash_store_refinement (rand : Nat → UInt8) {cs : List (Nat × Nat)}
    (hcs : ∀ c ∈ cs, SectorAligned c) (hd : cs.Pairwise Apart) {L : Layout}
    (hL : rangeinit (declare cs) = some L) (addr size rands : Nat) (es : List Cmd)
    (hacc : Throughout (fun f c => c.accepted f.store) (CchanFlash.exec rand)
      (.boot L addr size rands) es) :
    Always (ReadsBack rand) (CchanFlash.exec rand) [] (.boot L addr size rands) es ↔
      Throughout (fun f c => c.gapless f.store) (CchanFlash.exec rand) (.boot L addr size rands) es := by
  have hinit : Faithful [] (.boot L addr size rands) :=
    ⟨rfl, Store.fresh_tracks (rangeinit_aligned hcs hd hL)⟩
  exact always_iff_throughout (I := Faithful) (fun h s hI => hI.readsBack rand)
    (fun h s c hI hacc hgap => hI.exec rand hacc hgap) (fun h s c hI hacc hgap => hI.exec_gap rand hacc hgap)
    es [] _ hinit hacc

/-! ## §4 — the gap, concretely -/

def eraseZero : Cmd := .erase 0 ⟨str "e:0\r", by decide, by decide⟩

/-- One word at the start of the page. -/
def writeFirst : Cmd := .write 0 1 ⟨str "w:0 1\r", by decide, by decide⟩ ⟨[0x11], str "\r", rfl, by decide⟩

/-- One word, three words behind the start of the page. -/
def writeFourth : Cmd := .write 12 1 ⟨str "w:c 1\r", by decide, by decide⟩ ⟨[0x11], str "\r", rfl, by decide⟩

theorem flash_store_refinement_oneSector :
    Always (ReadsBack fun _ => 0) (CchanFlash.exec fun _ => 0) [] (.boot oneSector 0 0 0)
      [eraseZero, writeFirst] := by
  have hcs : ∀ c ∈ [(0, 4095)], SectorAligned c := by
    intro c hc
    obtain rfl : c = (0, 4095) := by simpa using hc
    decide
  refine (flash_store_refinement (fun _ => 0) hcs (by simp) (by decide) 0 0 0
    [eraseZero, writeFirst] ⟨⟨0, by decide⟩, ⟨0, by decide⟩, trivial⟩).mpr ⟨trivial, ?_, trivial⟩
  intro range hr
  decide +revert

/-- **The claim without a condition fails**: after an erase and a write of one word at byte 12, the
blank words in front of it read zero. -/
theorem flash_store_refinement_gap :
    ¬ ∀ (rand : Nat → UInt8) (cs : List (Nat × Nat)), (∀ c ∈ cs, SectorAligned c) →
      cs.Pairwise Apart → ∀ L, rangeinit (declare cs) = some L → ∀ (addr size rands : Nat)
        (es : List Cmd), Throughout (fun f c => c.accepted f.store) (CchanFlash.exec rand)
          (.boot L addr size rands) es →
        Always (ReadsBack rand) (CchanFlash.exec rand) [] (.boot L addr size rands) es := by
  intro hclaim
  have hrun := hclaim (fun _ => 0) [(0, 4095)] (by
      intro c hc
      obtain rfl : c = (0, 4095) := by simpa using hc
      decide) (by simp) oneSector (by decide) 0 0 0 [eraseZero, writeFourth]
    ⟨⟨0, by decide⟩, ⟨0, by decide⟩, trivial⟩
  have hread := hrun.last 0 1 0 ⟨str "r:0 1\r", by decide, by decide⟩ (by decide) (by decide)
    (by decide) (by decide) (by decide)
  revert hread
  decide

end Espmod.Flash
