/-
# Espmod.Flash.Memory — the flash is a memory of words, up to the gaps

The purpose of the module in its own terms: `Memory` maps a word address to the word last written
there since the erase of its 4 kB sector. `Store.Tracks` says the arrays hold every such word, and
`Store.Exact` that they hold nothing else inside a page vector.

Erases keep both. A write keeps `Tracks`, but it keeps `Exact` only if it does not start past the
end of its page vector: `resize` without a fill value puts zeros into the gap, where a blank word
reads `0xffffffff` (`preload` passes that fill value, `flash` does not). So the refinement holds of
a run exactly when every write of it is `gapless` (`flash_store_refinement`).
-/
import Espmod.Flash.Store
import Espmod.Lib.Run

namespace Espmod.Flash

open Espmod.Lib Espmod.Lib.Text Espmod.Lib.Words

/-! ## §1 — the abstract memory -/

/-- The word last written at a word address (a byte address over four) since the last erase of its
sector. -/
abbrev Memory := Nat → Option UInt32

namespace Memory

def blank : Memory := fun _ => none

/-- The erase of the sector of byte address `a`; a sector has 1024 words. -/
def erase (m : Memory) (a : Nat) : Memory := fun w => if a / 4096 = w / 1024 then none else m w

/-- Consecutive words from byte address `a` on. -/
def write (m : Memory) (a : Nat) (ws : List UInt32) : Memory := fun w =>
  if a / 4 ≤ w ∧ w < a / 4 + ws.length then ws[w - a / 4]? else m w

/-- What a read of `n` words at byte address `a` must return. -/
def read (m : Memory) (a n : Nat) : List UInt32 :=
  (List.range n).map fun k => (m (a / 4 + k)).getD 0xffffffff

end Memory

/-! ## §2 — one command on the arrays and on the memory -/

namespace Store

variable {st : Store} {m : Memory} {a b r r' : Nat}

/-- The arrays hold every word of the memory, and only programmed sectors hold any. -/
structure Tracks (st : Store) (m : Memory) : Prop where
  shaped : st.Shaped
  known : ∀ w v, m w = some v → ∃ r, st.layout.getrange (4 * w) = some r
  blank : ∀ a r, st.layout.getrange a = some r → st.sec (st.layout.secaddr r a) ≠ .PROG →
    st.page (st.layout.pageaddr r a) = []
  stored : ∀ a r v, st.layout.getrange a = some r → m (a / 4) = some v →
    (st.page (st.layout.pageaddr r a))[a / 4 % 64]? = some v

/-- No page vector reaches over a blank word. -/
def Exact (st : Store) (m : Memory) : Prop :=
  ∀ a r, st.layout.getrange a = some r → m (a / 4) = none →
    (st.page (st.layout.pageaddr r a))[a / 4 % 64]? = none

theorem Tracks.word (ht : st.Tracks m) (he : st.Exact m) (ha : st.layout.getrange a = some r) :
    (st.page (st.layout.pageaddr r a))[a / 4 % 64]? = m (a / 4) := by
  cases hm : m (a / 4) with
  | none => exact he a r ha hm
  | some v => exact ht.stored a r v ha hm

theorem Tracks.erase (ht : st.Tracks m) (ha : st.layout.getrange a = some r) (ha4 : a % 4096 = 0) :
    (st.erase r a).Tracks (m.erase a) := by
  have hlay : (st.erase r a).layout = st.layout := (ht.shaped.erase_arrays ha ha4 0).1
  refine ⟨ht.shaped.erase_shaped ha ha4, fun w v hv => ?_, fun b r' hb hsec => ?_,
    fun b r' v hb hv => ?_⟩
  · rw [hlay]
    simp only [Memory.erase] at hv
    split at hv
    · simp at hv
    · exact ht.known w v hv
  · rw [hlay] at hb hsec ⊢
    obtain ⟨h1, h2⟩ := ht.shaped.erase_at ha ha4 hb
    rw [h2]
    split
    · rfl
    · rename_i hother
      rw [h1, if_neg hother] at hsec
      exact ht.blank b r' hb hsec
  · rw [hlay] at hb ⊢
    simp only [Memory.erase] at hv
    split at hv
    · simp at hv
    · rename_i hother
      rw [(ht.shaped.erase_at ha ha4 hb).2, if_neg (by omega)]
      exact ht.stored b r' v hb hv

theorem Tracks.erase_exact (ht : st.Tracks m) (he : st.Exact m) (ha : st.layout.getrange a = some r)
    (ha4 : a % 4096 = 0) : (st.erase r a).Exact (m.erase a) := by
  intro b r' hb hm
  rw [(ht.shaped.erase_arrays ha ha4 0).1] at hb ⊢
  rw [(ht.shaped.erase_at ha ha4 hb).2]
  simp only [Memory.erase] at hm
  split
  · simp
  · rw [if_neg (by omega)] at hm
    exact he b r' hb hm

/-- **Write, word by word**: the window is replaced, the rest of its page is what the grown vector
holds, and every other page keeps its words. -/
theorem Allocated.write_word (hst : st.Allocated) (ha : st.layout.getrange a = some r) {ws : List UInt32}
    (hws : a % 256 + 4 * ws.length ≤ 256) (hb : st.layout.getrange b = some r') :
    ((st.write r a ws).page (st.layout.pageaddr r' b))[b / 4 % 64]? =
      if a / 4 ≤ b / 4 ∧ b / 4 < a / 4 + ws.length then ws[b / 4 - a / 4]?
      else if a / 256 = b / 256 then (st.grown r a ws.length)[b / 4 % 64]?
      else (st.page (st.layout.pageaddr r' b))[b / 4 % 64]? := by
  have hroom : a / 4 % 64 + ws.length ≤ (st.grown r a ws.length).length := by
    simp only [grown, List.length_append, List.length_replicate]
    omega
  rw [(hst.write_at ha ws hb).2]
  by_cases hpage : a / 256 = b / 256
  · rw [if_pos hpage, if_pos hpage, getElem?_overlay hroom]
    by_cases hin : a / 4 ≤ b / 4 ∧ b / 4 < a / 4 + ws.length
    · rw [if_pos hin, if_pos (by omega), show b / 4 % 64 - a / 4 % 64 = b / 4 - a / 4 by omega]
    · rw [if_neg hin, if_neg (by omega)]
  · rw [if_neg hpage, if_neg hpage, if_neg (by omega)]

/-- Beyond the old vector and before the window, a grown page holds zeros. -/
theorem grown_getElem? (st : Store) (r a n k : Nat) :
    (st.grown r a n)[k]? =
      if k < (st.page (st.layout.pageaddr r a)).length then (st.page (st.layout.pageaddr r a))[k]?
      else if k < a / 4 % 64 + n then some 0 else none := by
  simp only [grown]
  split
  · rename_i hk
    rw [List.getElem?_append_left hk]
  · rw [List.getElem?_append_right (by omega), List.getElem?_replicate]
    refine if_congr ?_ rfl rfl
    omega

theorem Tracks.write (ht : st.Tracks m) (ha : st.layout.getrange a = some r) {ws : List UInt32}
    (hws : a % 256 + 4 * ws.length ≤ 256) : (st.write r a ws).Tracks (m.write a ws) := by
  have hst := ht.shaped
  have hlay : (st.write r a ws).layout = st.layout := by rw [hst.write_arrays ha ws]; rfl
  refine ⟨hst.write_shaped ha hws, fun w v hv => ?_, fun b r' hb hsec => ?_,
    fun b r' v hb hv => ?_⟩
  · rw [hlay]
    simp only [Memory.write] at hv
    split at hv
    · exact ⟨r, hst.aligned.getrange_sector ha (by omega)⟩
    · exact ht.known w v hv
  · rw [hlay] at hb hsec ⊢
    obtain ⟨h1, h2⟩ := hst.write_at ha ws hb
    rw [h1] at hsec
    split at hsec
    · exact absurd rfl hsec
    · rw [h2, if_neg (by omega)]
      exact ht.blank b r' hb hsec
  · rw [hlay] at hb ⊢
    rw [hst.write_word ha hws hb]
    simp only [Memory.write] at hv
    split
    · rename_i hin
      rwa [if_pos hin] at hv
    · rename_i hout
      rw [if_neg hout] at hv
      have hold := ht.stored b r' v hb hv
      split
      · rename_i hpage
        have hlt := (List.getElem?_eq_some_iff.mp hold).1
        rw [← (hst.aligned.pageaddr_eq_iff ha hb).mpr hpage] at hold hlt
        rw [grown_getElem?, if_pos hlt, hold]
      · exact hold

/-- The condition under which growing a page leaves no gap. -/
def gapless (st : Store) (addr : Nat) : Prop :=
  ∀ r, st.layout.getrange addr = some r →
    st.layout.addrinpage r addr ≤ (st.page (st.layout.pageaddr r addr)).length

theorem Tracks.write_exact (ht : st.Tracks m) (he : st.Exact m)
    (ha : st.layout.getrange a = some r) {ws : List UInt32} (hws : a % 256 + 4 * ws.length ≤ 256)
    (hgap : st.gapless a) : (st.write r a ws).Exact (m.write a ws) := by
  have hst := ht.shaped
  have hreach := hgap r ha
  rw [hst.aligned.addrinpage_eq ha] at hreach
  intro b r' hb hm
  rw [hst.write_arrays ha ws] at hb
  have hlay : (st.write r a ws).layout = st.layout := by rw [hst.write_arrays ha ws]; rfl
  rw [hlay, hst.write_word ha hws hb]
  simp only [Memory.write] at hm
  split
  · rename_i hin
    rwa [if_pos hin] at hm
  · rename_i hout
    rw [if_neg hout] at hm
    have hold := he b r' hb hm
    split
    · rename_i hpage
      rw [← (hst.aligned.pageaddr_eq_iff ha hb).mpr hpage] at hold
      have hge := List.getElem?_eq_none_iff.mp hold
      -- a blank word of the page lies behind the old vector, hence behind the window
      rw [grown_getElem?, if_neg (by omega), if_neg (by omega)]
    · exact hold

/-- What a gap does: the first word behind the old vector was blank and reads zero. -/
theorem Tracks.write_gap (ht : st.Tracks m) (ha : st.layout.getrange a = some r)
    {ws : List UInt32} (hws : a % 256 + 4 * ws.length ≤ 256) (hgap : ¬ st.gapless a) :
    ∃ b, b / 256 = a / 256 ∧ b % 4 = 0 ∧ st.layout.getrange b = some r ∧ (m.write a ws) (b / 4) = none ∧
      ((st.write r a ws).page (st.layout.pageaddr r b))[b / 4 % 64]? = some 0 := by
  have hst := ht.shaped
  have hbehind : (st.page (st.layout.pageaddr r a)).length < a / 4 % 64 := by
    simp only [gapless, not_forall] at hgap
    obtain ⟨r₀, hr₀, hlt⟩ := hgap
    obtain rfl : r = r₀ := Option.some.inj (ha.symm.trans hr₀)
    rw [hst.aligned.addrinpage_eq ha] at hlt
    omega
  generalize hp : (st.page (st.layout.pageaddr r a)).length = p at hbehind
  have hb : st.layout.getrange (a / 256 * 256 + 4 * p) = some r :=
    hst.aligned.getrange_sector ha (by omega)
  have hpage : a / 256 = (a / 256 * 256 + 4 * p) / 256 := by omega
  refine ⟨a / 256 * 256 + 4 * p, hpage.symm, by omega, hb, ?_, ?_⟩
  · simp only [Memory.write]
    rw [if_neg (by omega)]
    by_contra hsome
    obtain ⟨v, hv⟩ := Option.ne_none_iff_exists'.mp hsome
    have hlt := (List.getElem?_eq_some_iff.mp (ht.stored _ r v hb hv)).1
    rw [← (hst.aligned.pageaddr_eq_iff ha hb).mpr hpage] at hlt
    omega
  · rw [hst.write_word ha hws hb, if_neg (by omega), if_pos hpage, grown_getElem?,
      if_neg (by omega), if_pos (by omega)]

/-- The arrays after `rangeinit` hold the blank memory. -/
theorem fresh_tracks {L : Layout} (hL : L.Aligned) :
    (fresh L).Tracks Memory.blank ∧ (fresh L).Exact Memory.blank := by
  have hpage : ∀ i, (fresh L).page i = [] := by
    intro i
    simp only [fresh, page, List.getD_eq_getElem?_getD, List.getElem?_replicate]
    split <;> rfl
  refine ⟨⟨⟨⟨hL, by simp [fresh], by simp [fresh]⟩, fun i => by simp [hpage]⟩,
    fun w v hv => by simp [Memory.blank] at hv, fun a r _ _ => hpage _,
    fun a r v _ hv => by simp [Memory.blank] at hv⟩, fun a r _ _ => by simp [hpage]⟩

end Store

end Espmod.Flash
