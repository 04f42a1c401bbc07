/-
# Espmod.Flash.RoundTrip — what was written through the driver and what comes back

`Reached` are the states of the thread under erase and write commands whose answers the driver may
have read, together with the memory the commands describe. A written buffer comes back exactly when
the driver's two roundings agree with its size, and a stored window comes back exactly when no chunk
of the read crosses a page: the chunks follow the address of the call, not the page boundaries.
-/
import Espmod.Flash.Refinement
import Espmod.Flash.Lockstep

namespace Espmod.Flash

open Espmod.Lib.Text Espmod.Lib.Words

variable {rand : Nat → UInt8} {f f' : CchanFlash} {m : Memory}

/-! ## §1 — reached states -/

/-- The thread after accepted commands, with the memory they describe. -/
inductive Reached (rand : Nat → UInt8) : CchanFlash → Memory → Prop
  | boot {cs : List (Nat × Nat)} {L : Layout} (hcs : ∀ c ∈ cs, SectorAligned c)
      (hd : cs.Pairwise Apart) (hL : rangeinit (declare cs) = some L) (addr size rands : Nat) :
      Reached rand (.boot L addr size rands) .blank
  | exec {f : CchanFlash} {m : Memory} (c : Cmd) :
      Reached rand f m → c.accepted f.store → Reached rand (f.exec rand c) (c.effect m)
  /-- the driver has read what the thread answered -/
  | drain {f : CchanFlash} {m : Memory} : Reached rand f m → Reached rand { f with reply := [] } m

theorem Reached.tracks (h : Reached rand f m) : f.AtTop ∧ f.store.Tracks m := by
  induction h with
  | boot hcs hd hL => exact ⟨rfl, (Store.fresh_tracks (rangeinit_aligned hcs hd hL)).1⟩
  | exec c _ hacc ih => exact exec_tracks rand ih.1 ih.2 hacc
  | drain _ ih => exact ih

/-! ## §2 — one write call -/

/-- **A write call that returns `ESP_OK` has stored its whole words**, and one the thread accepts
returns `ESP_OK`. -/
theorem write_call (rand : Nat → UInt8) (h : f.InStep) {addr : Nat} (haddr : addr < 2 ^ 32)
    (src : Bytes) (hsize : src.length ≤ 256) :
    (∀ range, f.store.writeRange addr (src.length / 4) = some range →
      ∃ f', spiFlashWrite rand f addr src = some (.ESP_OK, f')) ∧
    (∀ f', spiFlashWrite rand f addr src = some (.ESP_OK, f') →
      f'.InStep ∧ ∃ range, f.store.writeRange addr (src.length / 4) = some range ∧
        f'.store = f.store.write range addr (wordsOf src)) := by
  have hlen := wordsOf_length src
  obtain ⟨l, hl⟩ := writeLine_line addr (wordsOf src).length
  obtain ⟨d, hd, hdata⟩ := dataLine_data (wordsOf src)
  have hmod : (wordsOf src).length % 2 ^ 32 = (wordsOf src).length := Nat.mod_eq_of_lt (by omega)
  have hhead := feed_writeLine rand h.1 l
  rw [hl, hmod, Nat.mod_eq_of_lt haddr, hlen] at hhead
  rw [spiFlashWrite_eq, writeRequest, feed_append, hlen, hhead, ← hdata]
  have hempty := h.2
  cases hr : f.store.writeRange addr (src.length / 4) with
  | none =>
    refine ⟨fun range hrange => by simp at hrange, fun f' hrun => ?_⟩
    -- the first byte in the reply is the rejection
    obtain ⟨⟨t, ht⟩, _⟩ := feed_answers
      (f := ({ f with addr := addr, size := src.length / 4 } : CchanFlash).answer [1]) rand
      (by simp [Data.bytes] : d.bytes ≠ [])
    simp only [CchanFlash.answer, hempty, List.nil_append, List.cons_append] at ht hrun
    rw [recvByte_of_reply ht] at hrun
    exact absurd hrun (by simp [retflerr])
  | some range =>
    have hone := (Store.writeRange_size hr).1
    have hfeed := feed_data (f := { f with addr := addr, size := src.length / 4
                                           pc := .wantD range }) rand rfl hlen.symm (by omega) d
    have hreply : (({ f with addr := addr, size := src.length / 4, pc := .wantD range } :
        CchanFlash).feed rand d.bytes).reply = [0] := by
      rw [hfeed]
      simp [CchanFlash.answer, hempty]
    simp only
    rw [recvByte_of_reply hreply, hfeed]
    refine ⟨fun range' _ => ⟨_, rfl⟩, fun f' hrun => ?_⟩
    simp only [Option.map_some, Option.some.injEq, Prod.mk.injEq] at hrun
    obtain ⟨_, rfl⟩ := hrun
    exact ⟨⟨rfl, rfl⟩, range, rfl, by simp [CchanFlash.answer, hd]⟩

/-! ## §3 — one chunk of a read -/

/-- A chunk of a known sector is filled with the window of its page. -/
theorem shortRead_window (rand : Nat → UInt8) (h : f.InStep) (ht : f.store.Tracks m)
    {addr range size : Nat} (haddr : addr < 2 ^ 32) (hpos : 4 ≤ size) (hsize : size ≤ 256)
    (hr : f.store.layout.getrange addr = some range)
    (hsec : f.store.sec (f.store.layout.secaddr range addr) ≠ .UNK) (off : Nat) (dst : Bytes) :
    ∃ f', shortRead rand f addr off size dst = some (.ESP_OK, overlay dst off (unwords
        (Store.window (f.store.page (f.store.layout.pageaddr range addr)) (addr / 4 % 64)
          (size / 4))), f') ∧ f'.InStep ∧ f'.store = f.store := by
  have hfeed := feed_readLine rand h addr hsize
  have hfetch := Store.fetch_known rand f.rands hsec (ht.blank addr range hr)
    (by omega : size / 4 ≤ 64) (by omega)
  rw [Nat.mod_eq_of_lt haddr, hr] at hfeed
  simp only [hfetch] at hfeed
  generalize hbs : unwords (Store.window (f.store.page (f.store.layout.pageaddr range addr))
    (addr / 4 % 64) (size / 4)) = bs at hfeed
  have hlen : bs.length = 4 * (size / 4) := by rw [← hbs]; simp
  have hreply : (f.feed rand (readLine addr (size / 4))).reply = bs ++ [0] := by
    rw [hfeed]
    simp [CchanFlash.answer, h.2]
  have hne : size ≠ 0 := by omega
  refine ⟨{ f.feed rand (readLine addr (size / 4)) with reply := [] }, ?_, ?_, ?_⟩
  · simp [shortRead, hne, recvWords_of_reply hlen hreply, CchanFlash.recvByte, retflerr]
  · exact ⟨by rw [hfeed]; rfl, rfl⟩
  · rw [hfeed]
    rfl

/-- All bytes of a window are stored. -/
def Memory.Covers (m : Memory) (addr size : Nat) : Prop :=
  ∀ w, addr / 4 ≤ w → 4 * w < addr + size → ∃ v, m w = some v

/-- The bytes a read of a window must return. -/
def Memory.bytes (m : Memory) (addr size : Nat) : Bytes :=
  (unwords (m.read addr ((size + 3) / 4))).take size

theorem Memory.read_append (m : Memory) (addr j k : Nat) :
    m.read addr (j + k) = m.read addr j ++ m.read (addr + 4 * j) k := by
  simp only [Memory.read, List.range_add, List.map_append, List.map_map]
  congr 1
  refine List.map_congr_left fun i _ => ?_
  simp only [Function.comp_apply]
  rw [show (addr + 4 * j) / 4 = addr / 4 + j by omega, Nat.add_assoc]

theorem Memory.bytes_of_dvd (m : Memory) (addr : Nat) {size : Nat} (h : size % 4 = 0) :
    m.bytes addr size = unwords (m.read addr (size / 4)) := by
  have hlen : (unwords (m.read addr (size / 4))).length = size := by
    simp only [unwords_length, Memory.read, List.length_map, List.length_range]
    omega
  rw [Memory.bytes, show (size + 3) / 4 = size / 4 by omega]
  exact List.take_of_length_le (by omega)

/-- The sector of a stored word has been written. -/
theorem tracks_known {st : Store} (ht : st.Tracks m) {addr : Nat} (ha4 : addr % 4 = 0) {v : UInt32}
    (hv : m (addr / 4) = some v) : ∃ range, st.layout.getrange addr = some range ∧
      st.sec (st.layout.secaddr range addr) ≠ .UNK ∧ addr < 2 ^ 32 := by
  obtain ⟨range, hr⟩ := ht.known _ v hv
  rw [show 4 * (addr / 4) = addr by omega] at hr
  refine ⟨range, hr, fun hunk => ?_, ?_⟩
  · have hstored := ht.stored addr range v hr hv
    rw [ht.blank addr range hr (by rw [hunk]; decide)] at hstored
    simp at hstored
  · have hend := (Layout.getrange_spec hr).2.2
    have := (ht.shaped.aligned.bounds _ (Layout.row_mem hr)).2
    omega

/-- In a covered window of one page the vector holds the words of the memory. -/
theorem window_covered {st : Store} (ht : st.Tracks m) {addr range size : Nat}
    (hr : st.layout.getrange addr = some range) (hcross : addr % 256 + 4 * (size / 4) ≤ 256)
    (hcov : m.Covers addr size) :
    Store.window (st.page (st.layout.pageaddr range addr)) (addr / 4 % 64) (size / 4) =
      m.read addr (size / 4) := by
  refine List.map_congr_left fun k hk => ?_
  have hk : k < size / 4 := List.mem_range.mp hk
  obtain ⟨v, hv⟩ := hcov (addr / 4 + k) (by omega) (by omega)
  have hrk := ht.shaped.aligned.getrange_sector (b := addr + 4 * k) hr (by omega)
  have hstored := ht.stored (addr + 4 * k) range v hrk (by
    rw [show (addr + 4 * k) / 4 = addr / 4 + k by omega]; exact hv)
  have hpage : st.layout.pageaddr range addr = st.layout.pageaddr range (addr + 4 * k) :=
    (ht.shaped.aligned.pageaddr_eq_iff hr hrk).mpr (by omega)
  rw [hpage, show addr / 4 % 64 + k = (addr + 4 * k) / 4 % 64 by omega, hstored, hv]

/-- **A covered chunk inside one page comes back.** -/
theorem shortRead_covered (rand : Nat → UInt8) (h : f.InStep) (ht : f.store.Tracks m)
    {addr size : Nat} (ha4 : addr % 4 = 0) (hpos : 4 ≤ size)
    (hcross : addr % 256 + size ≤ 256) (hcov : m.Covers addr size) (off : Nat) (dst : Bytes) :
    ∃ f', shortRead rand f addr off size dst =
        some (.ESP_OK, overlay dst off (unwords (m.read addr (size / 4))), f') ∧
      f'.InStep ∧ f'.store = f.store := by
  obtain ⟨v, hv⟩ := hcov (addr / 4) (le_refl _) (by omega)
  obtain ⟨range, hr, hsec, hbound⟩ := tracks_known ht ha4 hv
  rw [← window_covered ht hr (by omega) hcov]
  exact shortRead_window rand h ht hbound hpos (by omega) hr hsec off dst

/-! ## §4 — the chunks of a long read -/

theorem overlay_take (dst bs : Bytes) (off : Nat) (h : off + bs.length ≤ dst.length) :
    (overlay dst off bs).take (off + bs.length) = dst.take off ++ bs := by
  have hlen : (dst.take off ++ bs).length = off + bs.length := by
    simp only [List.length_append, List.length_take]
    omega
  rw [overlay, ← hlen, List.take_left]

/-- **A covered window that starts a page comes back, whatever its length**, as long as it is a
whole number of words. -/
theorem readChunks_covered (size : Nat) : ∀ (f : CchanFlash) (addr off : Nat) (dst : Bytes),
    f.InStep → f.store.Tracks m → addr % 256 = 0 → size % 4 = 0 → m.Covers addr size →
    off + size ≤ dst.length → ∃ dst' f',
      readChunks rand f addr off size dst = some (.ESP_OK, dst', f') ∧
        dst'.take (off + size) = dst.take off ++ unwords (m.read addr (size / 4)) := by
  induction size using Nat.strong_induction_on with
  | _ size ih =>
    intro f addr off dst h ht ha hs hcov hroom
    have hread : ∀ k, (unwords (m.read addr k)).length = 4 * k := fun k => by simp [Memory.read]
    rw [readChunks]
    by_cases hlong : 256 < size
    · have hcov' : m.Covers addr 256 := fun w hlo hhi => hcov w hlo (by omega)
      obtain ⟨f', hrun, hin, hst⟩ :=
        shortRead_covered rand h ht (by omega) (by decide) (by omega) hcov' off dst
      have hlen := hread (256 / 4)
      have hfit : off + (unwords (m.read addr (256 / 4))).length ≤ dst.length := by omega
      obtain ⟨dst', f'', hrun', htake⟩ := ih (size - 256) (by omega) f' (addr + 256) (off + 256)
        (overlay dst off (unwords (m.read addr (256 / 4)))) hin (hst ▸ ht) (by omega) (by omega)
        (fun w hlo hhi => hcov w (by omega) (by omega)) (by rw [overlay_length hfit]; omega)
      rw [if_pos hlong, hrun]
      refine ⟨dst', f'', hrun', ?_⟩
      have hfirst := overlay_take _ _ _ hfit
      rw [show (unwords (m.read addr (256 / 4))).length = 256 by omega] at hfirst
      rw [show off + size = off + 256 + (size - 256) by omega, htake, hfirst, List.append_assoc,
        ← unwords_append, show addr + 256 = addr + 4 * (256 / 4) by omega, ← Memory.read_append,
        show 256 / 4 + (size - 256) / 4 = size / 4 by omega]
    · rw [if_neg hlong]
      by_cases hzero : size = 0
      · subst hzero
        exact ⟨dst, f, by simp [shortRead], by simp [Memory.read]⟩
      · obtain ⟨f', hrun, hin, hst⟩ :=
          shortRead_covered rand h ht (by omega) (by omega) (by omega) hcov off dst
        have hlen := hread (size / 4)
        refine ⟨_, f', hrun, ?_⟩
        have hlast := overlay_take dst (unwords (m.read addr (size / 4))) off (by omega)
        rwa [show (unwords (m.read addr (size / 4))).length = size by omega] at hlast

/-- A short read writes whole words from its offset on, and nothing else. -/
theorem shortRead_frame {addr off size : Nat} {dst dst' : Bytes} {resp : EspErr}
    (hrun : shortRead rand f addr off size dst = some (resp, dst', f'))
    (hroom : off + size ≤ dst.length) {i : Nat} (hi : i < off ∨ off + 4 * (size / 4) ≤ i) :
    dst'[i]? = dst[i]? ∧ dst'.length = dst.length := by
  by_cases hzero : size = 0
  · simp only [shortRead, hzero, if_true, Option.some.injEq, Prod.mk.injEq] at hrun
    rw [hrun.2.1]
    exact ⟨rfl, rfl⟩
  · simp only [shortRead, hzero, if_false, CchanFlash.recvWords] at hrun
    split at hrun
    · rename_i hle
      simp only [Option.bind_eq_bind, Option.bind_some, Option.bind_eq_some_iff] at hrun
      obtain ⟨⟨code, f''⟩, _, heq⟩ := hrun
      simp only [Option.pure_def, Option.some.injEq, Prod.mk.injEq] at heq
      obtain ⟨_, rfl, _⟩ := heq
      have hlen : (List.take (4 * (size / 4)) (f.feed rand (readLine addr (size / 4))).reply).length =
          4 * (size / 4) := by
        rw [List.length_take]
        omega
      have hfit : off + (List.take (4 * (size / 4))
          (f.feed rand (readLine addr (size / 4))).reply).length ≤ dst.length := by omega
      refine ⟨?_, overlay_length hfit⟩
      rw [getElem?_overlay hfit, if_neg (by omega)]
    · simp at hrun

/-- So does a read of any length. -/
theorem readChunks_frame (size : Nat) : ∀ (f f' : CchanFlash) (addr off : Nat) (dst dst' : Bytes)
    (resp : EspErr), readChunks rand f addr off size dst = some (resp, dst', f') →
    off + size ≤ dst.length → ∀ i, i < off ∨ off + 4 * (size / 4) ≤ i → dst'[i]? = dst[i]? := by
  induction size using Nat.strong_induction_on with
  | _ size ih =>
    intro f f' addr off dst dst' resp hrun hroom i hi
    rw [readChunks] at hrun
    split at hrun
    · rename_i hlong
      split at hrun
      · simp at hrun
      · rename_i resp₁ dst₁ f₁ hfirst
        obtain ⟨h1, hlen⟩ := shortRead_frame hfirst (by omega) (i := i) (by omega)
        split at hrun
        · rw [← h1]
          exact ih (size - 256) (by omega) f₁ f' _ _ dst₁ dst' resp hrun (by omega) i (by omega)
        · simp only [Option.some.injEq, Prod.mk.injEq] at hrun
          rw [← h1, hrun.2.1]
    · exact (shortRead_frame hrun hroom hi).1

/-! ## §5 — states for the failing side -/

/-- The first sector and the rest of the address space: every 32-bit address is in range. -/
def wholeChip : Layout := ⟨[⟨0, 4095, 0⟩, ⟨4096, 2 ^ 32 - 1, 1⟩], 2 ^ 20⟩

theorem wholeChip_getrange {a : Nat} (h : a < 2 ^ 32) : ∃ r, wholeChip.getrange a = some r := by
  simp only [wholeChip, Layout.getrange, getrangeFrom]
  by_cases hlow : a ≤ 4095
  · exact ⟨0, by simp [hlow]⟩
  · exact ⟨1, by rw [if_neg (by omega), if_neg hlow, if_neg (by omega), if_pos (by omega)]⟩

theorem wholeChip_reached (rand : Nat → UInt8) : Reached rand (.boot wholeChip 0 0 0) .blank := by
  refine @Reached.boot rand [(0, 4095), (4096, 2 ^ 32 - 1)] wholeChip ?_ ?_ (by decide) 0 0 0
  · intro c hc
    simp only [List.mem_cons, List.not_mem_nil, or_false] at hc
    rcases hc with rfl | rfl <;> decide
  · simp [Apart]

/-- The arrays' layout and whether a sector is known, along commands. -/
theorem exec_known (rand : Nat → UInt8) (htop : f.AtTop) (ht : f.store.Tracks m) {c : Cmd}
    (hacc : c.accepted f.store) : (f.exec rand c).store.layout = f.store.layout ∧
    ∀ b r, f.store.layout.getrange b = some r →
      f.store.sec (f.store.layout.secaddr r b) ≠ .UNK →
      (f.exec rand c).store.sec (f.store.layout.secaddr r b) ≠ .UNK := by
  cases c with
  | erase sec l =>
    obtain ⟨range, hr⟩ := hacc
    have ha4 : sec * 4096 % 2 ^ 32 % 4096 = 0 := by omega
    rw [(exec_erase rand htop l hr).2.2]
    refine ⟨(ht.shaped.erase_arrays hr ha4 0).1, fun b r hb hsec => ?_⟩
    rw [(ht.shaped.erase_at hr ha4 hb).1]
    split
    · decide
    · exact hsec
  | write addr size l d =>
    obtain ⟨range, hr⟩ := hacc
    have hrange := (ht.shaped.writeRange_eq_some.mp hr).1
    rw [(exec_write rand htop l d ht.shaped hr).2.2]
    refine ⟨by rw [ht.shaped.write_arrays hrange d.words]; rfl, fun b r hb hsec => ?_⟩
    rw [(ht.shaped.write_at hrange d.words hb).1]
    split
    · decide
    · exact hsec

/-- An erase of any sector of the whole chip, as the driver spells it. -/
theorem reached_erase (h : Reached rand f m) (hL : f.store.layout = wholeChip) {s : Nat}
    (hs : s < 2 ^ 20) : ∃ f', Reached rand f' (m.erase (4096 * s)) ∧ f'.store.layout = wholeChip ∧
      ∀ a r, a / 4096 = s → wholeChip.getrange a = some r →
        f'.store.sec (wholeChip.secaddr r a) = .ERS := by
  obtain ⟨htop, ht⟩ := h.tracks
  obtain ⟨l, _⟩ := eraseLine_line s
  rw [Nat.mod_eq_of_lt (by omega)] at l
  have haddr : s * 4096 % 2 ^ 32 = 4096 * s := by omega
  obtain ⟨range, hr⟩ := wholeChip_getrange (a := 4096 * s) (by omega)
  have hr' : f.store.layout.getrange (s * 4096 % 2 ^ 32) = some range := by rw [hL, haddr, hr]
  have hacc : (Cmd.erase s l).accepted f.store := ⟨range, hr'⟩
  have hreach := Reached.exec _ h hacc
  simp only [Cmd.effect, haddr] at hreach
  refine ⟨_, hreach, (exec_known rand htop ht hacc).1.trans hL, fun a r ha hra => ?_⟩
  rw [(exec_erase rand htop l hr').2.2, ← hL]
  rw [← hL] at hra
  rw [(ht.shaped.erase_at hr' (by omega) hra).1, if_pos (by omega)]

/-- A whole page of zeros, in a sector that is known. -/
theorem reached_page (h : Reached rand f m) (hL : f.store.layout = wholeChip) {a : Nat}
    (ha : a % 256 = 0) (hbound : a < 2 ^ 32)
    (hsec : ∀ r, wholeChip.getrange a = some r → f.store.sec (wholeChip.secaddr r a) ≠ .UNK) :
    ∃ f', Reached rand f' (m.write a (List.replicate 64 0)) ∧ f'.store.layout = wholeChip ∧
      ∀ b r, wholeChip.getrange b = some r → f.store.sec (wholeChip.secaddr r b) ≠ .UNK →
        f'.store.sec (wholeChip.secaddr r b) ≠ .UNK := by
  obtain ⟨htop, ht⟩ := h.tracks
  obtain ⟨l, _⟩ := writeLine_line a 64
  rw [Nat.mod_eq_of_lt hbound] at l
  obtain ⟨range, hr⟩ := wholeChip_getrange hbound
  have hacc : f.store.writeRange a 64 = some range := by
    refine ht.shaped.writeRange_eq_some.mpr ⟨by rw [hL, hr], ?_, by decide, by decide, by omega⟩
    rw [hL]
    exact hsec range hr
  let d : Data 64 := ⟨List.replicate 64 0, [], rfl, by simp⟩
  have hacc' : (Cmd.write a 64 l d).accepted f.store := ⟨range, hacc⟩
  have hkeep := exec_known rand htop ht hacc'
  rw [hL] at hkeep
  exact ⟨_, .exec _ h hacc', hkeep⟩

/-- Zeros in the first `j` pages of sector `s`, behind `s` sectors of zeros. -/
theorem reached_zero_pages (rand : Nat → UInt8) {s : Nat} (hs : s < 2 ^ 20) (j : Nat) (hj : j ≤ 16)
    (h : ∃ f m, Reached rand f m ∧ f.store.layout = wholeChip ∧ (∀ w < 1024 * s, m w = some 0) ∧
      ∀ a r, a / 4096 = s → wholeChip.getrange a = some r →
        f.store.sec (wholeChip.secaddr r a) ≠ .UNK) :
    ∃ f m, Reached rand f m ∧ f.store.layout = wholeChip ∧ (∀ w < 1024 * s + 64 * j, m w = some 0) ∧
      ∀ a r, a / 4096 = s → wholeChip.getrange a = some r →
        f.store.sec (wholeChip.secaddr r a) ≠ .UNK := by
  induction j with
  | zero => simpa using h
  | succ j ih =>
    obtain ⟨f, m, hreach, hL, hzero, hsec⟩ := ih (by omega)
    obtain ⟨f', hreach', hL', hkeep⟩ := reached_page hreach hL (a := 4096 * s + 256 * j) (by omega)
      (by omega) fun r hr => hsec _ r (by omega) hr
    refine ⟨f', _, hreach', hL', fun w hw => ?_, fun a r ha hr => hkeep a r hr (hsec a r ha hr)⟩
    simp only [Memory.write, List.length_replicate]
    split
    · rw [List.getElem?_replicate, if_pos (by omega)]
    · exact hzero w (by omega)

/-- Zeros in the first `s` sectors. -/
theorem reached_zeros (rand : Nat → UInt8) (s : Nat) (hs : s ≤ 2 ^ 20) :
    ∃ f m, Reached rand f m ∧ f.store.layout = wholeChip ∧ ∀ w < 1024 * s, m w = some 0 := by
  induction s with
  | zero => exact ⟨_, _, wholeChip_reached rand, rfl, fun w hw => by omega⟩
  | succ s ih =>
    obtain ⟨f, m, hreach, hL, hzero⟩ := ih (by omega)
    obtain ⟨f', hreach', hL', hsec⟩ := reached_erase (s := s) hreach hL (by omega)
    have hpages := reached_zero_pages rand (s := s) (by omega) 16 (le_refl 16)
      ⟨f', _, hreach', hL', fun w hw => by
        simp only [Memory.erase]
        rw [if_neg (by omega)]
        exact hzero w hw, fun a r ha hr => by rw [hsec a r ha hr]; decide⟩
    obtain ⟨f'', m'', hreach'', hL'', hzero'', _⟩ := hpages
    exact ⟨f'', m'', hreach'', hL'', fun w hw => hzero'' w (by omega)⟩

/-! ## §6 — the round trips -/

/-- **Write, then read**: every buffer of `n` bytes written into an erased sector at `a` and reported
`ESP_OK` by both calls comes back. -/
def WriteReads (rand : Nat → UInt8) (a n : Nat) : Prop :=
  ∀ (f : CchanFlash) (m : Memory) (range : Nat) (src dst : Bytes), Reached rand f m → f.InStep →
    f.store.layout.getrange a = some range →
    f.store.sec (f.store.layout.secaddr range a) = .ERS → src.length = n → n ≤ dst.length →
    ∀ f₁ dst' f₂, spiFlashWrite rand f a src = some (.ESP_OK, f₁) →
      spiFlashRead rand f₁ a n dst = some (.ESP_OK, dst', f₂) → dst'.take n = src

/-- **Window reads**: any stored window of `n` bytes at `a` is returned. -/
def WindowReads (rand : Nat → UInt8) (a n : Nat) : Prop :=
  ∀ (f : CchanFlash) (m : Memory) (dst : Bytes), Reached rand f m → f.InStep → n ≤ dst.length →
    m.Covers a n → ∃ dst' f',
      spiFlashRead rand f a n dst = some (.ESP_OK, dst', f') ∧ dst'.take n = m.bytes a n

/-- What was just written is what the memory reads. -/
theorem Memory.write_read (m : Memory) (a : Nat) (ws : List UInt32) :
    (m.write a ws).read a ws.length = ws := by
  apply List.ext_getElem?
  intro k
  by_cases hk : k < ws.length
  · simp [Memory.read, Memory.write, hk]
  · rw [List.getElem?_eq_none (by simp [Memory.read]; omega), List.getElem?_eq_none (by omega)]

theorem writeReads_whole {a n : Nat} (ha4 : a % 4 = 0) (hn : 1 ≤ n) (hcross : a % 256 + n ≤ 256)
    (hbound : a + n ≤ 2 ^ 32) (h4 : n % 4 = 0) : WriteReads rand a n := by
  intro f m range src dst hreach hin hr _ hsrc hdst f₁ dst' f₂ hwrite hread
  obtain ⟨_, ht⟩ := hreach.tracks
  obtain ⟨hin₁, range', hacc, hstore⟩ :=
    (write_call rand hin (by omega) src (by omega)).2 f₁ hwrite
  have hlen := wordsOf_length src
  have ht₁ : f₁.store.Tracks (m.write a (wordsOf src)) := by
    rw [hstore]
    exact ht.write (ht.shaped.writeRange_eq_some.mp hacc).1 (by omega)
  have hcov : (m.write a (wordsOf src)).Covers a n := by
    intro w hlo hhi
    have hw : a / 4 ≤ w ∧ w < a / 4 + (wordsOf src).length := by omega
    rw [Memory.write, if_pos hw]
    exact ⟨_, List.getElem?_eq_getElem (by omega)⟩
  obtain ⟨f', hrun, _⟩ := shortRead_covered rand hin₁ ht₁ ha4 (by omega) hcross hcov 0 dst
  rw [spiFlashRead_eq, readChunks, if_neg (by omega), hrun] at hread
  simp only [Option.some.injEq, Prod.mk.injEq, true_and] at hread
  have hback := Memory.write_read m a (wordsOf src)
  rw [hlen, hsrc] at hback
  have hbytes : unwords (wordsOf src) = src := by
    rw [unwords_wordsOf]
    exact List.take_of_length_le (by omega)
  rw [hback, hbytes] at hread
  have htake := overlay_take dst src 0 (by omega)
  rw [← hread.1]
  simpa [hsrc] using htake

/-- Buffers of less than a word are never accepted. -/
theorem writeReads_small {a n : Nat} (hbound : a + n ≤ 2 ^ 32) (hn : 1 ≤ n) (h4 : n < 4) :
    WriteReads rand a n := by
  intro f m range src dst _ hin _ _ hsrc _ f₁ dst' f₂ hwrite _
  obtain ⟨_, range', hacc, _⟩ := (write_call rand hin (by omega) src (by omega)).2 f₁ hwrite
  have := Store.writeRange_size hacc
  omega

/-- The bytes that do not fill a word are not written to the buffer. -/
theorem writeReads_rest {a n : Nat} (ha4 : a % 4 = 0) (hcross : a % 256 + n ≤ 256)
    (hbound : a + n ≤ 2 ^ 32) (h4 : n % 4 ≠ 0) (hn : 4 ≤ n) : ¬ WriteReads rand a n := by
  intro hclaim
  obtain ⟨f, hreach, hL, hers⟩ :=
    reached_erase (s := a / 4096) (wholeChip_reached rand) rfl (by omega)
  obtain ⟨range, hr⟩ := wholeChip_getrange (a := a) (by omega)
  have hers := hers a range rfl hr
  rw [← hL] at hr hers
  have hreach := hreach.drain
  obtain ⟨htop, ht⟩ := hreach.tracks
  have hin : ({ f with reply := [] } : CchanFlash).InStep := ⟨htop, rfl⟩
  have hlen : (List.replicate n (0 : UInt8)).length = n := List.length_replicate
  have hacc : f.store.writeRange a ((List.replicate n (0 : UInt8)).length / 4) = some range :=
    ht.shaped.writeRange_eq_some.mpr ⟨hr, by rw [hers]; decide, by omega, by omega, by omega⟩
  obtain ⟨hok, hdone⟩ := write_call rand hin (by omega : a < 2 ^ 32) (List.replicate n 0) (by omega)
  obtain ⟨f₁, hwrite⟩ := hok range hacc
  obtain ⟨hin₁, range', hacc', hstore⟩ := hdone f₁ hwrite
  have hwords := wordsOf_length (List.replicate n (0 : UInt8))
  have hrange := (ht.shaped.writeRange_eq_some.mp hacc').1
  have ht₁ := ht.write hrange
    (by omega : a % 256 + 4 * (wordsOf (List.replicate n (0 : UInt8))).length ≤ 256)
  have hlay : f₁.store.layout = f.store.layout := by
    rw [hstore, ht.shaped.write_arrays hrange]
    rfl
  have hsec₁ : f₁.store.sec (f₁.store.layout.secaddr range' a) ≠ .UNK := by
    rw [hlay, hstore, (ht.shaped.write_at hrange _ hrange).1, if_pos rfl]
    decide
  rw [← hstore] at ht₁
  obtain ⟨f₂, hrun, _⟩ := shortRead_window rand hin₁ ht₁ (by omega) (by omega : 4 ≤ n) (by omega)
    (by rw [hlay]; exact hrange) hsec₁ 0 (List.replicate n 0xff)
  have hback := hclaim _ _ range (List.replicate n 0) (List.replicate n 0xff) hreach hin hr hers hlen
    (by simp) f₁ _ f₂ hwrite
    (by rw [spiFlashRead_eq, readChunks, if_neg (by omega)]; exact hrun)
  -- the last byte of the buffer is still what the caller had there
  have hlast := (shortRead_frame hrun (by simp) (i := n - 1) (by omega)).1
  have hn1 : n - 1 < n := by omega
  rw [List.getElem?_replicate, if_pos hn1, ← List.getElem?_take_of_lt hn1, hback,
    List.getElem?_replicate, if_pos hn1] at hlast
  exact absurd hlast (by decide)

theorem windowReads_good {a n : Nat} (ha4 : a % 4 = 0) (h4 : n % 4 = 0)
    (hshort : n ≤ 256 → a % 256 + n ≤ 256) (hlong : 256 < n → a % 256 = 0) :
    WindowReads rand a n := by
  intro f m dst hreach hin hdst hcov
  obtain ⟨_, ht⟩ := hreach.tracks
  rw [spiFlashRead_eq, Memory.bytes_of_dvd m a h4]
  by_cases hpage : a % 256 = 0
  · obtain ⟨dst', f', hrun, htake⟩ :=
      readChunks_covered n f a 0 dst hin ht hpage h4 hcov (by omega)
    exact ⟨dst', f', hrun, by simpa using htake⟩
  · have hsmall : ¬ 256 < n := fun h => hpage (hlong h)
    rw [readChunks, if_neg hsmall]
    by_cases hzero : n = 0
    · exact ⟨dst, f, by simp [shortRead, hzero], by simp [hzero, Memory.read]⟩
    · obtain ⟨f', hrun, _⟩ :=
        shortRead_covered rand hin ht ha4 (by omega) (hshort (by omega)) hcov 0 dst
      have hlen : (unwords (m.read a (n / 4))).length = n := by
        simp only [unwords_length, Memory.read, List.length_map, List.length_range]
        omega
      have htake := overlay_take dst (unwords (m.read a (n / 4))) 0 (by omega)
      rw [hlen] at htake
      exact ⟨_, f', hrun, by simpa using htake⟩

/-- Behind the page end a crossing chunk is filled with ones. -/
theorem shortRead_crossing (rand : Nat → UInt8) (hin : f.InStep) (ht : f.store.Tracks m) {a s : Nat} (ha4 : a % 4 = 0)
    (hs : s ≤ 256) (hcross : 256 < a % 256 + s) (hs4 : s % 4 = 0) (hcov : m.Covers a s)
    {dst : Bytes} (hroom : s ≤ dst.length) :
    ∃ dst₁ f₁, shortRead rand f a 0 s dst = some (.ESP_OK, dst₁, f₁) ∧
      dst₁[4 * (64 - a / 4 % 64)]? = some 0xff := by
  obtain ⟨v, hv⟩ := hcov (a / 4) (le_refl _) (by omega)
  obtain ⟨range, hr, hsec, hbound⟩ := tracks_known ht ha4 hv
  obtain ⟨f₁, hrun, _⟩ := shortRead_window rand hin ht hbound (by omega : 4 ≤ s) hs hr hsec 0 dst
  refine ⟨_, f₁, hrun, ?_⟩
  have hlen : (unwords (Store.window (f.store.page (f.store.layout.pageaddr range a)) (a / 4 % 64)
      (s / 4))).length = s := by
    simp only [unwords_length, Store.window_length]
    omega
  have hbeyond : (f.store.page (f.store.layout.pageaddr range a))[64]? = none :=
    List.getElem?_eq_none (ht.shaped.pages _)
  have hk : 64 - a / 4 % 64 < s / 4 := by omega
  rw [getElem?_overlay (by omega), if_pos (by omega), Nat.sub_zero, getElem?_unwords]
  simp only [Store.window, List.getElem?_map, List.getElem?_range hk, Option.map_some]
  rw [show a / 4 % 64 + (64 - a / 4 % 64) = 64 by omega, hbeyond]
  rfl

theorem windowReads_bad {a n : Nat} (ha4 : a % 4 = 0) (hbound : a + n ≤ 2 ^ 32)
    (hbad : n % 4 ≠ 0 ∨ 256 < a % 256 + min 256 n) : ¬ WindowReads rand a n := by
  intro hclaim
  obtain ⟨f, m, hreach, _, hzero⟩ := reached_zeros rand (2 ^ 20) (le_refl _)
  have hreach := hreach.drain
  obtain ⟨htop, ht⟩ := hreach.tracks
  have hcov : ∀ k ≤ n, m.Covers a k := fun k hk w hlo hhi => ⟨0, hzero w (by omega)⟩
  have hin : ({ f with reply := [] } : CchanFlash).InStep := ⟨htop, rfl⟩
  obtain ⟨dst', f', hrun, htake⟩ :=
    hclaim _ m (List.replicate n 0xff) hreach hin (by simp) (hcov n (le_refl n))
  -- the memory holds zeros only, the buffer ones: any byte left or filled wrongly shows
  have hread : m.read a ((n + 3) / 4) = List.replicate ((n + 3) / 4) 0 := by
    refine List.eq_replicate_iff.mpr ⟨by simp [Memory.read], fun w hw => ?_⟩
    obtain ⟨k, hk, rfl⟩ := List.mem_map.mp hw
    have hk := List.mem_range.mp hk
    rw [hzero (a / 4 + k) (by omega)]
    rfl
  have hzeros : ∀ i < n, dst'[i]? = some 0 := by
    intro i hi
    rw [← List.getElem?_take_of_lt hi, htake, Memory.bytes, hread, unwords_replicate_zero,
      List.take_replicate, List.getElem?_replicate, if_pos (by omega)]
  rw [spiFlashRead_eq] at hrun
  have hones : ∃ i < n, dst'[i]? = some 0xff := by
    by_cases h4 : n % 4 = 0
    · have hcross : 256 < a % 256 + min 256 n := hbad.resolve_left fun h => h h4
      obtain ⟨dst₁, f₁, hrun₁, hone⟩ := shortRead_crossing rand hin ht ha4
        (by omega : min 256 n ≤ 256) hcross (by omega) (hcov _ (by omega))
        (by simp : min 256 n ≤ (List.replicate n (0xff : UInt8)).length)
      refine ⟨4 * (64 - a / 4 % 64), by omega, ?_⟩
      rw [readChunks] at hrun
      by_cases hlong : 256 < n
      · rw [Nat.min_eq_left (by omega)] at hrun₁
        rw [if_pos hlong, hrun₁] at hrun
        have hlen := (shortRead_frame hrun₁ (by simp; omega) (i := 256) (by omega)).2
        rw [← hone]
        exact readChunks_frame _ _ _ _ _ _ _ _ hrun (by rw [hlen, List.length_replicate]; omega) _
          (by omega)
      · rw [Nat.min_eq_right (by omega)] at hrun₁
        rw [if_neg hlong, hrun₁] at hrun
        simp only [Option.some.injEq, Prod.mk.injEq, true_and] at hrun
        rw [← hrun.1, hone]
    · refine ⟨n - 1, by omega, ?_⟩
      rw [readChunks_frame n _ _ _ _ _ _ _ hrun (by simp) (n - 1) (by omega),
        List.getElem?_replicate, if_pos (by omega)]
  obtain ⟨i, hi, hone⟩ := hones
  rw [hzeros i hi] at hone
  exact absurd hone (by decide)

/-- **The driver's round trips, with their exact conditions.** A buffer inside one page comes back
whatever it holds exactly when its size is a multiple of four (or less than a word, and then the
write is never accepted); a stored window comes back in every state exactly when its size is a
multiple of four and no chunk of it crosses a page. -/
theorem flash_round_trip (rand : Nat → UInt8) :
    (∀ a n, a % 4 = 0 → 1 ≤ n → a % 256 + n ≤ 256 → a + n ≤ 2 ^ 32 →
      (WriteReads rand a n ↔ n % 4 = 0 ∨ n < 4)) ∧
    (∀ a n, a % 4 = 0 → a + n ≤ 2 ^ 32 →
      (WindowReads rand a n ↔
        n % 4 = 0 ∧ (n ≤ 256 → a % 256 + n ≤ 256) ∧ (256 < n → a % 256 = 0))) := by
  refine ⟨fun a n ha4 hn hcross hbound => ⟨fun h => ?_, fun h => ?_⟩,
    fun a n ha4 hbound => ⟨fun h => ?_, fun h => ?_⟩⟩
  · by_contra hbad
    simp only [not_or, not_lt] at hbad
    exact writeReads_rest ha4 hcross hbound hbad.1 hbad.2 h
  · rcases h with h4 | hsmall
    · exact writeReads_whole ha4 hn hcross hbound h4
    · exact writeReads_small hbound hn hsmall
  · by_contra hbad
    exact windowReads_bad ha4 hbound (by omega) h
  · exact windowReads_good ha4 h.1 h.2.1 h.2.2

theorem flash_round_trip_pages :
    WriteReads (fun _ => 0) 16 8 ∧ WindowReads (fun _ => 0) 256 512 :=
  ⟨((flash_round_trip fun _ => 0).1 16 8 (by decide) (by decide) (by decide) (by decide)).mpr
      (by decide),
    ((flash_round_trip fun _ => 0).2 256 512 (by decide) (by decide)).mpr (by decide)⟩

/-- **The claim without conditions fails**: five bytes at the start of a page lose the last one, and
a window of eight bytes across a page boundary comes back with ones. -/
theorem flash_round_trip_fails :
    ¬ (∀ (rand : Nat → UInt8) (a n : Nat), a % 4 = 0 → 1 ≤ n → a % 256 + n ≤ 256 →
        a + n ≤ 2 ^ 32 → WriteReads rand a n) ∧
    ¬ (∀ (rand : Nat → UInt8) (a n : Nat), a % 4 = 0 → a + n ≤ 2 ^ 32 → WindowReads rand a n) :=
  ⟨fun h => writeReads_rest (by decide) (by decide) (by decide) (by decide) (by decide)
      (h (fun _ => 0) 0 5 (by decide) (by decide) (by decide) (by decide)),
    fun h => windowReads_bad (by decide) (by decide) (by decide)
      (h (fun _ => 0) 252 8 (by decide) (by decide))⟩

end Espmod.Flash
