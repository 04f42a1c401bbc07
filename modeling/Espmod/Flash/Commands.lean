/-
# Espmod.Flash.Commands — whole commands through the thread

The request lines of the driver, as `printf` renders them, and what the thread does with each of
them from the top of its loop: the arrays it leaves, the bytes it answers and the read it ends in.
Everything above this module argues about commands and never unfolds the byte machine again.
-/
import Espmod.Flash.Thread

namespace Espmod.Flash

open Espmod.Lib.Text Espmod.Lib.Words

/-! ## §1 — lines -/

/-- A command line, without its newline, from which `sscanf` reads the values `args`: any spelling
the format accepts, not only the one the driver prints. -/
structure Line (fmt : List Directive) (args : List Nat) where
  text : Bytes
  clean : chr '\n' ∉ text
  scan : scanf fmt (cstr (text ++ [chr '\n'])) = args.map Int.ofNat

/-- The line as it travels. -/
def Line.bytes {fmt : List Directive} {args : List Nat} (l : Line fmt args) : Bytes :=
  l.text ++ [chr '\n']

/-- The rest of a write command: the words behind `d:`, and what stands before the newline. -/
structure Data (size : Nat) where
  words : List UInt32
  rest : Bytes
  length : words.length = size
  clean : chr '\n' ∉ rest

def Data.bytes {size : Nat} (d : Data size) : Bytes :=
  str "d:" ++ unwords d.words ++ (d.rest ++ [chr '\n'])

/-- A line from which a value was read starts with the literals of the format. -/
theorem prefix_of_scan {c d : UInt8} {ds : List Directive} {t : Bytes}
    (h : scanf (.lit c :: .lit d :: ds) (cstr t) ≠ []) : ∃ t', t = c :: d :: t' := by
  have lit {c : UInt8} {ds : List Directive} {s : Bytes} (h : scanf (.lit c :: ds) s ≠ []) :
      ∃ s', s = c :: s' ∧ scanf ds s' ≠ [] := by
    cases s with
    | nil => simp [scanf] at h
    | cons x xs =>
      by_cases hx : c = x
      · subst hx
        exact ⟨xs, rfl, by simpa using h⟩
      · simp [scanf, hx] at h
  obtain ⟨s, hs, h⟩ := lit h
  obtain ⟨s', rfl, _⟩ := lit h
  obtain ⟨t', ht'⟩ := List.takeWhile_prefix (fun b : UInt8 => decide (b ≠ 0)) (l := t)
  exact ⟨s' ++ t', by rw [← ht', ← cstr, hs]; rfl⟩

/-! ## §2 — the lines the driver prints -/

/-- `"\r\n"`. -/
def crlf : Bytes := [chr '\r', chr '\n']

/-- `printf("e:%0x\r\n", sec)`; the conversion takes 32 bits. -/
def eraseLine (sec : Nat) : Bytes := str "e:" ++ showNat 16 (sec % 2 ^ 32) ++ crlf

/-- `printf("w:%0x %u\r\n", des_addr, sizew)`. -/
def writeLine (addr sizew : Nat) : Bytes :=
  str "w:" ++ showNat 16 (addr % 2 ^ 32) ++ str " " ++ showNat 10 (sizew % 2 ^ 32) ++ crlf

/-- `printf("r:%0x %u\r\n", src_addr, sizew)`. -/
def readLine (addr sizew : Nat) : Bytes :=
  str "r:" ++ showNat 16 (addr % 2 ^ 32) ++ str " " ++ showNat 10 (sizew % 2 ^ 32) ++ crlf

/-- The data line of a write request. -/
def dataLine (ws : List UInt32) : Bytes := str "d:" ++ unwords ws ++ crlf

theorem crlf_eq : crlf = [chr '\r'] ++ [chr '\n'] := rfl

theorem decimalStop_crlf : DecimalStop crlf := by
  refine ⟨stops_cons (by decide), fun c hc => ?_⟩
  rw [crlf_eq] at hc
  obtain rfl : chr '\r' = c := by simpa using hc
  decide

/-- A printed number holds no NUL and no newline. -/
theorem line_clean {c : UInt8} (hc : c = 0 ∨ c = chr '\n') (n : Nat) :
    c ∉ showNat 16 n ∧ c ∉ showNat 10 n := by
  have hout : ¬ (48 ≤ c ∧ c ≤ 102) := by rcases hc with rfl | rfl <;> decide
  exact ⟨notMem_showNat (by decide) (by decide) n hout, notMem_showNat (by decide) (by decide) n hout⟩

/-- A printed line is a command line as soon as its text scans. -/
def printed {fmt : List Directive} {args : List Nat} (t : Bytes) (hnl : chr '\n' ∉ t) (h0 : 0 ∉ t)
    (hs : scanf fmt (t ++ crlf) = args.map Int.ofNat) : Line fmt args where
  text := t ++ [chr '\r']
  clean := by
    simp only [List.mem_append, hnl, false_or]
    decide
  scan := by
    have h0' : (0 : UInt8) ∉ t ++ [chr '\r'] ++ [chr '\n'] := by
      simp only [List.mem_append, h0, false_or]
      decide
    rw [cstr_of_notMem h0', List.append_assoc]
    exact hs

theorem printed_bytes {fmt : List Directive} {args : List Nat} {t : Bytes} (hnl : chr '\n' ∉ t)
    (h0 : 0 ∉ t) (hs : scanf fmt (t ++ crlf) = args.map Int.ofNat) :
    (printed t hnl h0 hs).bytes = t ++ crlf := by
  simp [printed, Line.bytes, crlf]

/-- The erase line reads back as its sector number. -/
theorem eraseLine_line (n : Nat) : ∃ l : Line fmtErase [n % 2 ^ 32], l.bytes = eraseLine n := by
  have hstop : Stops 16 crlf := stops_cons (by decide)
  have hx := scanf_convX (Nat.mod_lt n (by decide : 0 < 2 ^ 32)) hstop decimalStop_crlf.2 []
  refine ⟨printed (str "e:" ++ showNat 16 (n % 2 ^ 32)) ?_ ?_ ?_, printed_bytes _ _ _⟩
  · simp only [List.mem_append, (line_clean (.inr rfl) _).1, or_false]
    decide
  · simp only [List.mem_append, (line_clean (.inl rfl) _).1, or_false]
    decide
  · simpa [fmtErase, str, scanf] using hx

/-- The two numbers of a `w:` or `r:` line. -/
theorem scan_pair (c : UInt8) {a n : Nat} (ha : a < 2 ^ 32) (hn : n < 2 ^ 32) :
    scanf [.lit c, .lit (chr ':'), .convX, .blank, .convU]
      (c :: chr ':' :: (showNat 16 a ++ (chr ' ' :: (showNat 10 n ++ crlf)))) = [(a : Int), (n : Int)] := by
  have hstop : ∀ t : Bytes, ∀ c', (chr ' ' :: t).head? = some c' → c' ≠ chr 'x' ∧ c' ≠ chr 'X' := by
    intro t c' hc'
    obtain rfl : chr ' ' = c' := by simpa using hc'
    decide
  have hblank : scanf [.blank, .convU] (chr ' ' :: (showNat 10 n ++ crlf)) =
      scanf [.convU] (showNat 10 n ++ crlf) := by
    rw [scanf, show skipSpace (chr ' ' :: (showNat 10 n ++ crlf)) = skipSpace (showNat 10 n ++ crlf)
      from rfl, skipSpace_showNat (by decide) (by decide)]
  rw [scanf_lit, scanf_lit, scanf_convX ha (stops_cons (by decide)) (hstop _), hblank,
    scanf_convU hn decimalStop_crlf]
  rfl

/-- Both request lines read back as their address and size. -/
theorem pair_line {c : UInt8} (hc : c ≠ 0 ∧ c ≠ chr '\n') (a n : Nat) :
    ∃ l : Line [.lit c, .lit (chr ':'), .convX, .blank, .convU] [a % 2 ^ 32, n % 2 ^ 32],
      l.bytes = [c, chr ':'] ++ showNat 16 (a % 2 ^ 32) ++ str " " ++ showNat 10 (n % 2 ^ 32) ++
        crlf := by
  have hp := scan_pair c (Nat.mod_lt a (by decide : 0 < 2 ^ 32))
    (Nat.mod_lt n (by decide : 0 < 2 ^ 32))
  have hclean : ∀ d : UInt8, d = 0 ∨ d = chr '\n' → c ≠ d →
      d ∉ [c, chr ':'] ++ showNat 16 (a % 2 ^ 32) ++ str " " ++ showNat 10 (n % 2 ^ 32) := by
    intro d hd hcd
    have hmark : d ≠ chr ':' ∧ d ≠ chr ' ' := by rcases hd with rfl | rfl <;> decide
    simp [(line_clean hd _).1, (line_clean hd _).2, Ne.symm hcd, str, hmark]
  refine ⟨printed _ (hclean _ (.inr rfl) hc.2) (hclean _ (.inl rfl) hc.1) ?_, printed_bytes _ _ _⟩
  simpa [str] using hp

theorem writeLine_line (a n : Nat) :
    ∃ l : Line fmtWrite [a % 2 ^ 32, n % 2 ^ 32], l.bytes = writeLine a n :=
  pair_line (by decide) a n

theorem readLine_line (a n : Nat) :
    ∃ l : Line fmtRead [a % 2 ^ 32, n % 2 ^ 32], l.bytes = readLine a n :=
  pair_line (by decide) a n

/-- The driver's data line carries the words it was given. -/
theorem dataLine_data (ws : List UInt32) : ∃ d : Data ws.length, d.words = ws ∧ d.bytes = dataLine ws :=
  ⟨⟨ws, [chr '\r'], rfl, by decide⟩, rfl, rfl⟩

/-! ## §3 — commands from the top of the loop -/

section Commands

variable (rand : Nat → UInt8) {f : CchanFlash} {a n : Nat}

/-- **Erase.** The sector number is scaled in 32-bit arithmetic before the address is checked. -/
theorem feed_erase (h : f.AtTop) {sec : Nat} (l : Line fmtErase [sec]) :
    f.feed rand l.bytes =
      match f.store.layout.getrange (sec * 4096 % 2 ^ 32) with
      | none => { f with addr := sec * 4096 % 2 ^ 32 }.answer [1]
      | some range =>
        { f with addr := sec * 4096 % 2 ^ 32
                 store := f.store.erase range (sec * 4096 % 2 ^ 32) }.answer [0] := by
  obtain ⟨t, ht⟩ := prefix_of_scan (t := l.text ++ [chr '\n']) (by rw [← fmtErase, l.scan]; simp)
  have hpre : (str "e:").isPrefixOf (l.text ++ [chr '\n']) = true := by rw [ht]; rfl
  rw [Line.bytes, feed_line h l.text l.clean]
  simp only [CchanFlash.dispatch, hpre, if_true, CchanFlash.execErase, l.scan,
    CchanFlash.scanInto, List.map_cons, List.map_nil, Int.ofNat_eq_natCast, Int.toNat_natCast]
  cases f.store.layout.getrange (sec * 4096 % 2 ^ 32) <;> rfl

/-- **Write header.** An accepted one leaves the thread waiting for the data line, a rejected one
is answered at once and leaves the thread at the top of its loop. -/
theorem feed_writeLine (h : f.AtTop) (l : Line fmtWrite [a, n]) :
    f.feed rand l.bytes =
      match f.store.writeRange a n with
      | none => { f with addr := a, size := n }.answer [1]
      | some range => { f with addr := a, size := n, pc := .wantD range } := by
  obtain ⟨t, ht⟩ := prefix_of_scan (t := l.text ++ [chr '\n']) (by rw [← fmtWrite, l.scan]; simp)
  have hpre : (str "w:").isPrefixOf (l.text ++ [chr '\n']) = true := by rw [ht]; rfl
  have hpre' : (str "e:").isPrefixOf (l.text ++ [chr '\n']) = false := by rw [ht]; rfl
  rw [Line.bytes, feed_line h l.text l.clean]
  simp only [CchanFlash.dispatch, hpre, hpre', if_true, if_false, Bool.false_eq_true,
    CchanFlash.execWrite, l.scan, CchanFlash.scanInto, List.map_cons, List.map_nil,
    Int.ofNat_eq_natCast, Int.toNat_natCast]
  cases f.store.writeRange a n <;> rfl

/-- The arrays after an accepted write. -/
def Store.write (st : Store) (range addr : Nat) (ws : List UInt32) : Store :=
  putWords (st.prepare range addr ws.length) range addr 0 ws

/-- What stands between the last word and the newline is skipped. -/
theorem feed_tail (h : f.pc = .tail) {rest : Bytes} (hnl : chr '\n' ∉ rest) :
    f.feed rand (rest ++ [chr '\n']) = f.answer [0] := by
  induction rest with
  | nil => simp [CchanFlash.feed, CchanFlash.step, h]
  | cons b bs ih =>
    simp only [List.mem_cons, not_or] at hnl
    have hb : b ≠ chr '\n' := fun hb => hnl.1 hb.symm
    rw [List.cons_append, feed_cons, show f.step rand b = f by simp [CchanFlash.step, h, hb]]
    exact ih hnl.2

/-- **Data line.** It is consumed to its newline whatever the words are. -/
theorem feed_data {range : Nat} (h : f.pc = .wantD range) (hsize : f.size = n) (hn : 1 ≤ n)
    (d : Data n) :
    f.feed rand d.bytes = { f with store := f.store.write range f.addr d.words }.answer [0] := by
  have hmark : f.feed rand (str "d:") =
      { f with store := f.store.prepare range f.addr f.size, pc := .data range 0 [] } := by
    show ((f.step rand (chr 'd')).step rand (chr ':')) = _
    simp [CchanFlash.step, h]
  have hne : d.words ≠ [] := fun h0 => by simpa [h0] using d.length.trans_ge hn
  rw [Data.bytes, List.append_assoc, feed_append, hmark, feed_append,
    feed_words d.words _ 0 rfl hne (by simp [hsize, d.length]), feed_tail rand rfl d.clean]
  simp [Store.write, hsize, d.length, CchanFlash.answer]

/-- **Read.** -/
theorem feed_read (h : f.AtTop) (l : Line fmtRead [a, n]) :
    f.feed rand l.bytes =
      match f.store.layout.getrange a with
      | none => { f with addr := a, size := n }.answer [1]
      | some range =>
        match f.store.fetch rand f.rands range a n with
        | none => { f with addr := a, size := n, pc := .stuck }
        | some (bs, used) => { f with addr := a, size := n, rands := f.rands + used }.answer (bs ++ [0]) := by
  obtain ⟨t, ht⟩ := prefix_of_scan (t := l.text ++ [chr '\n']) (by rw [← fmtRead, l.scan]; simp)
  have hpre : (str "w:").isPrefixOf (l.text ++ [chr '\n']) = false := by rw [ht]; rfl
  have hpre' : (str "e:").isPrefixOf (l.text ++ [chr '\n']) = false := by rw [ht]; rfl
  rw [Line.bytes, feed_line h l.text l.clean]
  simp only [CchanFlash.dispatch, hpre, hpre', if_false, Bool.false_eq_true,
    CchanFlash.execRead, l.scan, CchanFlash.scanInto, List.map_cons, List.map_nil,
    Int.ofNat_eq_natCast, Int.toNat_natCast]
  cases f.store.layout.getrange a with
  | none => rfl
  | some range =>
    simp only
    cases f.store.fetch rand f.rands range a n <;> rfl

end Commands

end Espmod.Flash
