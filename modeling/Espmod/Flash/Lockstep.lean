/-
# Espmod.Flash.Lockstep — driver and thread answer each other, command by command

`InStep` is the state between two calls: the thread waits for a fresh command line and no byte is
left unread. `Exchange` is one command done right: the call consumed exactly the bytes the thread
produced for it and returned the status byte among them.

Two commands leave that track. A rejected write is answered before its data line is read, so the
thread takes the data line for another command; and a rejected read is answered with the status
alone, while the driver waits for the words. `Call.ok` is the condition that neither happens, and
`flash_lockstep` shows it is exact over arbitrary sequences of calls.
-/
import Espmod.Flash.Driver

namespace Espmod.Flash

open Espmod.Lib.Text Espmod.Lib.Words

variable {rand : Nat → UInt8} {f f' : CchanFlash}

/-! ## §1 — exchanges -/

/-- Between two calls. -/
def CchanFlash.InStep (f : CchanFlash) : Prop := f.AtTop ∧ f.reply = []

/-- The thread ran the request as one command, everything it answered was consumed, and the call
returned the status at the end of the answer. -/
structure Exchange (rand : Nat → UInt8) (f : CchanFlash) (req : Bytes) (resp : EspErr)
    (f' : CchanFlash) : Prop where
  after : f' = { f.feed rand req with reply := [] }
  top : (f.feed rand req).AtTop
  status : ∃ bs s, (f.feed rand req).reply = bs ++ [s] ∧ resp = retflerr s

/-- Requests exchanged one after the other, up to the first one that is not `ESP_OK`. -/
inductive Served (rand : Nat → UInt8) : CchanFlash → List Bytes → EspErr → CchanFlash → Prop
  | done (f : CchanFlash) : Served rand f [] .ESP_OK f
  | next {f f' f'' : CchanFlash} {req : Bytes} {reqs : List Bytes} {resp : EspErr} :
      Exchange rand f req .ESP_OK f' → Served rand f' reqs resp f'' →
      Served rand f (req :: reqs) resp f''
  | fail {f f' : CchanFlash} {req : Bytes} {reqs : List Bytes} :
      Exchange rand f req .ESP_FAIL f' → Served rand f (req :: reqs) .ESP_FAIL f'

theorem Served.single {req : Bytes} {resp : EspErr} (h : Exchange rand f req resp f') :
    Served rand f [req] resp f' := by
  cases resp with
  | ESP_OK => exact .next h (.done f')
  | ESP_FAIL => exact .fail h

theorem Exchange.inStep {req : Bytes} {resp : EspErr} (h : Exchange rand f req resp f') :
    f'.InStep := by
  obtain ⟨rfl, htop, _⟩ := h
  exact ⟨htop, rfl⟩

/-! ## §2 — every way back to the top of the loop answers -/

/-- From `f` to `g` nothing answered is taken back, and if `g` is at the top of its loop then
something was added. -/
def Answers (f g : CchanFlash) : Prop :=
  (∃ t, g.reply = f.reply ++ t) ∧ (g.AtTop → f.reply.length < g.reply.length)

theorem answers_answer {g : CchanFlash} (hg : g.reply = f.reply) {bs : Bytes} (hbs : bs ≠ []) :
    Answers f (g.answer bs) := by
  have hpos := List.length_pos_iff.mpr hbs
  exact ⟨⟨bs, by rw [← hg]; rfl⟩, fun _ => by simp [CchanFlash.answer, hg, hpos]⟩

theorem answers_wait {g : CchanFlash} (hg : g.reply = f.reply) (hpc : g.pc ≠ .line []) :
    Answers f g :=
  ⟨⟨[], by simp [hg]⟩, fun h => absurd h hpc⟩

theorem scanInto_reply (args : List Int) : (f.scanInto args).reply = f.reply := by
  unfold CchanFlash.scanInto
  split <;> rfl

theorem execErase_answers (msg : Bytes) : Answers f (f.execErase msg) := by
  simp only [CchanFlash.execErase]
  split <;> exact answers_answer (by simp [scanInto_reply]) (by simp)

theorem execWrite_answers (msg : Bytes) : Answers f (f.execWrite msg) := by
  simp only [CchanFlash.execWrite]
  split
  · exact answers_answer (by simp [scanInto_reply]) (by simp)
  · exact answers_wait (by simp [scanInto_reply]) (by simp)

theorem execRead_answers (msg : Bytes) : Answers f (f.execRead rand msg) := by
  simp only [CchanFlash.execRead]
  split
  · exact answers_answer (by simp [scanInto_reply]) (by simp)
  · split
    · exact answers_wait (by simp [scanInto_reply]) (by simp)
    · exact answers_answer (by simp [scanInto_reply]) (by simp)

theorem dispatch_answers (msg : Bytes) : Answers f (f.dispatch rand msg) := by
  simp only [CchanFlash.dispatch]
  split
  · exact execErase_answers msg
  · split
    · exact execWrite_answers msg
    · exact execRead_answers msg

/-- **A byte that brings the thread to the top of its loop makes it answer.** -/
theorem step_answers (rand : Nat → UInt8) (b : UInt8) : Answers f (f.step rand b) := by
  cases hpc : f.pc with
  | line msg =>
    simp only [CchanFlash.step, hpc]
    split
    · exact dispatch_answers _
    · exact answers_wait rfl (by simp)
  | wantD range =>
    simp only [CchanFlash.step, hpc]
    exact answers_wait rfl (by simp only; split <;> simp)
  | wantColon range =>
    simp only [CchanFlash.step, hpc]
    split <;> exact answers_wait rfl (by simp)
  | bad =>
    simp only [CchanFlash.step, hpc]
    split
    · exact answers_answer rfl (by simp)
    · exact answers_wait rfl (by simp [hpc])
  | data range pos got =>
    simp only [CchanFlash.step, hpc]
    split
    · exact answers_wait rfl (by simp only; split <;> simp)
    · exact answers_wait rfl (by simp)
  | tail =>
    simp only [CchanFlash.step, hpc]
    split
    · exact answers_answer rfl (by simp)
    · exact answers_wait rfl (by simp [hpc])
  | stuck =>
    simp only [CchanFlash.step, hpc]
    exact answers_wait rfl (by simp [hpc])

/-- **Whatever follows a finished command is another command**: if the thread is back at the top of
its loop, it has answered that one too. -/
theorem feed_answers (rand : Nat → UInt8) {bs : Bytes} (hbs : bs ≠ []) : Answers f (f.feed rand bs) := by
  induction bs generalizing f with
  | nil => exact absurd rfl hbs
  | cons b bs ih =>
    obtain ⟨⟨t, ht⟩, htop⟩ := step_answers (f := f) rand b
    cases bs with
    | nil => exact ⟨⟨t, ht⟩, htop⟩
    | cons c cs =>
      obtain ⟨⟨t', ht'⟩, htop'⟩ := ih (f := f.step rand b) (by simp)
      rw [feed_cons]
      refine ⟨⟨t ++ t', by rw [ht', ht, List.append_assoc]⟩, fun h => ?_⟩
      have hlen : f.reply.length ≤ (f.step rand b).reply.length := by rw [ht]; simp
      exact lt_of_le_of_lt hlen (htop' h)

/-! ## §3 — the single commands -/

/-- A read of no words at the start of a programmed page never ends: `end` wraps to `0xffffffff`. -/
def Store.endless (st : Store) (range addr size : Nat) : Prop :=
  size + addr / 4 % 64 = 0 ∧ st.sec (st.layout.secaddr range addr) = .PROG ∧
    st.page (st.layout.pageaddr range addr) ≠ []

/-- What a read of at most 64 words answers, in every sector state. -/
theorem Store.fetch_length (rand : Nat → UInt8) (k : Nat) {st : Store} {range addr size : Nat} (hsize : size ≤ 64) :
    (st.endless range addr size → st.fetch rand k range addr size = none) ∧
    (¬ st.endless range addr size →
      ∃ bs used, st.fetch rand k range addr size = some (bs, used) ∧ bs.length = 4 * size) := by
  cases hsec : st.sec (st.layout.secaddr range addr) with
  | UNK =>
    refine ⟨fun h => by simp [Store.endless, hsec] at h, fun _ => ⟨_, _, fetch_unk rand k hsec, ?_⟩⟩
    simp
  | ERS =>
    refine ⟨fun h => by simp [Store.endless, hsec] at h, fun _ => ?_⟩
    exact ⟨List.replicate (4 * size) 0xff, 0, by simp [Store.fetch, hsec], by simp⟩
  | PROG =>
    constructor
    · rintro ⟨hzero, _, hpage⟩
      have hfin : (size + addr / 4 % 64 + (2 ^ 32 - 1)) % 2 ^ 32 = 2 ^ 32 - 1 := by omega
      simp only [Store.fetch, hsec, readpos_eq, hfin]
      simp [hpage]
    · intro hend
      by_cases hone : 1 ≤ addr / 4 % 64 + size
      · exact ⟨_, _, fetch_known rand k (by simp [hsec]) (fun h => absurd hsec h) hsize hone,
          by simp⟩
      · have hpage : st.page (st.layout.pageaddr range addr) = [] := by
          by_contra hne
          exact hend ⟨by omega, hsec, hne⟩
        exact ⟨List.replicate (4 * size) 0xff, 0, by simp [Store.fetch, hsec, hpage], by simp⟩

theorem recvByte_of_reply {b : UInt8} {bs : Bytes} (h : f.reply = b :: bs) :
    f.recvByte = some (b, { f with reply := bs }) := by
  simp [CchanFlash.recvByte, h]

/-- An answer of one byte is consumed by one `read`. -/
theorem exchange_byte {req : Bytes} {s : UInt8} (htop : (f.feed rand req).AtTop)
    (hreply : (f.feed rand req).reply = [s]) :
    (f.feed rand req).recvByte = some (s, { f.feed rand req with reply := [] }) ∧
      Exchange rand f req (retflerr s) { f.feed rand req with reply := [] } :=
  ⟨recvByte_of_reply hreply, rfl, htop, [], s, by simpa using hreply, rfl⟩

/-- **Erase calls stay in step**, accepted or rejected. -/
theorem erase_served (rand : Nat → UInt8) (h : f.InStep) (sec : Nat) : ∃ resp f',
    spiFlashEraseSector rand f sec = some (resp, f') ∧ Exchange rand f (eraseLine sec) resp f' := by
  obtain ⟨htop, hempty⟩ := h
  have hone : ∃ s, (f.feed rand (eraseLine sec)).AtTop ∧
      (f.feed rand (eraseLine sec)).reply = [s] := by
    obtain ⟨l, hl⟩ := eraseLine_line sec
    rw [← hl, feed_erase rand htop l]
    split
    · exact ⟨1, rfl, by simp [CchanFlash.answer, hempty]⟩
    · exact ⟨0, rfl, by simp [CchanFlash.answer, hempty]⟩
  obtain ⟨s, htop', hs⟩ := hone
  obtain ⟨hrecv, hex⟩ := exchange_byte htop' hs
  exact ⟨_, _, by simp [spiFlashEraseSector, hrecv], hex⟩

/-- The condition of a write call: the header is accepted, and the words the header does not count
(a `size_t` is printed modulo `2^32`) hold no newline byte. -/
def Store.admits (st : Store) (addr : Nat) (ws : List UInt32) : Prop :=
  (∃ range, st.writeRange (addr % 2 ^ 32) (ws.length % 2 ^ 32) = some range) ∧
    chr '\n' ∉ unwords (ws.drop (ws.length % 2 ^ 32))

/-- The bytes a write call sends. -/
def writeRequest (addr : Nat) (ws : List UInt32) : Bytes := writeLine addr ws.length ++ dataLine ws

theorem spiFlashWrite_eq (addr : Nat) (src : Bytes) :
    spiFlashWrite rand f addr src =
      ((f.feed rand (writeRequest addr (wordsOf src))).recvByte.map fun p => (retflerr p.1, p.2)) := by
  rw [spiFlashWrite, writeRequest, wordsOf_length]
  cases (f.feed rand (writeLine addr (src.length / 4) ++ dataLine (wordsOf src))).recvByte <;> rfl

/-- The words a header counts, up to a newline behind them, are one data line. -/
theorem feed_accepted (rand : Nat → UInt8) (h : f.InStep) {addr range : Nat} {ws : List UInt32}
    (hr : f.store.writeRange (addr % 2 ^ 32) (ws.length % 2 ^ 32) = some range) {rest : Bytes}
    (hclean : chr '\n' ∉ rest) :
    (f.feed rand (writeLine addr ws.length ++
      (str "d:" ++ unwords (ws.take (ws.length % 2 ^ 32)) ++ (rest ++ [chr '\n'])))).AtTop ∧
    (f.feed rand (writeLine addr ws.length ++
      (str "d:" ++ unwords (ws.take (ws.length % 2 ^ 32)) ++ (rest ++ [chr '\n'])))).reply = [0] := by
  obtain ⟨htop, hempty⟩ := h
  obtain ⟨l, hl⟩ := writeLine_line addr ws.length
  have hle : ws.length % 2 ^ 32 ≤ ws.length := Nat.mod_le _ _
  have hhead := feed_writeLine rand htop l
  rw [hr, hl] at hhead
  let d : Data (ws.length % 2 ^ 32) :=
    ⟨ws.take (ws.length % 2 ^ 32), rest, by rw [List.length_take, Nat.min_eq_left hle], hclean⟩
  have hdata := feed_data (f := { f with addr := addr % 2 ^ 32, size := ws.length % 2 ^ 32
                                         pc := .wantD range }) rand rfl rfl (Store.writeRange_size hr).1 d
  rw [Data.bytes] at hdata
  rw [feed_append, hhead, hdata]
  exact ⟨rfl, by simp [CchanFlash.answer, hempty]⟩

/-- **An admitted write is one exchange.** -/
theorem write_served (rand : Nat → UInt8) (h : f.InStep) {addr : Nat} {src : Bytes}
    (hok : f.store.admits addr (wordsOf src)) : ∃ resp f',
    spiFlashWrite rand f addr src = some (resp, f') ∧
      Exchange rand f (writeRequest addr (wordsOf src)) resp f' := by
  obtain ⟨⟨range, hr⟩, hclean⟩ := hok
  generalize hws : wordsOf src = ws at hr hclean
  have hclean' : chr '\n' ∉ unwords (ws.drop (ws.length % 2 ^ 32)) ++ [chr '\r'] := by
    simp only [List.mem_append, hclean, false_or]
    decide
  have hreq : writeRequest addr ws = writeLine addr ws.length ++ (str "d:" ++
      unwords (ws.take (ws.length % 2 ^ 32)) ++
        ((unwords (ws.drop (ws.length % 2 ^ 32)) ++ [chr '\r']) ++ [chr '\n'])) := by
    have hall := unwords_append (ws.take (ws.length % 2 ^ 32)) (ws.drop (ws.length % 2 ^ 32))
    rw [List.take_append_drop] at hall
    simp [writeRequest, dataLine, hall, crlf]
  obtain ⟨htop, hreply⟩ := feed_accepted rand h hr hclean'
  rw [← hreq] at htop hreply
  obtain ⟨hrecv, hex⟩ := exchange_byte htop hreply
  exact ⟨_, _, by rw [spiFlashWrite_eq, hws, hrecv]; rfl, hex⟩

/-- Anything behind a finished command leaves the channel out of step. -/
theorem overrun {head rest : Bytes} (hrest : rest ≠ []) {s : UInt8}
    (hhead : (f.feed rand head).reply = [s]) {code : UInt8}
    (hrecv : (f.feed rand (head ++ rest)).recvByte = some (code, f')) : ¬ f'.InStep := by
  rintro ⟨htop, hempty⟩
  obtain ⟨⟨t, ht⟩, hgrow⟩ := feed_answers (f := f.feed rand head) rand hrest
  rw [hhead] at ht hgrow
  rw [feed_append, recvByte_of_reply ht, Option.some.injEq, Prod.mk.injEq] at hrecv
  obtain ⟨rfl, rfl⟩ := hrecv
  have hlen := hgrow htop
  obtain rfl : t = [] := hempty
  simp [ht] at hlen

/-- **Any other write call leaves the channel out of step.** -/
theorem write_broken (h : f.InStep) {addr : Nat} {src : Bytes}
    (hbad : ¬ f.store.admits addr (wordsOf src)) {resp : EspErr}
    (hrun : spiFlashWrite rand f addr src = some (resp, f')) : ¬ f'.InStep := by
  rw [spiFlashWrite_eq, Option.map_eq_some_iff] at hrun
  obtain ⟨⟨code, f''⟩, hrecv, heq⟩ := hrun
  obtain ⟨rfl, rfl⟩ := Prod.mk.inj heq
  generalize wordsOf src = ws at hbad hrecv
  cases hr : f.store.writeRange (addr % 2 ^ 32) (ws.length % 2 ^ 32) with
  | none =>
    obtain ⟨htop, hempty⟩ := h
    obtain ⟨l, hl⟩ := writeLine_line addr ws.length
    have hhead := feed_writeLine rand htop l
    rw [hr, hl] at hhead
    have hreply : (f.feed rand (writeLine addr ws.length)).reply = [1] := by
      rw [hhead]
      simp [CchanFlash.answer, hempty]
    exact overrun (by simp [dataLine, str]) hreply hrecv
  | some range =>
    have hnl : chr '\n' ∈ unwords (ws.drop (ws.length % 2 ^ 32)) := by
      by_contra hclean
      exact hbad ⟨⟨range, hr⟩, hclean⟩
    obtain ⟨u, v, huv, hclean⟩ := List.eq_append_cons_of_mem hnl
    have hall := unwords_append (ws.take (ws.length % 2 ^ 32)) (ws.drop (ws.length % 2 ^ 32))
    rw [List.take_append_drop, huv] at hall
    have hreq : writeRequest addr ws = (writeLine addr ws.length ++ (str "d:" ++
        unwords (ws.take (ws.length % 2 ^ 32)) ++ (u ++ [chr '\n']))) ++ (v ++ crlf) := by
      simp [writeRequest, dataLine, hall]
    rw [hreq] at hrecv
    exact overrun (by simp [crlf]) (feed_accepted rand h hr hclean).2 hrecv

/-! ## §4 — reads -/

/-- The condition of a read of at most 256 bytes: an illegal address needs a read without words,
a legal one needs a read that ends. -/
def Store.readable (st : Store) (addr size : Nat) : Prop :=
  match st.layout.getrange (addr % 2 ^ 32) with
  | none => size / 4 = 0
  | some range => ¬ st.endless range (addr % 2 ^ 32) (size / 4)

theorem feed_readLine (rand : Nat → UInt8) (h : f.InStep) (addr : Nat) {size : Nat} (hsize : size ≤ 256) :
    f.feed rand (readLine addr (size / 4)) =
      match f.store.layout.getrange (addr % 2 ^ 32) with
      | none => { f with addr := addr % 2 ^ 32, size := size / 4 }.answer [1]
      | some range =>
        match f.store.fetch rand f.rands range (addr % 2 ^ 32) (size / 4) with
        | none => { f with addr := addr % 2 ^ 32, size := size / 4, pc := .stuck }
        | some (bs, used) =>
          { f with addr := addr % 2 ^ 32, size := size / 4
                   rands := f.rands + used }.answer (bs ++ [0]) := by
  have hmod : size / 4 % 2 ^ 32 = size / 4 := Nat.mod_eq_of_lt (by omega)
  obtain ⟨l, hl⟩ := readLine_line addr (size / 4)
  have hfeed := feed_read rand h.1 l
  rw [hl, hmod] at hfeed
  exact hfeed

/-- The words and the status of an answer, consumed one after the other. -/
theorem recvWords_of_reply {n : Nat} {bs t : Bytes} (hbs : bs.length = 4 * n)
    (h : f.reply = bs ++ t) : f.recvWords n = some (bs, { f with reply := t }) := by
  have hle : 4 * n ≤ f.reply.length := by rw [h, List.length_append]; omega
  rw [CchanFlash.recvWords, if_pos hle, h, ← hbs, List.take_left, List.drop_left]

/-- **A readable chunk is one exchange**, and a chunk with words in it is then `ESP_OK`. -/
theorem shortRead_served (rand : Nat → UInt8) (h : f.InStep) {addr size : Nat} (hpos : size ≠ 0) (hsize : size ≤ 256)
    (hok : f.store.readable addr size) (off : Nat) (dst : Bytes) : ∃ resp bs f',
    shortRead rand f addr off size dst = some (resp, overlay dst off bs, f') ∧
      Exchange rand f (readLine addr (size / 4)) resp f' ∧ f'.store = f.store ∧
      (4 ≤ size → resp = .ESP_OK) := by
  have hfeed := feed_readLine rand h addr hsize
  have hempty := h.2
  have hans : ∃ (bs : Bytes) (s : UInt8), (f.feed rand (readLine addr (size / 4))).AtTop ∧
      (f.feed rand (readLine addr (size / 4))).store = f.store ∧
      (f.feed rand (readLine addr (size / 4))).reply = bs ++ [s] ∧ bs.length = 4 * (size / 4) ∧
      (4 ≤ size → s = 0) := by
    simp only [Store.readable] at hok
    cases hr : f.store.layout.getrange (addr % 2 ^ 32) with
    | none =>
      simp only [hr] at hok hfeed
      exact ⟨[], 1, by rw [hfeed]; rfl, by rw [hfeed]; rfl,
        by rw [hfeed]; simp [CchanFlash.answer, hempty], by simp [hok], by omega⟩
    | some range =>
      simp only [hr] at hok hfeed
      obtain ⟨bs, used, hfetch, hlen⟩ :=
        (Store.fetch_length rand f.rands (by omega)).2 hok
      rw [hfetch] at hfeed
      exact ⟨bs, 0, by rw [hfeed]; rfl, by rw [hfeed]; rfl,
        by rw [hfeed]; simp [CchanFlash.answer, hempty], hlen, fun _ => rfl⟩
  obtain ⟨bs, s, htop, hstore, hreply, hlen, hzero⟩ := hans
  refine ⟨retflerr s, bs, { f.feed rand (readLine addr (size / 4)) with reply := [] }, ?_,
    ⟨rfl, htop, bs, s, hreply, rfl⟩, hstore, fun h4 => by rw [hzero h4]; rfl⟩
  simp [shortRead, hpos, recvWords_of_reply hlen hreply, CchanFlash.recvByte]

/-- Any other chunk blocks the call. -/
theorem shortRead_blocks (h : f.InStep) {addr size : Nat} (hpos : size ≠ 0) (hsize : size ≤ 256)
    (hbad : ¬ f.store.readable addr size) (off : Nat) (dst : Bytes) :
    shortRead rand f addr off size dst = none := by
  have hfeed := feed_readLine rand h addr hsize
  have hempty := h.2
  simp only [Store.readable] at hbad
  cases hr : f.store.layout.getrange (addr % 2 ^ 32) with
  | none =>
    -- one status byte, and the call waits for four
    simp only [hr] at hbad hfeed
    have hshort : ¬ 4 * (size / 4) ≤ (f.feed rand (readLine addr (size / 4))).reply.length := by
      rw [hfeed]
      simp only [CchanFlash.answer, hempty, List.nil_append, List.length_singleton]
      omega
    simp [shortRead, hpos, CchanFlash.recvWords, hshort]
  | some range =>
    simp only [hr, not_not] at hbad hfeed
    rw [(Store.fetch_length rand f.rands (by omega)).1 hbad] at hfeed
    have hnone : (f.feed rand (readLine addr (size / 4))).reply = [] := by rw [hfeed]; exact hempty
    have hzero : size / 4 = 0 := by have := hbad.1; omega
    simp only [hzero] at hnone
    simp [shortRead, hpos, hzero, CchanFlash.recvWords, CchanFlash.recvByte, hnone]

/-- Every chunk of a read is readable. -/
def Store.allReadable (st : Store) (addr size : Nat) : Prop :=
  ∀ k, 256 * k < size → st.readable (addr + 256 * k) (min 256 (size - 256 * k))

/-- The requests of a read call. -/
def readRequests (addr size : Nat) : List Bytes :=
  if size = 0 then []
  else if 256 < size then readLine addr 64 :: readRequests (addr + 256) (size - 256)
  else [readLine addr (size / 4)]
  termination_by size

theorem Store.allReadable_iff {st : Store} {addr size : Nat} (hsize : 256 < size) :
    st.allReadable addr size ↔ st.readable addr 256 ∧ st.allReadable (addr + 256) (size - 256) := by
  constructor
  · intro h
    refine ⟨by simpa [Nat.min_eq_left (Nat.le_of_lt hsize)] using h 0 (by omega), fun k hk => ?_⟩
    have := h (k + 1) (by omega)
    rwa [show addr + 256 * (k + 1) = addr + 256 + 256 * k by omega,
      show size - 256 * (k + 1) = size - 256 - 256 * k by omega] at this
  · rintro ⟨h0, hrest⟩ k hk
    cases k with
    | zero => simpa [Nat.min_eq_left (Nat.le_of_lt hsize)] using h0
    | succ k =>
      have := hrest k (by omega)
      rwa [show addr + 256 * (k + 1) = addr + 256 + 256 * k by omega,
        show size - 256 * (k + 1) = size - 256 - 256 * k by omega]

theorem Store.allReadable_short {st : Store} {addr size : Nat} (hpos : size ≠ 0)
    (hsize : size ≤ 256) : st.allReadable addr size ↔ st.readable addr size := by
  constructor
  · intro h
    simpa [Nat.min_eq_right hsize] using h 0 (by omega)
  · intro h k hk
    obtain rfl : k = 0 := by omega
    simpa [Nat.min_eq_right hsize] using h

/-- **Readable chunks are served one after the other.** -/
theorem readChunks_served (size : Nat) : ∀ (f : CchanFlash) (addr off : Nat) (dst : Bytes),
    f.InStep → f.store.allReadable addr size → ∃ resp dst' f',
      readChunks rand f addr off size dst = some (resp, dst', f') ∧ f'.InStep ∧
        Served rand f (readRequests addr size) resp f' := by
  induction size using Nat.strong_induction_on with
  | _ size ih =>
    intro f addr off dst h hok
    rw [readChunks, readRequests]
    by_cases hpos : size = 0
    · simp only [hpos, shortRead]
      exact ⟨_, _, f, rfl, h, .done f⟩
    · rw [if_neg hpos]
      by_cases hsize : 256 < size
      · obtain ⟨hfirst, hrest⟩ := (Store.allReadable_iff hsize).mp hok
        obtain ⟨resp, bs, f', hrun, hex, hst, hresp⟩ :=
          shortRead_served rand h (by decide) (le_refl 256) hfirst off dst
        obtain rfl := hresp (by decide)
        rw [← hst] at hrest
        obtain ⟨resp, dst', f'', hrun', hin, hserved⟩ :=
          ih (size - 256) (by omega) f' (addr + 256) (off + 256) _ hex.inStep hrest
        rw [if_pos hsize, if_pos hsize, hrun]
        exact ⟨resp, dst', f'', hrun', hin, .next hex hserved⟩
      · rw [if_neg hsize, if_neg hsize]
        obtain ⟨resp, bs, f', hrun, hex, _, _⟩ := shortRead_served rand h hpos (by omega)
          ((Store.allReadable_short hpos (by omega)).mp hok) off dst
        exact ⟨resp, _, f', hrun, hex.inStep, .single hex⟩

/-- **One chunk that is not readable blocks the whole read.** -/
theorem readChunks_blocks (size : Nat) : ∀ (f : CchanFlash) (addr off : Nat) (dst : Bytes),
    f.InStep → ¬ f.store.allReadable addr size → readChunks rand f addr off size dst = none := by
  induction size using Nat.strong_induction_on with
  | _ size ih =>
    intro f addr off dst h hbad
    have hpos : size ≠ 0 := by
      rintro rfl
      exact hbad fun k hk => by omega
    rw [readChunks]
    by_cases hsize : 256 < size
    · rw [if_pos hsize]
      by_cases hfirst : f.store.readable addr 256
      · obtain ⟨resp, bs, f', hrun, hex, hst, hresp⟩ :=
          shortRead_served rand h (by decide) (le_refl 256) hfirst off dst
        obtain rfl := hresp (by decide)
        rw [hrun]
        refine ih (size - 256) (by omega) f' _ _ _ hex.inStep fun hrest => ?_
        rw [hst] at hrest
        exact hbad ((Store.allReadable_iff hsize).mpr ⟨hfirst, hrest⟩)
      · rw [shortRead_blocks h (by decide) (le_refl 256) hfirst]
    · rw [if_neg hsize]
      exact shortRead_blocks h hpos (by omega)
        (fun hok => hbad ((Store.allReadable_short hpos (by omega)).mpr hok)) off dst

/-! ## §5 — arbitrary sequences of calls -/

/-- A call of the firmware; the read takes the buffer it fills. -/
inductive Call where
  | erase (sec : Nat)
  | write (addr : Nat) (src : Bytes)
  | read (addr size : Nat) (dst : Bytes)

namespace Call

def run (rand : Nat → UInt8) (f : CchanFlash) : Call → Option (EspErr × CchanFlash)
  | erase sec => spiFlashEraseSector rand f sec
  | write addr src => spiFlashWrite rand f addr src
  | read addr size dst => (spiFlashRead rand f addr size dst).map fun p => (p.1, p.2.2)

/-- The commands the call sends, each with all its bytes. -/
def requests : Call → List Bytes
  | erase sec => [eraseLine sec]
  | write addr src => [writeRequest addr (wordsOf src)]
  | read addr size _ => readRequests addr size

/-- The condition on the arrays before the call. -/
def ok (st : Store) : Call → Prop
  | erase _ => True
  | write addr src => st.admits addr (wordsOf src)
  | read addr size _ => st.allReadable addr size

end Call

/-- **In step throughout**: every call of the sequence finds the channel in step, comes back with
the statuses of exactly its own commands, and leaves the channel in step. -/
def Lockstep (rand : Nat → UInt8) : CchanFlash → List Call → Prop
  | f, [] => f.InStep
  | f, c :: cs => f.InStep ∧ ∃ resp f', c.run rand f = some (resp, f') ∧
      Served rand f c.requests resp f' ∧ Lockstep rand f' cs

theorem Call.served (rand : Nat → UInt8) (h : f.InStep) {c : Call} (hok : c.ok f.store) :
    ∃ resp f', c.run rand f = some (resp, f') ∧ f'.InStep ∧ Served rand f c.requests resp f' := by
  cases c with
  | erase sec =>
    obtain ⟨resp, f', hrun, hex⟩ := erase_served rand h sec
    exact ⟨resp, f', hrun, hex.inStep, .single hex⟩
  | write addr src =>
    obtain ⟨resp, f', hrun, hex⟩ := write_served rand h hok
    exact ⟨resp, f', hrun, hex.inStep, .single hex⟩
  | read addr size dst =>
    obtain ⟨resp, dst', f', hrun, hin, hserved⟩ := readChunks_served size f addr 0 dst h hok
    exact ⟨resp, f', by rw [run, spiFlashRead_eq, hrun]; rfl, hin, hserved⟩

theorem Call.broken (h : f.InStep) {c : Call} (hbad : ¬ c.ok f.store) {resp : EspErr}
    (hrun : c.run rand f = some (resp, f')) : ¬ f'.InStep := by
  cases c with
  | erase sec => exact absurd trivial hbad
  | write addr src => exact write_broken h hbad hrun
  | read addr size dst =>
    rw [run, spiFlashRead_eq, readChunks_blocks size f addr 0 dst h hbad] at hrun
    simp at hrun

theorem Lockstep.inStep {cs : List Call} (h : Lockstep rand f cs) : f.InStep := by
  cases cs with
  | nil => exact h
  | cons c cs => exact h.1

end Espmod.Flash
