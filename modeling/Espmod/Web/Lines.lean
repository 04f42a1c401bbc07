/-
# Espmod.Web.Lines — the two readers of lines

`webclient::readln` and `__espm_readline` were written apart, one at each end of the channel. On a
buffer that holds a CR LF both give the text before the first of them and leave what follows it
(`alone_line`, `espmReadline_line`). What `__espm_readline` returns is the length of that text only
when the count starts at 0, and nothing makes it start there (`readers_agree`).
-/
import Espmod.Socket.Readline
import Espmod.Web.Bench

namespace Espmod.Web

open Espmod.Lib Espmod.Lib.Text Espmod.Socket

namespace Bench

variable {w : Bench} {r ind : Nat} {port : Int} {k : LineFor} {msg : Bytes} {crseen : Bool}

/-! ## §1 — `webclient::readln` by itself -/

/-- The thread `r` goes on `n` times, and nothing else happens. -/
def alone (fromString : Bytes → Option UInt32) (r room : Nat) (luck : Bool) (n : Nat) (w : Bench) :
    Bench :=
  (turn fromString r room luck)^[n] w

/-- A character of a line. -/
theorem goOn_readln (c : UInt8) : w.goOn r port ind (.readln k msg crseen) (some c) =
    w.setTask r
      ((Lines.next (chr '\r') (chr '\n') crseen c).elim (.line k msg) fun t =>
        .reading port ind (.readln k (msg ++ t.1) t.2) none) := by
  unfold goOn Lines.next
  by_cases hend : c = chr '\n' ∧ crseen = true
  · simp only [if_pos hend, Option.elim]
  · simp only [if_neg hend, Option.elim]
    by_cases hcr : c = chr '\r' <;> cases crseen <;> simp [hcr]

/-- `_portlist` when the buffer of the entry `e` at `ind` has been read up to `rest`. -/
def readTo (ind : Nat) (e : WifiPort) (rest : Bytes) (portlist : List WifiPort) : List WifiPort :=
  if rest = [] ∧ e.closed then portlist.eraseIdx ind else portlist.set ind { e with buffer := rest }

/-- A character that is there is taken. -/
theorem readAt_cons {e : WifiPort} {c : UInt8} {rest : Bytes} (he : w.client.portlist[ind]? = some e)
    (hbuffer : e.buffer = c :: rest) (k : ReadFor) :
    ∃ w' : Bench, w.readAt r port ind k = w'.goOn r port ind k (some c) ∧ w'.threads = w.threads ∧
      w'.client.portlist = readTo ind e rest w.client.portlist := by
  have hread : w.readAt r port ind k =
      if drains e then ((w.popFront port ind).eraseAt ind).goOn r port ind k (some c)
      else (w.popFront port ind).goOn r port ind k (some c) := by
    unfold readAt
    rw [he]
    dsimp only
    rw [hbuffer]
  have hpop : (w.popFront port ind).client.portlist =
      w.client.portlist.set ind { e with buffer := rest } := by
    have : Inhabited WifiPort := ⟨e⟩
    unfold popFront
    dsimp only
    rw [List.modify_eq_set, he, Option.getD_some, hbuffer, List.tail_cons]
  have hdrains : drains e = true ↔ rest = [] ∧ e.closed = true := by
    unfold drains
    rw [hbuffer, List.tail_cons, Bool.and_eq_true, List.isEmpty_iff]
  unfold readTo
  rw [hread]
  by_cases hdrained : rest = [] ∧ e.closed = true
  · rw [if_pos (hdrains.mpr hdrained), if_pos hdrained]
    refine ⟨_, rfl, rfl, ?_⟩
    show ((w.popFront port ind).client.portlist).eraseIdx ind = _
    rw [hpop, List.eraseIdx_set_eq]
  · rw [if_neg (hdrains.not.mpr hdrained), if_neg hdrained]
    exact ⟨_, rfl, rfl, hpop⟩

theorem getElem?_setTask (hr : r < w.threads.length) (t : Task) :
    (w.setTask r t).threads[r]? = some t := List.getElem?_set_self hr

/-- **A line that is in the buffer is read without a wait**, one character a turn. -/
theorem alone_scan (fromString : Bytes → Option UInt32) (room : Nat) (luck : Bool) {bs : Bytes} :
    ∀ {w : Bench} {e : WifiPort} {msg text rest : Bytes} {crseen : Bool},
    w.threads[r]? = some (.reading port ind (.readln k msg crseen) none) →
    w.client.portlist[ind]? = some e → e.buffer = bs →
    Lines.scan (chr '\r') (chr '\n') crseen bs = some (text, rest) →
    ∃ n w', alone fromString r room luck n w = w' ∧ w'.threads[r]? = some (.line k (msg ++ text)) ∧
      w'.client.portlist = readTo ind e rest w.client.portlist := by
  induction bs with
  | nil => exact fun _ _ _ h => nomatch h
  | cons c bs ih =>
    intro w e msg text rest crseen hthread he hbuffer hscan
    obtain ⟨w₁, hreadAt, hthreads, hportlist⟩ :
        ∃ w₁ : Bench, w.readAt r port ind (.readln k msg crseen) =
            w₁.goOn r port ind (.readln k msg crseen) (some c) ∧
          w₁.threads = w.threads ∧ w₁.client.portlist = readTo ind e bs w.client.portlist :=
      readAt_cons he hbuffer (.readln k msg crseen)
    have hr : r < w₁.threads.length := by
      rw [hthreads]
      exact (List.getElem?_eq_some_iff.mp hthread).1
    have hturn : w.turn fromString r room luck =
        w₁.goOn r port ind (.readln k msg crseen) (some c) := by
      unfold turn
      rw [hthread]
      exact hreadAt
    rw [goOn_readln] at hturn
    cases hn : Lines.next (chr '\r') (chr '\n') crseen c with
    | none =>
      rw [Lines.scan_end hn, Option.some.injEq, Prod.mk.injEq] at hscan
      obtain ⟨rfl, rfl⟩ := hscan
      rw [hn] at hturn
      refine ⟨1, _, hturn, ?_, hportlist⟩
      rw [List.append_nil]
      exact getElem?_setTask hr _
    | some t =>
      rw [Lines.scan_next hn, Option.map_eq_some_iff] at hscan
      obtain ⟨⟨text', rest'⟩, hscan, heq⟩ := hscan
      rw [Prod.mk.injEq] at heq
      obtain ⟨rfl, rfl⟩ := heq
      rw [hn] at hturn
      -- the line goes on, so there is a character behind this one
      have hmore : bs ≠ [] := by
        rintro rfl
        exact nomatch hscan
      have hopen : ¬ (bs = [] ∧ e.closed = true) := fun h => hmore h.1
      rw [readTo, if_neg hopen] at hportlist
      have he₁ (task : Task) :
          (w₁.setTask r task).client.portlist[ind]? = some { e with buffer := bs } := by
        show w₁.client.portlist[ind]? = _
        rw [hportlist, List.getElem?_set_self (List.getElem?_eq_some_iff.mp he).1]
      obtain ⟨n, w', hn', hthread', hportlist'⟩ := ih (getElem?_setTask hr _) (he₁ _) rfl hscan
      refine ⟨n + 1, w', ?_, ?_, ?_⟩
      · rw [← hn']
        unfold alone
        rw [Function.iterate_succ_apply, hturn]
        rfl
      · rw [hthread', List.append_assoc]
      · rw [hportlist']
        show readTo ind { e with buffer := bs } rest' w₁.client.portlist = _
        rw [hportlist]
        unfold readTo
        rw [List.eraseIdx_set_eq, List.set_set]

/-- **`webclient::readln` on a buffer with a line**: from the call to behind its line. -/
theorem alone_line (fromString : Bytes → Option UInt32) (room : Nat) (luck : Bool) {e : WifiPort}
    {text rest : Bytes} (hr : r < w.threads.length) (hind : getind w.client.portlist port = some ind)
    (he : w.client.portlist[ind]? = some e)
    (hline : Lines.scan (chr '\r') (chr '\n') false e.buffer = some (text, rest)) :
    ∃ n w', alone fromString r room luck n (w.startLine r port k) = w' ∧
      w'.threads[r]? = some (.line k text) ∧
        w'.client.portlist = readTo ind e rest w.client.portlist := by
  have hstart : w.startLine r port k = w.setTask r (.reading port ind (.readln k [] false) none) := by
    unfold startLine
    rw [hind]
  rw [hstart]
  exact alone_scan fromString room luck (getElem?_setTask hr _) he rfl hline

end Bench

/-! ## §2 — the two of them -/

/-- One line, given to both: the buffer of a descriptor of the firmware and that of a port of the test
bench hold the same characters. -/
structure SameLine (line rest : Bytes) where
  fdlist : List Fd
  s : Int
  fdind : Nat
  f : Fd
  fd_getind : Socket.getind fdlist s = some fdind
  fd_entry : fdlist[fdind]? = some f
  fd_buffer : f.buffer = line ++ str "\r\n" ++ rest
  bench : Bench
  port : Int
  ind : Nat
  e : WifiPort
  getind : Web.getind bench.client.portlist port = some ind
  entry : bench.client.portlist[ind]? = some e
  buffer : e.buffer = line ++ str "\r\n" ++ rest
  r : Nat
  thread : r < bench.threads.length

/-- `__espm_readline` gives the line, leaves the rest and returns how many characters it has put into
the empty string. -/
def FirmwareReads {line rest : Bytes} (c : SameLine line rest) (tmout starttime : Nat)
    (usetimeout : Bool) (p : BitVec 32) (ws : List Wake) : Prop :=
  ∃ got, espmReadline c.fdlist tmout starttime c.s [] usetimeout p ws = some got ∧
    got.mem = line ∧ got.buffer = rest ∧ got.ret = line.length ∧ 0 ≤ got.ret

/-- `webclient::readln` gives the line and leaves the rest. -/
def BenchReads {line rest : Bytes} (c : SameLine line rest) (fromString : Bytes → Option UInt32)
    (room : Nat) (luck : Bool) : Prop :=
  ∃ n w', Bench.alone fromString c.r room luck n (c.bench.startLine c.r c.port .readln) = w' ∧
    w'.threads[c.r]? = some (.line .readln line) ∧
      w'.client.portlist = Bench.readTo c.ind c.e rest c.bench.client.portlist

theorem scan_first {line : Bytes} (hline : ¬ str "\r\n" <:+: line) (rest : Bytes) :
    Lines.scan (chr '\r') (chr '\n') false (line ++ str "\r\n" ++ rest) = some (line, rest) := by
  have hstr : str "\r\n" = [chr '\r', chr '\n'] := by decide
  rw [hstr] at hline ⊢
  exact Lines.scan_line (by decide) rest hline

/-- A count that starts anywhere else than at 0 ends elsewhere, and one of 31 bits ends there. -/
theorem count_eq (p : BitVec 32) (n : Nat) :
    (p + BitVec.ofNat 32 n).toInt = n ↔ p = 0 ∧ n < 2 ^ 31 := by
  have hsmall (hn : n < 2 ^ 31) : (BitVec.ofNat 32 n).toInt = n := by
    rw [BitVec.toInt_eq_toNat_of_lt, BitVec.toNat_ofNat, Nat.mod_eq_of_lt (by omega)]
    rw [BitVec.toNat_ofNat]
    omega
  constructor
  · intro h
    have hlt := BitVec.toInt_lt (x := p + BitVec.ofNat 32 n)
    have hn : n < 2 ^ 31 := by omega
    have hsum : p + BitVec.ofNat 32 n = 0#32 + BitVec.ofNat 32 n := by
      rw [BitVec.zero_add]
      apply BitVec.eq_of_toInt_eq
      rw [h, hsmall hn]
    exact ⟨(BitVec.add_left_inj _).mp hsum, hn⟩
  · rintro ⟨rfl, hn⟩
    show (0#32 + BitVec.ofNat 32 n).toInt = n
    rw [BitVec.zero_add, hsmall hn]

/-- **The readers agree on the line and on the rest**, and the count is right if and only if it starts
at 0, for a line that an `int` can count. -/
theorem readers_agree (line rest : Bytes) (hline : ¬ str "\r\n" <:+: line) (c : SameLine line rest)
    (fromString : Bytes → Option UInt32) (room : Nat) (luck : Bool) (tmout starttime : Nat)
    (usetimeout : Bool) (p : BitVec 32) (ws : List Wake) :
    BenchReads c fromString room luck ∧ FirmwareReads c tmout starttime usetimeout p ws ↔
      p = 0 ∧ line.length < 2 ^ 31 := by
  have hbench : BenchReads c fromString room luck := by
    refine Bench.alone_line fromString room luck c.thread c.getind c.entry ?_
    rw [c.buffer]
    exact scan_first hline rest
  have hscan : Lines.scan (chr '\r') (chr '\n') false c.f.buffer = some (line, rest) := by
    rw [c.fd_buffer]
    exact scan_first hline rest
  have hfirmware := espmReadline_line c.fd_getind c.fd_entry hscan tmout starttime [] usetimeout p ws
  rw [← count_eq]
  constructor
  · rintro ⟨-, got, hgot, -, -, hret, -⟩
    rw [hfirmware] at hgot
    obtain rfl := Option.some.inj hgot
    exact hret
  · intro hcount
    refine ⟨hbench, _, hfirmware, rfl, rfl, hcount, ?_⟩
    dsimp only
    rw [hcount]
    exact Int.natCast_nonneg _

/-- The line `ab`, in the buffers of a descriptor and of a port. -/
def abLine : SameLine (str "ab") [] where
  fdlist := [Fd.new 0 0, { Fd.new 3 0 with buffer := str "ab\r\n" }]
  s := 3
  fdind := 1
  f := { Fd.new 3 0 with buffer := str "ab\r\n" }
  fd_getind := by decide
  fd_entry := rfl
  fd_buffer := by decide
  bench :=
    { Bench.start 1 with
      client := { Webclient.boot with portlist := [⟨80, false, str "ab\r\n"⟩] } }
  port := 80
  ind := 0
  e := ⟨80, false, str "ab\r\n"⟩
  getind := by decide
  entry := rfl
  buffer := by decide
  r := 0
  thread := by decide

theorem readers_agree_ab : FirmwareReads abLine 0 0 false 0 [] :=
  ((readers_agree (str "ab") [] (by decide) abLine (fun _ => none) 0 false 0 0 false 0 []).mpr
    ⟨rfl, by decide⟩).2

/-- A count that happens to start at -3 returns -1 for the same line. -/
theorem count_off : ¬ FirmwareReads abLine 0 0 false (BitVec.ofInt 32 (-3)) [] := by
  rintro ⟨got, hgot, -, -, hret, -⟩
  have hline : espmReadline abLine.fdlist 0 0 3 [] false (BitVec.ofInt 32 (-3)) [] =
      some ⟨-1, none, str "ab", [], 0⟩ := by decide
  rw [show abLine.s = 3 from rfl, hline] at hgot
  obtain rfl := Option.some.inj hgot
  exact absurd hret (by decide)

end Espmod.Web
