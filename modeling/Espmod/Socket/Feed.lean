/-
# Espmod.Socket.Feed — the receiver on a stretch of characters

What `rx` does to a whole frame when nothing else runs: data in which every `0xff` is doubled goes to
the selected index (`feed_payload`), a port prefix selects the descriptor of its port
(`feed_prefix`), and the text of a request reaches `takerequest` without its blanks
(`feed_request`).
-/
import Espmod.Socket.Effects

namespace Espmod.Socket

open Espmod.Lib Espmod.Lib.Text

/-- The receiver gets these characters, one after the other. -/
def Sockets.feed (s : Sockets) (room : Nat) (cs : Bytes) : Sockets :=
  cs.foldl (fun s c => s.rx room c) s

/-- Data as it travels: a `0xff` is sent twice. -/
def escaped (payload : Bytes) : Bytes := payload.flatMap fun b => if b = 0xff then [b, b] else [b]

/-- Data without a `0xff` travels as it is. -/
theorem escaped_of_notMem {payload : Bytes} (h : 0xff ∉ payload) : escaped payload = payload := by
  induction payload with
  | nil => rfl
  | cons b bs ih =>
    have hb : b ≠ 0xff := fun heq => h (heq ▸ List.mem_cons_self ..)
    have hbs := ih fun hmem => h (List.mem_cons_of_mem _ hmem)
    unfold escaped at hbs ⊢
    rw [List.flatMap_cons, if_neg hb, hbs]
    rfl

namespace Sockets

variable {s : Sockets} {room : Nat}

@[simp] theorem feed_nil : s.feed room [] = s := rfl

@[simp] theorem feed_cons (c : UInt8) (cs : Bytes) :
    s.feed room (c :: cs) = (s.rx room c).feed room cs := rfl

theorem feed_append (cs ds : Bytes) :
    s.feed room (cs ++ ds) = (s.feed room cs).feed room ds := List.foldl_append

/-! ## §1 — data -/

/-- A data character takes its branch, whether it travels alone or doubled. -/
theorem feed_escaped_single (hpc : s.pc = .top) (b : UInt8) :
    s.feed room (if b = 0xff then [b, b] else [b]) = s.data b := by
  split
  · rename_i hb
    subst hb
    simp only [feed_cons, feed_nil, rx, hpc, if_true]
    rfl
  · rename_i hb
    simp only [feed_cons, feed_nil, rx, hpc, if_neg hb]

theorem feed_escaped_cons (hpc : s.pc = .top) (b : UInt8) (bs : Bytes) :
    s.feed room (escaped (b :: bs)) = (s.data b).feed room (escaped bs) := by
  rw [escaped, List.flatMap_cons, feed_append, feed_escaped_single hpc]
  rfl

/-- The index a data character goes to. -/
def selected (s : Sockets) : Option Nat :=
  if s.portclosed then getnotlisten s.fdlist s.port else s.ind

theorem refresh_eq : s.refresh = { s with ind := s.selected, portclosed := false } := by
  unfold refresh selected
  split
  · rfl
  · rename_i h
    have hfalse : s.portclosed = false := by simpa using h
    rw [← hfalse]

/-- What a data character does. -/
theorem data_eq (b : UInt8) :
    s.data b = match s.selected with
      | none => { s with pc := .top, ind := none, portclosed := false }.notify
      | some ind => { s with pc := .top, ind := some ind, portclosed := false }.notify.pushAt ind [b] := by
  unfold data
  rw [refresh_eq]
  have hsel : ({ s with pc := .top } : Sockets).selected = s.selected := rfl
  dsimp only
  rw [hsel]
  cases s.selected <;> rfl

/-- The state after a stretch of data that has a place to go, or none. -/
structure Took (s r : Sockets) (sel : Option Nat) (payload : Bytes) : Prop where
  fdlist : r.fdlist = match sel with
    | none => s.fdlist
    | some ind => update s.fdlist ind (·.push payload)
  pc : r.pc = .top
  ind : r.ind = sel
  portclosed : r.portclosed = false
  port : r.port = s.port

/-- A data character goes to the selected index. -/
theorem data_took (b : UInt8) (hlt : ∀ ind ∈ s.selected, ind < s.fdlist.length) :
    Took s (s.data b) s.selected [b] := by
  rw [data_eq]
  cases hsel : s.selected with
  | none => exact ⟨rfl, rfl, rfl, rfl, rfl⟩
  | some ind =>
    have hlt' : ind < s.fdlist.length := hlt ind hsel
    dsimp only
    rw [pushAt_of_lt (by exact hlt')]
    exact ⟨rfl, rfl, rfl, rfl, rfl⟩

theorem update_push_push (fdlist : List Fd) (ind : Nat) (bs cs : Bytes) :
    update (update fdlist ind (·.push bs)) ind (·.push cs) = update fdlist ind (·.push (bs ++ cs)) := by
  rw [update_update]
  congr 1
  funext f
  simp [Fd.push]

/-- Two stretches make one. -/
theorem Took.append {r t : Sockets} {sel : Option Nat} {bs cs : Bytes} (h : Took s r sel bs)
    (h' : Took r t sel cs) : Took s t sel (bs ++ cs) := by
  refine ⟨?_, h'.pc, h'.ind, h'.portclosed, h'.port.trans h.port⟩
  have hf := h.fdlist
  have hf' := h'.fdlist
  cases sel with
  | none => exact hf'.trans hf
  | some ind =>
    dsimp only at hf hf' ⊢
    rw [hf', hf, update_push_push]

/-- **Data goes to the selected index, in order and unchanged.** -/
theorem feed_payload (hpc : s.pc = .top) {payload : Bytes} (hne : payload ≠ [])
    (hlt : ∀ ind ∈ s.selected, ind < s.fdlist.length) :
    Took s (s.feed room (escaped payload)) s.selected payload := by
  induction payload using List.reverseRecOn with
  | nil => exact absurd rfl hne
  | append_singleton bs b ih =>
    have hsplit : escaped (bs ++ [b]) = escaped bs ++ if b = 0xff then [b, b] else [b] := by
      simp [escaped]
    rw [hsplit, feed_append]
    by_cases hbs : bs = []
    · subst hbs
      rw [show s.feed room (escaped []) = s from rfl, feed_escaped_single hpc]
      exact data_took b hlt
    · have htook := ih hbs
      set r := s.feed room (escaped bs)
      have hsel : r.selected = s.selected := by
        rw [selected, htook.portclosed, if_neg (by simp), htook.ind]
      have hlen : r.fdlist.length = s.fdlist.length := by
        rw [htook.fdlist]
        split
        · rfl
        · rw [update, List.length_modify]
      have hlast := data_took b (s := r) (by rwa [hsel, hlen])
      rw [feed_escaped_single htook.pc]
      exact htook.append (hsel ▸ hlast)

/-- Where the index is outside the table the receiver writes outside it. -/
theorem feed_payload_crashes (hpc : s.pc = .top) {payload : Bytes} (hne : payload ≠ []) {ind : Nat}
    (hsel : s.selected = some ind) (hge : s.fdlist.length ≤ ind) :
    (s.feed room (escaped payload)).pc = .crashed := by
  have hstays : ∀ (cs : Bytes) (r : Sockets), r.pc = .crashed → (r.feed room cs).pc = .crashed := by
    intro cs
    induction cs with
    | nil => intro r hr; exact hr
    | cons c cs ih =>
      intro r hr
      exact ih _ (by simp only [rx, hr])
  cases payload with
  | nil => exact absurd rfl hne
  | cons b bs =>
    rw [feed_escaped_cons hpc]
    refine hstays _ _ ?_
    rw [data_eq, hsel]
    have hnot : ¬ ind < s.fdlist.length := by omega
    simp [pushAt, notify, hnot]

/-! ## §2 — requests -/

/-- Text of a request in front of the character that ends it. -/
theorem feed_request {connect : Bool} (cs : Bytes) :
    ∀ {s : Sockets} {firstcolon : Bool} {msg : Bytes}, s.pc = .request connect firstcolon msg →
      chr '\n' ∉ cs → chr ':' ∉ cs →
        s.feed room cs =
          { s with pc := .request connect firstcolon (msg ++ cs.filter (· ≠ chr ' ')) } := by
  induction cs with
  | nil =>
    intro s firstcolon msg hpc _ _
    simp [← hpc]
  | cons c cs ih =>
    intro s firstcolon msg hpc hlf hcolon
    have hc : c ≠ chr '\n' ∧ c ≠ chr ':' := by
      constructor <;> rintro rfl
      · exact hlf (by simp)
      · exact hcolon (by simp)
    have hlf' : chr '\n' ∉ cs := fun h => hlf (List.mem_cons_of_mem _ h)
    have hcolon' : chr ':' ∉ cs := fun h => hcolon (List.mem_cons_of_mem _ h)
    rw [feed_cons, rx, hpc]
    dsimp only
    by_cases hblank : c = chr ' '
    · rw [if_pos hblank, ih hpc hlf' hcolon']
      simp [hblank]
    · have hend : ¬ (c = chr '\n' ∨ c = chr ':' ∧ firstcolon = true) := by
        rintro (h | h)
        · exact hc.1 h
        · exact hc.2 h.1
      have hfirst : (firstcolon || c == chr ':') = firstcolon := by simp [hc.2]
      rw [if_neg hblank, if_neg hend, hfirst, ih rfl hlf' hcolon']
      simp [hblank]

/-- The text of a request: up to the end of a line or the second colon. -/
structure RequestText (body : Bytes) (last : UInt8) : Prop where
  line : chr '\n' ∉ body
  colons : body.count (chr ':') ≤ 1
  last : last = chr '\n' ∨ last = chr ':' ∧ chr ':' ∈ body

/-- The character behind `0xff`. -/
def command (connect : Bool) : UInt8 := if connect then chr 'c' else chr 's'

/-- The receiver leaves its read when it takes a request. -/
theorem takerequest_pc (pc : Pc) (connect : Bool) (msg : Bytes) :
    { s with pc := pc }.takerequest room connect msg = s.takerequest room connect msg := rfl

theorem rx_command (hpc : s.pc = .top) (connect : Bool) (cs : Bytes) :
    s.feed room (0xff :: command connect :: cs) =
      { s with pc := .request connect false [] }.feed room cs := by
  have hc : chr 'c' ≠ 0xff ∧ isDigit (chr 'c') = false := by decide
  have hs : chr 's' ≠ 0xff ∧ isDigit (chr 's') = false ∧ chr 's' ≠ chr 'c' := by decide
  have hff : s.rx room 0xff = { s with pc := .esc } := by simp [rx, hpc]
  rw [feed_cons, feed_cons, hff]
  congr 1
  cases connect with
  | true => simp [command, rx, escape, hc]
  | false => simp [command, rx, escape, hs]

/-- The first colon of a request. -/
theorem rx_colon {connect : Bool} {msg : Bytes} :
    ({ s with pc := .request connect false msg } : Sockets).rx room (chr ':') =
      { s with pc := .request connect true (msg ++ [chr ':']) } := by
  have hcolon : chr ':' ≠ chr ' ' ∧ chr ':' ≠ chr '\n' := by decide
  simp [rx, hcolon.1, hcolon.2]

/-- The character that ends a request. -/
theorem rx_last {connect firstcolon : Bool} {msg : Bytes} {last : UInt8}
    (hlast : last = chr '\n' ∨ last = chr ':' ∧ firstcolon = true) :
    ({ s with pc := .request connect firstcolon msg } : Sockets).rx room last =
      s.takerequest room connect (msg ++ [last]) := by
  have hblank : last ≠ chr ' ' := by
    rcases hlast with rfl | ⟨rfl, -⟩ <;> decide
  simp only [rx, if_neg hblank, if_pos hlast, takerequest_pc]

/-- **The text of a request reaches `takerequest` whole.** -/
theorem feed_text (hpc : s.pc = .top) (connect : Bool) {body : Bytes} {last : UInt8}
    (h : RequestText body last) : s.feed room (0xff :: command connect :: (body ++ [last])) =
      s.takerequest room connect ((body ++ [last]).filter (· ≠ chr ' ')) := by
  have hblank : last ≠ chr ' ' := by
    rcases h.last with rfl | ⟨rfl, -⟩ <;> decide
  have hfilter : [last].filter (· ≠ chr ' ') = [last] := by simp [hblank]
  rw [rx_command hpc, feed_append, List.filter_append, hfilter, feed_cons, feed_nil]
  by_cases hcolon : chr ':' ∈ body
  · obtain ⟨l, r, rfl, hl⟩ := List.eq_append_cons_of_mem hcolon
    have hr : chr ':' ∉ r := by
      have hcount := h.colons
      rw [List.count_append, List.count_cons_self] at hcount
      exact List.count_eq_zero.mp (by omega)
    have hline := h.line
    simp only [List.mem_append, List.mem_cons, not_or] at hline
    rw [feed_append, feed_request l rfl hline.1 hl, feed_cons, rx_colon,
      feed_request r rfl hline.2.2 hr, rx_last (h.last.imp_right fun h => ⟨h.1, rfl⟩)]
    simp [show chr ':' ≠ chr ' ' by decide, takerequest_pc]
  · rw [feed_request body rfl h.line hcolon,
      rx_last (h.last.imp_right fun h => absurd h.2 hcolon), List.nil_append, takerequest_pc]

/-- The text between `0xff s` and the payload: an address, a colon, the port, a colon. -/
structure Header (text : Bytes) (port : Int) : Prop where
  parts : ∃ l r, text = l ++ chr ':' :: (r ++ [chr ':']) ∧ chr '\n' ∉ l ∧ chr ':' ∉ l ∧ chr '\n' ∉ r ∧
    chr ':' ∉ r
  request : requests (text.filter (· ≠ chr ' ')) port

/-- **A datagram header reaches `takerequest` whole.** -/
theorem feed_header (hpc : s.pc = .top) {text : Bytes} {port : Int} (h : Header text port) :
    s.feed room (0xff :: chr 's' :: text) =
      s.takerequest room false (text.filter (· ≠ chr ' ')) := by
  obtain ⟨l, r, rfl, hl, hl', hr, hr'⟩ := h.parts
  have hlf : chr '\n' ≠ chr ':' := by decide
  have htext : RequestText (l ++ chr ':' :: r) (chr ':') := by
    refine ⟨by simp [hl, hr, hlf], ?_, Or.inr ⟨rfl, by simp⟩⟩
    rw [List.count_append, List.count_cons_self, List.count_eq_zero.mpr hl', List.count_eq_zero.mpr hr']
  have hfeed : s.feed room (0xff :: command false :: ((l ++ chr ':' :: r) ++ [chr ':'])) = _ :=
    feed_text hpc false htext
  rwa [List.append_assoc, List.cons_append] at hfeed

/-! ## §3 — port prefixes -/

theorem digit_range {token : UInt8} (h : isDigit token = true) : 0 ≤ digit token ∧ digit token ≤ 9 := by
  simp only [isDigit, Bool.and_eq_true, decide_eq_true_eq] at h
  have h₁ : 48 ≤ token.toNat := UInt8.le_iff_toNat_le.mp h.1
  have h₂ : token.toNat ≤ 57 := UInt8.le_iff_toNat_le.mp h.2
  unfold digit
  omega

theorem int_of_range {v : Int} (h₀ : 0 ≤ v) (h₁ : v < 2 ^ 31) : int v = v :=
  Int.bmod_eq_of_le (by omega) (by omega)

/-- **The digits of a port, read one by one**, by any receiver whose states between them are `state`
of the number read so far. -/
theorem foldl_showNat {σ : Type} {f : σ → UInt8 → σ} {start : σ} (state : Int → σ)
    (hfirst : ∀ c, isDigit c = true → f start c = state (digit c))
    (hnext : ∀ v c, isDigit c = true → f (state v) c = state (int (v * 10 + digit c))) (n : Nat) :
    n < 2 ^ 31 → (showNat 10 n).foldl f start = state n := by
  have hdigit : ∀ d < 10, isDigit (digitChar d) = true ∧ digit (digitChar d) = (d : Int) := by decide
  induction n using Nat.strongRecOn with
  | ind n ih =>
    intro hn
    by_cases hsmall : n < 10
    · rw [showNat_of_lt hsmall, List.foldl_cons, List.foldl_nil, hfirst _ (hdigit n hsmall).1,
        (hdigit n hsmall).2]
    · have hlast : n % 10 < 10 := Nat.mod_lt n (by decide)
      rw [showNat_of_le (Nat.not_lt.mp hsmall), List.foldl_append, ih (n / 10) (by omega) (by omega),
        List.foldl_cons, List.foldl_nil, hnext _ _ (hdigit _ hlast).1, (hdigit _ hlast).2,
        int_of_range (by omega) (by omega)]
      congr 1
      omega

/-- What `"\xff%d:"` prints of a port. -/
theorem portPrefix_eq {port : Int} (h : 0 ≤ port) :
    portPrefix port = 0xff :: (showNat 10 port.toNat ++ [chr ':']) := by
  unfold portPrefix showInt
  rw [if_neg (Int.not_lt.mpr h)]

/-- **A port prefix selects the descriptor of its port.** -/
theorem feed_prefix (hpc : s.pc = .top) {port : Int} (h₀ : 0 ≤ port) (h₁ : port < 2 ^ 31) {ind : Nat}
    (hind : getnotlisten s.fdlist port = some ind) :
    s.feed room (portPrefix port) = { s with pc := .top, port := port, ind := some ind } := by
  have hff : s.rx room 0xff = { s with pc := .esc } := by simp [rx, hpc]
  have hread : ({ s with pc := .esc } : Sockets).feed room (showNat 10 port.toNat) =
      { s with pc := .digits, port := port.toNat } := by
    refine foldl_showNat (fun v => { s with pc := .digits, port := v }) ?_ ?_ port.toNat (by omega)
    · intro c hc
      have hne : c ≠ 0xff := by
        rintro rfl
        exact absurd hc (by decide)
      simp only [rx, if_neg hne, escape, hc, if_true]
    · intro v c hc
      simp only [rx, hc, if_true]
  have hport : ((port.toNat : Nat) : Int) = port := Int.toNat_of_nonneg h₀
  have hcolon : isDigit (chr ':') = false ∧ chr ':' ≠ chr '!' ∧
      ¬ (chr ':' = chr 'y' ∨ chr ':' = chr 'n') := by decide
  rw [portPrefix_eq h₀, feed_cons, feed_append, hff, hread, hport]
  simp only [feed_cons, feed_nil, rx, hcolon.1, Bool.false_eq_true, if_false, terminator, hind,
    if_neg hcolon.2.1, if_neg hcolon.2.2]

end Sockets

end Espmod.Socket
