/-
# Espmod.Socket.Demux — the receiver against a lexer that sees no table

`Lexer` reads the incoming characters alone and says of each whether it is payload, and of which
port. `Demuxed` is the promise about one step: payload is appended to the descriptor that is open and
not listening for its port at that moment, or dropped when there is none, and nothing is written
outside the table. `incoming_demultiplexed` proves it of every interleaving in which the calls of
other threads leave the index the receiver holds meaningful — the receiver looks for it again in one
place only, and only after a close (`undisturbed`).
-/
import Espmod.Socket.Feed
import Espmod.Socket.Integrity

namespace Espmod.Socket

open Espmod.Lib Espmod.Lib.Text Sockets

/-! ## §1 — what the characters are -/

/-- Where a stream of characters stands; `cur` is the port whose payload it carries. -/
inductive Lexer where
  | plain (cur : Option Int)
  /-- behind a `0xff` -/
  | esc (cur : Option Int)
  | digits (port : Int)
  /-- in the line of an answer -/
  | line (port : Int)
  /-- in the line of a close -/
  | flush
  /-- in a control message -/
  | control (cur : Option Int)
  /-- in a connect request or a datagram header, with its text so far -/
  | request (connect firstcolon : Bool) (msg : Bytes) (cur : Option Int)
  deriving DecidableEq, Repr

namespace Lexer

/-- The character ends the text of a request. -/
def ends (firstcolon : Bool) (c : UInt8) : Prop := c = chr '\n' ∨ c = chr ':' ∧ firstcolon = true

instance (firstcolon : Bool) (c : UInt8) : Decidable (ends firstcolon c) := by
  unfold ends
  infer_instance

def next : Lexer → UInt8 → Lexer
  | plain cur, c => if c = 0xff then esc cur else plain cur
  | esc cur, c =>
    if c = 0xff then plain cur
    else if isDigit c then digits (digit c)
    else if c = chr 'c' then request true false [] cur
    else if c = chr 's' then request false false [] none
    else control cur
  | digits port, c =>
    if isDigit c then digits (port * 10 + digit c)
    else if c = chr '!' then flush
    else if c = chr 'y' ∨ c = chr 'n' then line port
    else if c = chr ':' then plain (some port)
    else plain none
  | line port, c => if c = chr '\n' then plain none else line port
  | flush, c => if c = chr '\n' then plain none else flush
  | control cur, c => if c = chr '\n' then plain cur else control cur
  | request connect firstcolon msg cur, c =>
    if c = chr ' ' then request connect firstcolon msg cur
    else if ends firstcolon c then plain cur
    else request connect (firstcolon || c == chr ':') (msg ++ [c]) cur

/-- The port whose payload follows, once the present frame is over. -/
def cur : Lexer → Option Int
  | plain cur => cur
  | esc cur => cur
  | control cur => cur
  | request _ _ _ cur => cur
  | _ => none

/-- What the character brings, and for which port. -/
def target : Lexer → UInt8 → Option (Int × Bytes)
  | plain (some port), c => if c = 0xff then none else some (port, [c])
  | esc (some port), c => if c = 0xff then some (port, [c]) else none
  | digits port, c => if c = chr 'y' ∨ c = chr 'n' then some (port, [0xff, c]) else none
  | line port, c => some (port, [c])
  | _, _ => none

end Lexer

/-! ## §2 — the promise and its condition -/

/-- The receiver, and where its input stands. -/
structure Wire where
  net : Sockets
  lexer : Lexer

namespace Wire

def boot : Wire := ⟨Sockets.boot, .plain none⟩

def step (w : Wire) : Event → Wire
  | .rx room c => ⟨w.net.rx room c, w.lexer.next c⟩
  | e => { w with net := w.net.step e }

end Wire

/-- The table after characters for a port. -/
def arrives (fdlist : List Fd) (port : Int) (bs : Bytes) : List Fd :=
  match getnotlisten fdlist port with
  | none => fdlist
  | some ind => update fdlist ind (·.push bs)

/-- **The promise about one step.** -/
def Demuxed (w : Wire) : Event → Prop
  | .rx room c => (w.net.rx room c).pc ≠ .crashed ∧
      ∀ t ∈ w.lexer.target c, (w.net.rx room c).fdlist = arrives w.net.fdlist t.1 t.2
  | e => (w.net.step e).pc ≠ .crashed

instance (w : Wire) : (e : Event) → Decidable (Demuxed w e)
  | .rx _ _ => inferInstanceAs (Decidable (_ ∧ _))
  | .socket _ _ _ | .bind _ _ | .listen _ _ | .accept _ _ _ _ _ | .close _ _ _ | .take _ _ =>
    inferInstanceAs (Decidable (_ ≠ _))

/-- The text of a request can be read. -/
def readable (msg : Bytes) : Prop := (scanf fmtRequest (cstr msg)).length = 5

instance (msg : Bytes) : Decidable (readable msg) := by
  unfold readable
  infer_instance

/-- What the receiver can make sense of: no `0xff` in an answer or a close for a port that had no
descriptor, no port number beyond an `int`, no connect request without an address. -/
def sound (s : Sockets) (c : UInt8) : Lexer → Prop
  | .line _ => s.pc = .top → c ≠ 0xff
  | .flush => s.pc = .top → c ≠ 0xff
  | .digits port => isDigit c = true → port * 10 + digit c < 2 ^ 31
  | .request true firstcolon msg _ => Lexer.ends firstcolon c → readable (msg ++ [c])
  | _ => True

instance (s : Sockets) (c : UInt8) (l : Lexer) : Decidable (sound s c l) := by
  unfold sound
  split <;> infer_instance

/-- A call leaves the index of a port's descriptor as it is. -/
def sameIndex (s : Sockets) (e : Event) (port : Int) : Prop :=
  getnotlisten (s.step e).fdlist port = getnotlisten s.fdlist port

instance (s : Sockets) (e : Event) (port : Int) : Decidable (sameIndex s e port) := by
  unfold sameIndex
  infer_instance

def isClose : Event → Bool
  | .close _ _ _ => true
  | _ => false

/-- What other threads may do. In the line of an answer: nothing that moves the index of its
descriptor. While payload of a port follows: closes, anything behind a close, and else nothing that
moves the index of its descriptor. -/
def steady (s : Sockets) (e : Event) : Lexer → Prop
  | .line port => sameIndex s e port
  | l => ∀ port ∈ l.cur, s.portclosed = true ∨ isClose e = true ∨ sameIndex s e port

instance (s : Sockets) (e : Event) (l : Lexer) : Decidable (steady s e l) := by
  unfold steady
  split <;> infer_instance

/-- **The condition on a step.** -/
def undisturbed (w : Wire) : Event → Prop
  | .rx _ c => sound w.net c w.lexer
  | e => w.net.orderly e ∧ steady w.net e w.lexer

instance (w : Wire) : (e : Event) → Decidable (undisturbed w e)
  | .rx _ c => inferInstanceAs (Decidable (sound w.net c w.lexer))
  | .socket _ _ _ | .bind _ _ | .listen _ _ | .accept _ _ _ _ _ | .close _ _ _ | .take _ _ =>
    inferInstanceAs (Decidable (_ ∧ _))

/-! ## §3 — indices -/

section Indices

variable {s s' : Sockets} {e : Event} {o c : List Int}

/-- `getnotlisten` reads nothing but the port and whether the entry listens. -/
theorem getnotlisten_congr {fdlist fdlist' : List Fd}
    (h : fdlist'.map (fun f => (f.islistening, f.port)) = fdlist.map fun f => (f.islistening, f.port))
    (port : Int) : getnotlisten fdlist' port = getnotlisten fdlist port := by
  have hkey : ∀ l : List Fd, getnotlisten l port = if port < 0 then none else
      (l.map fun f => (f.islistening, f.port)).findIdx? fun k => !k.1 && k.2 == port := by
    intro l
    rw [getnotlisten, List.findIdx?_map]
    rfl
  rw [hkey, hkey, h]

theorem rx_getnotlisten (room : Nat) (token : UInt8) (port : Int) :
    getnotlisten (s.rx room token).fdlist port = getnotlisten s.fdlist port :=
  getnotlisten_congr ((s.rx_filled room token).map _ fun _ _ _ => rfl) port

theorem rx_length (room : Nat) (token : UInt8) :
    (s.rx room token).fdlist.length = s.fdlist.length := by
  have h := congrArg List.length (s.rx_numbers room token).1
  rwa [List.length_map, List.length_map] at h

/-- A call raises the flag when it takes an entry away. -/
theorem Sockets.Effect.length_le (h : s.Effect e s' o c) :
    s'.portclosed = true ∨ s'.portclosed = s.portclosed ∧ s.fdlist.length ≤ s'.fdlist.length := by
  cases h with
  | aborted _ _ _ _ _ hs' => exact .inl hs'.portclosed
  | closed _ _ hs' => exact .inl hs'.portclosed
  | created _ _ hs' => exact .inr ⟨hs'.portclosed, by simp [hs'.fdlist]⟩
  | accepted _ _ _ _ _ hs' => exact .inr ⟨hs'.portclosed, by simp [hs'.fdlist, update]⟩
  | idle hs' => exact .inr ⟨hs'.portclosed, by simp [hs'.fdlist]⟩
  | bound _ _ hs' => exact .inr ⟨hs'.portclosed, by simp [hs'.fdlist, update]⟩
  | listening _ _ _ hs' => exact .inr ⟨hs'.portclosed, by simp [hs'.fdlist, update]⟩
  | discarded _ _ _ _ hs' => exact .inr ⟨hs'.portclosed, by simp [hs'.fdlist, update]⟩
  | taken _ hs' => exact .inr ⟨hs'.portclosed, by simp [hs'.fdlist, update]⟩

/-- A close raises the flag or does nothing. -/
theorem Sockets.Effect.close (h : s.Effect e s' o c) (he : isClose e = true) :
    s'.portclosed = true ∨ s'.fdlist = s.fdlist := by
  cases h with
  | idle hs' => exact .inr hs'.fdlist
  | closed _ _ hs' => exact .inl hs'.portclosed
  | _ => simp [isClose] at he

end Indices

/-! ## §4 — the receiver follows the lexer -/

/-- The receiver will find the descriptor of the port the payload is for. -/
def Selects (s : Sockets) (cur : Option Int) : Prop :=
  ∀ port ∈ cur, s.port = port ∧ (s.portclosed = true ∨ s.ind = getnotlisten s.fdlist port)

/-- **Receiver and lexer side by side.** An answer or a close for a port without descriptor finds
the receiver back at the top of its loop. -/
inductive Follows (s : Sockets) : Lexer → Prop
  | plain {cur : Option Int} (hpc : s.pc = .top) (hsel : Selects s cur) : Follows s (.plain cur)
  | esc {cur : Option Int} (hpc : s.pc = .esc) (hsel : Selects s cur) : Follows s (.esc cur)
  | digits {port : Int} (hpc : s.pc = .digits) (hport : s.port = port) (hpos : 0 ≤ port)
      (hint : port < 2 ^ 31) : Follows s (.digits port)
  | line {port : Int} {ind : Nat} (hpc : s.pc = .yn) (hind : s.ind = some ind)
      (hfound : getnotlisten s.fdlist port = some ind) : Follows s (.line port)
  | dropped {port : Int} (hpc : s.pc = .top) (hport : s.port = port)
      (hnone : getnotlisten s.fdlist port = none) (hind : s.portclosed = true ∨ s.ind = none) :
      Follows s (.line port)
  | flush (hpc : s.pc = .flush ∨ s.pc = .top) : Follows s .flush
  | control {cur : Option Int} (hpc : s.pc = .control) (hsel : Selects s cur) :
      Follows s (.control cur)
  | request {connect firstcolon : Bool} {msg : Bytes} {cur : Option Int}
      (hpc : s.pc = .request connect firstcolon msg) (hsel : Selects s cur)
      (hcur : connect = false → cur = none) :
      Follows s (.request connect firstcolon msg cur)

/-- The invariant: the table has its shape, an index that is not due for a new search is in it, and
the receiver follows the lexer. -/
structure Tracked (w : Wire) : Prop where
  shape : Integrity w.net
  bounded : w.net.portclosed = false → ∀ ind ∈ w.net.ind, ind < w.net.fdlist.length
  follows : Follows w.net w.lexer

theorem Tracked.boot : Tracked Wire.boot where
  shape := Held.boot.shape
  bounded := by simp [Wire.boot, Sockets.boot]
  follows := .plain rfl (by simp [Selects])

section Receiver

variable {s : Sockets} {room : Nat} {token : UInt8}

theorem selected_lt (h : s.portclosed = false → ∀ ind ∈ s.ind, ind < s.fdlist.length) :
    ∀ ind ∈ s.selected, ind < s.fdlist.length := by
  intro ind hind
  unfold selected at hind
  split at hind
  · exact getnotlisten_lt hind
  · rename_i hclosed
    exact h (by simpa using hclosed) ind hind

theorem Selects.selected {port : Int} (h : Selects s (some port)) :
    s.selected = getnotlisten s.fdlist port := by
  obtain ⟨rfl, hsel⟩ := h port rfl
  unfold Sockets.selected
  split
  · rfl
  · rename_i hclosed
    exact hsel.resolve_left hclosed

/-- The selection survives whatever leaves port, index, flag and keys of the table alone. -/
theorem Selects.congr {s' : Sockets} {cur : Option Int} (h : Selects s cur) (hport : s'.port = s.port)
    (hclosed : s'.portclosed = s.portclosed) (hind : s'.ind = s.ind)
    (hkeys : ∀ port, getnotlisten s'.fdlist port = getnotlisten s.fdlist port) : Selects s' cur := by
  intro port hp
  rw [hport, hclosed, hind, hkeys]
  exact h port hp

/-- A data character: it goes where the selection says, and the selection is then up to date. -/
theorem data_spec (hb : s.portclosed = false → ∀ ind ∈ s.ind, ind < s.fdlist.length) (token : UInt8) :
    Took s (s.data token) s.selected [token] ∧
      (∀ ind ∈ (s.data token).ind, ind < (s.data token).fdlist.length) ∧
      ∀ cur, Selects s cur → Selects (s.data token) cur := by
  have htook := data_took token (selected_lt hb)
  have hkeys : ∀ port, getnotlisten (s.data token).fdlist port = getnotlisten s.fdlist port :=
    getnotlisten_congr ((s.data_filled token).map _ fun _ _ _ => rfl)
  refine ⟨htook, ?_, ?_⟩
  · have hlen : (s.data token).fdlist.length = s.fdlist.length := by
      have h := congrArg List.length ((s.data_filled token).map Fd.fdn fun _ _ _ => rfl)
      rwa [List.length_map, List.length_map] at h
    rw [htook.ind, hlen]
    exact selected_lt hb
  · intro cur hsel port hp
    obtain rfl : cur = some port := hp
    refine ⟨htook.port.trans (hsel port rfl).1, .inr ?_⟩
    rw [htook.ind, hsel.selected, hkeys]

/-- What one character has to do. -/
structure Advances (s : Sockets) (l : Lexer) (token : UInt8) (r : Sockets) : Prop where
  follows : Follows r (l.next token)
  bounded : r.portclosed = false → ∀ ind ∈ r.ind, ind < r.fdlist.length
  arrived : ∀ t ∈ l.target token, r.fdlist = arrives s.fdlist t.1 t.2

/-- Nobody's payload: it is enough to follow. -/
theorem Advances.of_none {l : Lexer} {r : Sockets} (htarget : l.target token = none)
    (hfollows : Follows r (l.next token))
    (hb : r.portclosed = false → ∀ ind ∈ r.ind, ind < r.fdlist.length) : Advances s l token r :=
  ⟨hfollows, hb, by simp [htarget]⟩

theorem advances_data {l : Lexer} {cur : Option Int}
    (hb : s.portclosed = false → ∀ ind ∈ s.ind, ind < s.fdlist.length) (hsel : Selects s cur)
    (hnext : l.next token = .plain cur)
    (htarget : l.target token = cur.map fun port => (port, [token])) :
    Advances s l token (s.data token) := by
  obtain ⟨htook, hlt, hkeep⟩ := data_spec hb token
  refine ⟨hnext ▸ .plain htook.pc (hkeep cur hsel), fun _ => hlt, fun t ht => ?_⟩
  rw [htarget] at ht
  obtain ⟨port, rfl, rfl⟩ := Option.map_eq_some_iff.mp ht
  rw [htook.fdlist, hsel.selected]
  rfl

theorem advances_plain {cur : Option Int} (hpc : s.pc = .top)
    (hb : s.portclosed = false → ∀ ind ∈ s.ind, ind < s.fdlist.length) (hsel : Selects s cur) :
    Advances s (.plain cur) token (s.rx room token) := by
  unfold rx
  rw [hpc]
  dsimp only
  split
  · rename_i hff
    refine .of_none ?_ ?_ hb
    · cases cur <;> simp [Lexer.target, hff]
    · rw [Lexer.next, if_pos hff]
      exact .esc rfl hsel
  · rename_i hff
    refine advances_data hb hsel (by rw [Lexer.next, if_neg hff]) ?_
    cases cur <;> simp [Lexer.target, hff]

theorem advances_esc {cur : Option Int} (hpc : s.pc = .esc) (hlen : 0 < s.fdlist.length)
    (hb : s.portclosed = false → ∀ ind ∈ s.ind, ind < s.fdlist.length) (hsel : Selects s cur) :
    Advances s (.esc cur) token (s.rx room token) := by
  unfold rx
  rw [hpc]
  dsimp only
  split
  · rename_i hff
    refine advances_data hb hsel (by rw [Lexer.next, if_pos hff]) ?_
    cases cur <;> simp [Lexer.target, hff]
  · rename_i hff
    have htarget : (Lexer.esc cur).target token = none := by
      cases cur <;> simp [Lexer.target, hff]
    unfold escape
    split_ifs with hdigit hc hs
    · refine .of_none htarget ?_ hb
      rw [Lexer.next, if_neg hff, if_pos hdigit]
      have := digit_range hdigit
      exact .digits rfl rfl this.1 (by omega)
    · refine .of_none htarget ?_ hb
      rw [Lexer.next, if_neg hff, if_neg hdigit, if_pos hc]
      exact .request rfl hsel (by simp)
    · refine .of_none htarget ?_ hb
      rw [Lexer.next, if_neg hff, if_neg hdigit, if_neg hc, if_pos hs]
      exact .request rfl (by simp [Selects]) fun _ => rfl
    · rw [pushAt_of_lt (by exact hlen)]
      refine .of_none htarget ?_ (by simpa [update] using hb)
      rw [Lexer.next, if_neg hff, if_neg hdigit, if_neg hc, if_neg hs]
      exact .control rfl (hsel.congr rfl rfl rfl
        (getnotlisten_congr (update_map _ (g := (·.push [0xff, token])) (fun _ => rfl) 0)))

theorem advances_terminator (hdigit : isDigit token = false) :
    Advances s (.digits s.port) token (s.terminator token) := by
  have hnext : (Lexer.digits s.port).next token =
      if token = chr '!' then .flush
      else if token = chr 'y' ∨ token = chr 'n' then .line s.port
      else if token = chr ':' then .plain (some s.port) else .plain none := by
    rw [Lexer.next, if_neg (by simp [hdigit])]
  have hyn : ¬ (chr '!' = chr 'y' ∨ chr '!' = chr 'n') := by decide
  unfold terminator
  cases hfound : getnotlisten s.fdlist s.port with
  | none =>
    refine ⟨?_, by simp, fun t ht => ?_⟩
    · rw [hnext]
      split_ifs
      · exact .flush (.inr rfl)
      · exact .dropped rfl rfl hfound (.inr rfl)
      · exact .plain rfl fun p hp => by
          obtain rfl : s.port = p := by simpa using hp
          exact ⟨rfl, .inr hfound.symm⟩
      · exact .plain rfl (by simp [Selects])
    · -- nobody to take the beginning of an answer
      simp only [Lexer.target] at ht
      split at ht
      · obtain rfl : (s.port, [0xff, token]) = t := by simpa using ht
        simp [arrives, hfound]
      · simp at ht
  | some ind =>
    have hlt := getnotlisten_lt hfound
    dsimp only
    split_ifs with hbang hline
    · subst hbang
      refine .of_none (by simp [Lexer.target, hyn]) ?_ (fun _ i hi => ?_)
      · rw [hnext, if_pos rfl]
        exact .flush (.inl rfl)
      · obtain rfl : ind = i := by simpa using hi
        exact hlt
    · rw [pushAt_of_lt (by exact hlt)]
      have hkeys : getnotlisten (update s.fdlist ind (·.push [0xff, token])) s.port =
          getnotlisten s.fdlist s.port :=
        getnotlisten_congr (update_map _ (g := (·.push [0xff, token])) (fun _ => rfl) ind) s.port
      refine ⟨?_, fun _ i hi => ?_, fun t ht => ?_⟩
      · rw [hnext, if_neg hbang, if_pos hline]
        exact .line rfl rfl (hkeys.trans hfound)
      · obtain rfl : ind = i := by simpa using hi
        simpa [update] using hlt
      · simp only [Lexer.target, if_pos hline] at ht
        obtain rfl : (s.port, [0xff, token]) = t := by simpa using ht
        simp [arrives, hfound]
    · refine .of_none (by simp [Lexer.target, hline]) ?_ (fun _ i hi => ?_)
      · rw [hnext, if_neg hbang, if_neg hline]
        split_ifs
        · exact .plain rfl fun p hp => by
            obtain rfl : s.port = p := by simpa using hp
            exact ⟨rfl, .inr hfound.symm⟩
        · exact .plain rfl (by simp [Selects])
      · obtain rfl : ind = i := by simpa using hi
        exact hlt

theorem advances_digits {port : Int} (hpc : s.pc = .digits) (hport : s.port = port) (hpos : 0 ≤ port)
    (hb : s.portclosed = false → ∀ ind ∈ s.ind, ind < s.fdlist.length)
    (hok : sound s token (.digits port)) :
    Advances s (.digits port) token (s.rx room token) := by
  unfold rx
  rw [hpc]
  dsimp only
  split
  · rename_i hdigit
    have hd := digit_range hdigit
    have hlt : port * 10 + digit token < 2 ^ 31 := hok hdigit
    have hyn : ¬ (token = chr 'y' ∨ token = chr 'n') := by
      rintro (rfl | rfl) <;> simp [isDigit] at hdigit <;> revert hdigit <;> decide
    refine .of_none (by simp [Lexer.target, hyn]) ?_ hb
    rw [Lexer.next, if_pos hdigit]
    refine .digits rfl ?_ (by omega) hlt
    show int (s.port * 10 + digit token) = port * 10 + digit token
    rw [hport]
    exact int_of_range (by omega) hlt
  · rename_i hdigit
    subst hport
    exact advances_terminator (by simpa using hdigit)

theorem Follows.plain_none (hpc : s.pc = .top) : Follows s (.plain none) :=
  .plain hpc (by simp [Selects])

theorem advances_line {port : Int} {ind : Nat} (hpc : s.pc = .yn) (hind : s.ind = some ind)
    (hfound : getnotlisten s.fdlist port = some ind)
    (hb : s.portclosed = false → ∀ ind ∈ s.ind, ind < s.fdlist.length) :
    Advances s (.line port) token (s.rx room token) := by
  have hlt := getnotlisten_lt hfound
  have hkeys := rx_getnotlisten (s := s) room token port
  have hlen := rx_length (s := s) room token
  have hrun : s.rx room token = { s with
      pc := if token = chr '\n' then .top else .yn
      notified := if token = chr '\n' then s.notified + 1 else s.notified
      fdlist := update s.fdlist ind (·.push [token]) } := by
    unfold rx
    simp only [hpc, hind]
    split
    · rw [pushAt_of_lt (by exact hlt)]
      rfl
    · rw [pushAt_of_lt hlt, ← hpc, hind]
  refine ⟨?_, fun hclosed i hi => ?_, fun t ht => ?_⟩
  · rw [Lexer.next]
    by_cases hnl : token = chr '\n'
    · rw [if_pos hnl]
      exact .plain_none (by rw [hrun]; exact if_pos hnl)
    · rw [if_neg hnl]
      refine .line (by rw [hrun]; exact if_neg hnl) (by rw [hrun]; exact hind) (hkeys.trans hfound)
  · rw [hrun] at hclosed hi
    rw [hlen]
    exact hb hclosed i hi
  · obtain rfl : (port, [token]) = t := by simpa [Lexer.target] using ht
    rw [hrun]
    simp [arrives, hfound]

theorem advances_dropped {port : Int} (hpc : s.pc = .top) (hport : s.port = port)
    (hnone : getnotlisten s.fdlist port = none) (hind : s.portclosed = true ∨ s.ind = none)
    (hb : s.portclosed = false → ∀ ind ∈ s.ind, ind < s.fdlist.length) (hff : token ≠ 0xff) :
    Advances s (.line port) token (s.rx room token) := by
  have hrun : s.rx room token = s.data token := by
    simp only [rx, hpc, if_neg hff]
  have hkeys := rx_getnotlisten (s := s) room token port
  obtain ⟨htook, hlt, -⟩ := data_spec hb token
  have hsel : s.selected = none := by
    unfold Sockets.selected
    split
    · rw [hport, hnone]
    · rename_i hclosed
      exact hind.resolve_left hclosed
  rw [hrun] at hkeys ⊢
  refine ⟨?_, fun _ => hlt, fun t ht => ?_⟩
  · rw [Lexer.next]
    split
    · exact .plain_none htook.pc
    · exact .dropped htook.pc (htook.port.trans hport) (hkeys.trans hnone)
        (.inr (htook.ind.trans hsel))
  · obtain rfl : (port, [token]) = t := by simpa [Lexer.target] using ht
    rw [htook.fdlist, hsel]
    simp [arrives, hnone]

theorem advances_flush (hpc : s.pc = .flush ∨ s.pc = .top)
    (hb : s.portclosed = false → ∀ ind ∈ s.ind, ind < s.fdlist.length)
    (hok : sound s token .flush) : Advances s .flush token (s.rx room token) := by
  rcases hpc with hpc | hpc
  · unfold rx
    rw [hpc]
    dsimp only
    split
    · rename_i hnl
      exact .of_none rfl (by rw [Lexer.next, if_pos hnl]; exact .plain_none rfl) hb
    · rename_i hnl
      exact .of_none rfl (by rw [Lexer.next, if_neg hnl]; exact .flush (.inl hpc)) hb
  · have hrun : s.rx room token = s.data token := by
      simp only [rx, hpc, if_neg (hok hpc)]
    obtain ⟨htook, hlt, -⟩ := data_spec hb token
    rw [hrun]
    refine .of_none rfl ?_ fun _ => hlt
    rw [Lexer.next]
    split
    · exact .plain_none htook.pc
    · exact .flush (.inr htook.pc)

theorem advances_control {cur : Option Int} (hpc : s.pc = .control) (hlen : 0 < s.fdlist.length)
    (hb : s.portclosed = false → ∀ ind ∈ s.ind, ind < s.fdlist.length) (hsel : Selects s cur) :
    Advances s (.control cur) token (s.rx room token) := by
  have hkeys : ∀ port, getnotlisten (update s.fdlist 0 (·.push [token])) port =
      getnotlisten s.fdlist port :=
    getnotlisten_congr (update_map _ (g := (·.push [token])) (fun _ => rfl) 0)
  unfold rx
  rw [hpc]
  dsimp only
  split
  · rename_i hnl
    rw [pushAt_of_lt (by exact hlen)]
    refine .of_none rfl ?_ (by simpa [update, notify] using hb)
    rw [Lexer.next, if_pos hnl]
    exact .plain rfl (hsel.congr rfl rfl rfl hkeys)
  · rename_i hnl
    rw [pushAt_of_lt hlen]
    refine .of_none rfl ?_ (by simpa [update] using hb)
    rw [Lexer.next, if_neg hnl]
    exact .control hpc (hsel.congr rfl rfl rfl hkeys)

theorem not_readable {msg : Bytes} (h : ∀ port, ¬ requests msg port) : ¬ readable msg := by
  intro hlen
  unfold readable at hlen
  rcases hscan : scanf fmtRequest (cstr msg) with
    _ | ⟨a₁, _ | ⟨a₂, _ | ⟨a₃, _ | ⟨a₄, _ | ⟨port, _ | ⟨a₆, as⟩⟩⟩⟩⟩⟩
  all_goals simp [hscan] at hlen
  exact h port ⟨a₁, a₂, a₃, a₄, hscan⟩

theorem advances_request {connect firstcolon : Bool} {msg : Bytes} {cur : Option Int}
    (hpc : s.pc = .request connect firstcolon msg) (hsel : Selects s cur)
    (hcur : connect = false → cur = none)
    (hb : s.portclosed = false → ∀ ind ∈ s.ind, ind < s.fdlist.length)
    (hok : sound s token (.request connect firstcolon msg cur)) :
    Advances s (.request connect firstcolon msg cur) token (s.rx room token) := by
  have hnext : (Lexer.request connect firstcolon msg cur).next token =
      if token = chr ' ' then .request connect firstcolon msg cur
      else if Lexer.ends firstcolon token then .plain cur
      else .request connect (firstcolon || token == chr ':') (msg ++ [token]) cur := rfl
  unfold rx
  rw [hpc]
  dsimp only
  split_ifs with hblank hend
  · exact .of_none rfl (by rw [hnext, if_pos hblank]; exact .request hpc hsel hcur) hb
  · have hnext' : (Lexer.request connect firstcolon msg cur).next token = .plain cur := by
      rw [hnext, if_neg hblank, if_pos (show Lexer.ends firstcolon token from hend)]
    have hans := s.takerequest_answered room connect (msg ++ [token])
    generalize s.takerequest room connect (msg ++ [token]) = r at hans
    cases hans with
    | null hno => exact absurd (hok hend) (not_readable hno)
    | unread _ =>
      obtain rfl := hcur rfl
      exact .of_none rfl (by rw [hnext']; exact .plain_none rfl) (by simp)
    | nobody _ _ =>
      exact .of_none rfl (by rw [hnext']; exact .plain rfl (hsel.congr rfl rfl rfl fun _ => rfl)) hb
    | datagram _ _ hf _ _ _ =>
      obtain rfl := hcur rfl
      refine .of_none rfl (by rw [hnext']; exact .plain_none rfl) fun _ i hi => ?_
      obtain rfl := Option.some.inj hi
      exact (List.getElem?_eq_some_iff.mp hf).1
    | rejected _ =>
      exact .of_none rfl (by rw [hnext']; exact .plain rfl (hsel.congr rfl rfl rfl fun _ => rfl)) hb
    | @queued _ it _ _ _ _ _ _ _ _ =>
      refine .of_none rfl ?_ (by simpa [update] using hb)
      rw [hnext']
      exact .plain rfl (hsel.congr rfl rfl rfl
        (getnotlisten_congr (update_map _ (g := (·.queue (msg ++ [token]))) (fun _ => rfl) it)))
  · exact .of_none rfl (by
      rw [hnext, if_neg hblank, if_neg (show ¬ Lexer.ends firstcolon token from hend)]
      exact .request rfl (hsel.congr rfl rfl rfl fun _ => rfl) hcur) hb

/-- **One character.** -/
theorem rx_advances {l : Lexer} (hlen : 0 < s.fdlist.length)
    (hb : s.portclosed = false → ∀ ind ∈ s.ind, ind < s.fdlist.length) (h : Follows s l)
    (hok : sound s token l) : Advances s l token (s.rx room token) := by
  cases h with
  | plain hpc hsel => exact advances_plain hpc hb hsel
  | esc hpc hsel => exact advances_esc hpc hlen hb hsel
  | digits hpc hport hpos _ => exact advances_digits hpc hport hpos hb hok
  | line hpc hind hfound => exact advances_line hpc hind hfound hb
  | dropped hpc hport hnone hind => exact advances_dropped hpc hport hnone hind hb (hok hpc)
  | flush hpc => exact advances_flush hpc hb hok
  | control hpc hsel => exact advances_control hpc hlen hb hsel
  | request hpc hsel hcur => exact advances_request hpc hsel hcur hb hok

end Receiver

/-- A receiver that follows has not crashed. -/
theorem Follows.running {s : Sockets} {l : Lexer} (h : Follows s l) : s.pc ≠ .crashed := by
  cases h with
  | flush hpc => rcases hpc with hpc | hpc <;> simp [hpc]
  | plain hpc => simp [hpc]
  | esc hpc => simp [hpc]
  | digits hpc => simp [hpc]
  | line hpc => simp [hpc]
  | dropped hpc => simp [hpc]
  | control hpc => simp [hpc]
  | request hpc => simp [hpc]

/-! ## §5 — the other threads -/

section Calls

variable {s : Sockets} {e : Event} {l : Lexer}

/-- **One call.** -/
theorem call_follows (hshape : Integrity s) (hcall : e.isCall) (hord : s.orderly e)
    (hok : steady s e l) (h : Follows s l) : Follows (s.step e) l := by
  obtain ⟨heff, -⟩ := s.step_effect hshape hcall hord
  obtain ⟨hpc', hind', hport', -⟩ := heff.frame
  have hflag : s.portclosed = true → (s.step e).portclosed = true := by
    intro hclosed
    rcases heff.length_le with h | h
    · exact h
    · exact h.1.trans hclosed
  -- the selection survives a close, anything behind a close, and what keeps the index
  have hselects : ∀ {cur : Option Int}, Selects s cur →
      (∀ port ∈ cur, s.portclosed = true ∨ isClose e = true ∨ sameIndex s e port) →
        Selects (s.step e) cur := by
    intro cur hsel hkeep port hp
    obtain ⟨hport, hsel'⟩ := hsel port hp
    refine ⟨hport'.trans hport, ?_⟩
    rcases hkeep port hp with hclosed | hclose | hsame
    · exact .inl (hflag hclosed)
    · rcases heff.close hclose with hraised | hf
      · exact .inl hraised
      · rw [hf, hind']
        exact hsel'.imp_left hflag
    · rw [hsame, hind']
      exact hsel'.imp_left hflag
  cases h with
  | plain hpc hsel => exact .plain (hpc'.trans hpc) (hselects hsel hok)
  | esc hpc hsel => exact .esc (hpc'.trans hpc) (hselects hsel hok)
  | digits hpc hport hpos hint => exact .digits (hpc'.trans hpc) (hport'.trans hport) hpos hint
  | line hpc hind hfound => exact .line (hpc'.trans hpc) (hind'.trans hind) (hok.trans hfound)
  | dropped hpc hport hnone hind =>
    refine .dropped (hpc'.trans hpc) (hport'.trans hport) (hok.trans hnone) ?_
    rw [hind']
    exact hind.imp_left hflag
  | flush hpc => exact .flush (by rwa [hpc'])
  | control hpc hsel => exact .control (hpc'.trans hpc) (hselects hsel hok)
  | request hpc hsel hcur => exact .request (hpc'.trans hpc) (hselects hsel hok) hcur

theorem call_bounded (hshape : Integrity s) (hcall : e.isCall) (hord : s.orderly e)
    (hb : s.portclosed = false → ∀ ind ∈ s.ind, ind < s.fdlist.length) :
    (s.step e).portclosed = false → ∀ ind ∈ (s.step e).ind, ind < (s.step e).fdlist.length := by
  obtain ⟨heff, -⟩ := s.step_effect hshape hcall hord
  intro hclosed ind hind
  rw [heff.frame.2.1] at hind
  rcases heff.length_le with h | h
  · simp [h] at hclosed
  · exact (hb (h.1.symm.trans hclosed) ind hind).trans_le h.2

end Calls

/-! ## §6 — runs -/

section Runs

variable {w : Wire} {e : Event}

theorem Integrity.length_pos {s : Sockets} (h : Integrity s) : 0 < s.fdlist.length := by
  obtain ⟨f, hf, -⟩ := Option.map_eq_some_iff.mp h.control
  exact List.length_pos_of_mem (List.mem_of_head? hf)

theorem undisturbed_call (hcall : e.isCall) (h : undisturbed w e) :
    w.net.orderly e ∧ steady w.net e w.lexer := by
  cases e with
  | rx room token => exact hcall.elim
  | _ => exact h

theorem Wire.step_call (hcall : e.isCall) : w.step e = { w with net := w.net.step e } := by
  cases e with
  | rx room token => exact hcall.elim
  | _ => rfl

theorem demuxed_call (hcall : e.isCall) (h : (w.net.step e).pc ≠ .crashed) : Demuxed w e := by
  cases e with
  | rx room token => exact hcall.elim
  | _ => exact h

/-- **One step keeps the invariant and the promise.** -/
theorem Tracked.step (h : Tracked w) (hok : undisturbed w e) :
    Tracked (w.step e) ∧ Demuxed w e := by
  by_cases hcall : e.isCall
  · obtain ⟨hord, hsteady⟩ := undisturbed_call hcall hok
    obtain ⟨heff, -⟩ := w.net.step_effect h.shape hcall hord
    have hfollows := call_follows h.shape hcall hord hsteady h.follows
    refine ⟨?_, demuxed_call hcall hfollows.running⟩
    rw [Wire.step_call hcall]
    exact ⟨(heff.numbers h.shape).1, call_bounded h.shape hcall hord h.bounded, hfollows⟩
  · obtain ⟨room, token, rfl⟩ := Event.eq_rx hcall
    have hadv : Advances w.net w.lexer token (w.net.rx room token) :=
      rx_advances h.shape.length_pos h.bounded h.follows hok
    have hnumbers := w.net.rx_numbers room token
    exact ⟨⟨h.shape.congr hnumbers.1 hnumbers.2, hadv.bounded, hadv.follows⟩,
      hadv.follows.running, hadv.arrived⟩

/-- **Demultiplexing.** In every interleaving whose steps are undisturbed, every step keeps the
promise. -/
theorem incoming_demultiplexed (es : List Event)
    (h : Throughout undisturbed Wire.step Wire.boot es) :
    Throughout Demuxed Wire.step Wire.boot es :=
  throughout_of_invariant (I := Tracked) (fun _ _ ht hok => (ht.step hok).1)
    (fun _ _ ht hok => (ht.step hok).2) es Wire.boot Tracked.boot h

end Runs

/-- Three sockets, bound to the ports 80, 81 and 82. -/
def threeSockets : List Event :=
  [.socket AF_INET .STREAM 0, .bind 2 (some 80), .socket AF_INET .STREAM 0, .bind 3 (some 81),
    .socket AF_INET .STREAM 0, .bind 4 (some 82)]

/-- Payload of port 81, with a close of the first socket in the middle of it. -/
def closeInPayload : List Event :=
  threeSockets ++ Event.feed 100 (0xff :: str "81:ab") ++ [Event.close 100 5 2] ++
    Event.feed 100 (str "cd" ++ [0xff, 0xff])

theorem incoming_demultiplexed_closeInPayload :
    Throughout Demuxed Wire.step Wire.boot closeInPayload :=
  incoming_demultiplexed closeInPayload (by decide +kernel)

/-- The answer of port 81, with the same close in the middle of it. -/
def closeInAnswer : List Event :=
  threeSockets ++ Event.feed 100 (0xff :: str "81y") ++ [Event.close 100 5 2] ++ Event.feed 100 (str "a")

/-- **The promise fails on that run**: the character goes to the socket of port 82. -/
theorem incoming_demultiplexed_closeInAnswer :
    ¬ Throughout Demuxed Wire.step Wire.boot closeInAnswer := by
  decide +kernel

end Espmod.Socket
