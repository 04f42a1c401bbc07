/-
# Espmod.Web.Client — the test bench's end of the channel

`webclient::fillbuffers` reads the characters the firmware sends and sorts them into the buffers of the
test bench's ports. A `0xff` opens a port prefix, the close of a port, an answer, a datagram header or
a control message for the first entry, port -1; two of them are one data character. What is neither
goes to the port selected last.

The model is the thread at its reads: `Pc` says which read it is suspended in, and `rx` is what one
character does.
-/
import Espmod.Lib.Ledger
import Espmod.Socket.Feed

namespace Espmod.Web

open Espmod.Lib Espmod.Lib.Text Espmod.Socket
open Espmod.Socket.Sockets (isDigit digit int fmtRequest)

/-! ## §1 — state -/

/-- `wifiport_t`. -/
structure WifiPort where
  port : Int
  closed : Bool
  buffer : Bytes
  deriving DecidableEq, Repr

/-- `buffer.push_back` of several characters. -/
def WifiPort.push (bs : Bytes) (e : WifiPort) : WifiPort := { e with buffer := e.buffer ++ bs }

theorem WifiPort.push_nil (e : WifiPort) : e.push [] = e := by
  simp [WifiPort.push]

theorem modify_push_nil (portlist : List WifiPort) (ind : Nat) :
    portlist.modify ind (·.push []) = portlist := by
  have hid : (fun e : WifiPort => e.push []) = id := funext WifiPort.push_nil
  rw [hid, List.modify_id]

/-- What an entry weighs: the control entry nothing, any other its buffer. -/
def WifiPort.weight (e : WifiPort) : Nat := if 0 ≤ e.port then e.buffer.length else 0

/-- The read `fillbuffers` is suspended in. -/
inductive Pc where
  | top
  /-- the character after `0xff` -/
  | esc
  | digits
  /-- skipping the line of a close -/
  | flush
  /-- the line of an answer, into the buffer at `ind` -/
  | yn
  /-- the address of a datagram, with the text collected so far -/
  | header (firstcolon : Bool) (msg : Bytes)
  /-- skipping the line of an illegal datagram -/
  | dump
  /-- a control message, into the buffer at index 0 -/
  | control
  | crashed
  deriving DecidableEq, Repr

/-- The members of `webclient` that `fillbuffers` uses, and its locals. -/
structure Webclient where
  portlist : List WifiPort
  portclosed : Bool
  /-- how often `__fifowrite_ev` was notified -/
  notified : Nat
  pc : Pc
  port : Int
  ind : Option Nat
  deriving DecidableEq, Repr

def getind (portlist : List WifiPort) (port : Int) : Option Nat :=
  portlist.findIdx? fun e => e.port == port

def getnotclosed (portlist : List WifiPort) (port : Int) : Option Nat :=
  portlist.findIdx? fun e => !e.closed && e.port == port

namespace Webclient

/-- `fillbuffers` up to its first read. -/
def boot : Webclient where
  portlist := [⟨-1, false, []⟩]
  portclosed := false
  notified := 0
  pc := .top
  port := -1
  ind := none

/-! ## §2 — one character -/

/-- `_portlist[ind].buffer.push_back` of several characters. -/
def pushAt (s : Webclient) (ind : Nat) (bs : Bytes) : Webclient :=
  if ind < s.portlist.length then { s with portlist := s.portlist.modify ind (·.push bs) }
  else { s with pc := .crashed }

/-- `__fifowrite_ev.notify()`. -/
def notify (s : Webclient) : Webclient := { s with notified := s.notified + 1 }

/-- A port was closed since the last data character: find the index again. -/
def refresh (s : Webclient) : Webclient :=
  if s.portclosed then { s with ind := getind s.portlist s.port, portclosed := false } else s

/-- A data character. -/
def data (s : Webclient) (token : UInt8) : Webclient :=
  let s := { s with pc := .top }.refresh
  match s.ind with
  | none => s
  | some ind => (s.pushAt ind [token]).notify

/-- `_portlist[ind].closed = true`. -/
def closeAt (s : Webclient) (ind : Nat) : Webclient :=
  if ind < s.portlist.length then
    { s with portlist := s.portlist.modify ind fun e => { e with closed := true } }
  else { s with pc := .crashed }

/-- The character behind the digits of a port. -/
def terminator (s : Webclient) (escaped : UInt8) : Webclient :=
  let s := match getnotclosed s.portlist s.port with
    | none => { s with ind := none, port := -1 }
    | some ind => { s with ind := some ind }
  if escaped = chr '!' then { s with pc := .flush }
  else if escaped = chr 'y' ∨ escaped = chr 'n' then
    match s.ind with
    | none => { s with pc := .crashed }
    | some ind => { s with pc := .yn }.pushAt ind [0xff, escaped]
  else { s with pc := .top }

/-- The first character of a control sequence. -/
def escape (s : Webclient) (escaped : UInt8) : Webclient :=
  if isDigit escaped then { s with pc := .digits, port := digit escaped }
  else if escaped = chr 's' then { s with pc := .header false [] }
  else { s with pc := .control }.pushAt 0 [0xff, escaped]

/-- A datagram header is complete. The port it names is a local of its own. -/
def takesend (s : Webclient) (msg : Bytes) : Webclient :=
  match scanf fmtRequest (cstr msg) with
  | [_, _, _, _, port] =>
    match getnotclosed s.portlist port with
    | none => { s with pc := .dump }
    | some newind => { s with pc := .top, ind := some newind }
  | _ => { s with pc := .dump }

/-- **One character from `i_uwifi.from.read()`.** -/
def rx (s : Webclient) (c : UInt8) : Webclient :=
  match s.pc with
  | .top => if c = 0xff then { s with pc := .esc } else s.data c
  | .esc => if c = 0xff then s.data c else s.escape c
  | .digits =>
    if isDigit c then { s with port := int (s.port * 10 + digit c) } else s.terminator c
  | .flush =>
    if c = chr '\n' then
      match s.ind with
      | none => { s with pc := .crashed }
      | some ind => { s with pc := .top }.notify.closeAt ind
    else s
  | .yn =>
    match s.ind with
    | none => { s with pc := .crashed }
    | some ind =>
      if c = chr '\n' then ({ s with pc := .top }.notify).pushAt ind [c] else s.pushAt ind [c]
  | .header firstcolon msg =>
    if c = chr ':' ∧ firstcolon then s.takesend (msg ++ [c])
    else { s with pc := .header (firstcolon || c == chr ':') (msg ++ [c]) }
  | .dump => if c = chr '\n' then { s with pc := .top } else s
  | .control =>
    if c = chr '\n' then ({ s with pc := .top }.notify).pushAt 0 [c] else s.pushAt 0 [c]
  | .crashed => s

/-- The receiver gets these characters, one after the other. -/
def feed (s : Webclient) (cs : Bytes) : Webclient := cs.foldl rx s

variable {s r : Webclient} {ind : Nat}

@[simp] theorem feed_nil : s.feed [] = s := rfl

@[simp] theorem feed_cons (c : UInt8) (cs : Bytes) : s.feed (c :: cs) = (s.rx c).feed cs := rfl

theorem feed_append (cs ds : Bytes) : s.feed (cs ++ ds) = (s.feed cs).feed ds := List.foldl_append

/-! ## §3 — data in its place -/

theorem pushAt_of_lt (h : ind < s.portlist.length) (bs : Bytes) :
    s.pushAt ind bs = { s with portlist := s.portlist.modify ind (·.push bs) } := by
  rw [pushAt, if_pos h]

/-- The index a data character goes to. -/
def selected (s : Webclient) : Option Nat :=
  if s.portclosed then getind s.portlist s.port else s.ind

/-- Data has been put into the buffer at `ind`, which stays selected. -/
structure Took (s r : Webclient) (ind : Nat) (payload : Bytes) : Prop where
  portlist : r.portlist = s.portlist.modify ind (·.push payload)
  pc : r.pc = .top
  selected : r.selected = some ind
  portclosed : r.portclosed = true → s.portclosed = true

/-- A data character. -/
theorem data_took (b : UInt8) (hsel : s.selected = some ind) (hlt : ind < s.portlist.length) :
    Took s (s.data b) ind [b] := by
  have hrefresh : ({ s with pc := .top } : Webclient).refresh =
      { s with pc := .top, ind := some ind, portclosed := false } := by
    unfold refresh
    unfold selected at hsel
    dsimp only
    split
    next h =>
      rw [if_pos h] at hsel
      rw [hsel]
    next h =>
      have hfalse : s.portclosed = false := Bool.eq_false_iff.mpr h
      rw [if_neg h] at hsel
      rw [← hsel, ← hfalse]
  have hdata : s.data b = { s with
      portlist := s.portlist.modify ind (·.push [b])
      pc := .top
      ind := some ind
      portclosed := false
      notified := s.notified + 1 } := by
    unfold data
    rw [hrefresh]
    dsimp only
    rw [pushAt_of_lt (by exact hlt)]
    rfl
  rw [hdata]
  exact ⟨rfl, rfl, rfl, fun hfalse => nomatch hfalse⟩

theorem modify_push_push (portlist : List WifiPort) (ind : Nat) (bs cs : Bytes) :
    (portlist.modify ind (·.push bs)).modify ind (·.push cs) =
      portlist.modify ind (·.push (bs ++ cs)) := by
  rw [List.modify_modify_eq]
  congr 1
  funext e
  simp [WifiPort.push]

/-- **Data without a `0xff`** goes to the selected index, in order and unchanged. -/
theorem feed_plain {payload : Bytes} : ∀ {s : Webclient}, s.pc = .top → s.selected = some ind →
    ind < s.portlist.length → 0xff ∉ payload → Took s (s.feed payload) ind payload := by
  induction payload with
  | nil =>
    intro s hpc hsel _ _
    exact ⟨(modify_push_nil s.portlist ind).symm, hpc, hsel, fun h => h⟩
  | cons b bs ih =>
    intro s hpc hsel hlt hff
    have hb : b ≠ 0xff := fun h => hff (h ▸ List.mem_cons_self ..)
    have hfirst : s.rx b = s.data b := by
      unfold rx
      rw [hpc]
      exact if_neg hb
    have htook := data_took b hsel hlt
    have hlt' : ind < (s.data b).portlist.length := by
      rw [htook.portlist, List.length_modify]
      exact hlt
    have hrest := ih htook.pc htook.selected hlt' fun h => hff (List.mem_cons_of_mem _ h)
    rw [feed_cons, hfirst]
    refine ⟨?_, hrest.pc, hrest.selected, fun h => htook.portclosed (hrest.portclosed h)⟩
    rw [hrest.portlist, htook.portlist, modify_push_push]
    rfl

/-- **A port prefix selects the open entry of its port.** -/
theorem feed_prefix (hpc : s.pc = .top) {port : Int} (h₀ : 0 ≤ port) (h₁ : port < 2 ^ 31)
    (hind : getnotclosed s.portlist port = some ind) :
    s.feed (portPrefix port) = { s with pc := .top, port := port, ind := some ind } := by
  have hff : s.rx 0xff = { s with pc := .esc } := by simp [rx, hpc]
  have hread : ({ s with pc := .esc } : Webclient).feed (showNat 10 port.toNat) =
      { s with pc := .digits, port := port.toNat } := by
    refine Sockets.foldl_showNat (fun v => { s with pc := .digits, port := v }) ?_ ?_ port.toNat
      (by omega)
    · intro c hc
      have hne : c ≠ 0xff := by
        rintro rfl
        exact absurd hc (by decide)
      simp only [rx, if_neg hne, escape, hc, if_true]
    · intro v c hc
      simp only [rx, hc, if_true]
  have hport : ((port.toNat : Nat) : Int) = port := Int.toNat_of_nonneg h₀
  have hcolon : isDigit (chr ':') = false ∧ chr ':' ≠ chr '!' ∧
      ¬ (chr ':' = chr 'y' ∨ chr ':' = chr 'n') := by decide
  rw [Sockets.portPrefix_eq h₀, feed_cons, feed_append, hff, hread, hport]
  simp only [feed_cons, feed_nil, rx, hcolon.1, Bool.false_eq_true, if_false, terminator, hind,
    if_neg hcolon.2.1, if_neg hcolon.2.2]

/-! ## §4 — how much a character can add

A `0xff` that is read as the beginning of a control sequence takes part in no buffer of a port, and
nothing that follows makes up for it: a sequence of the receiver consumes at least one character more
than it puts into such a buffer.
-/

/-- How many characters more the receiver has consumed than it can still put into a buffer of a port,
once it has lost one. -/
def lag : Pc → Nat
  | .digits => 2
  | _ => 1

theorem lag_le (pc : Pc) : 1 ≤ lag pc ∧ lag pc ≤ 2 := by
  cases pc <;> simp [lag]

/-- The first entry is the one of port -1. -/
def Controlled (s : Webclient) : Prop := (s.portlist.map WifiPort.port)[0]? = some (-1)

theorem push_weight (bs : Bytes) (e : WifiPort) : (e.push bs).weight ≤ e.weight + bs.length := by
  unfold WifiPort.weight WifiPort.push
  dsimp only
  split
  · rw [List.length_append]
  · exact Nat.zero_le _

/-- The control entry weighs nothing, whatever is put into it. -/
theorem push_weight_control (h : Controlled s) (bs : Bytes) {e : WifiPort}
    (he : s.portlist[0]? = some e) : (e.push bs).weight = e.weight := by
  have hport : e.port = -1 := by
    unfold Controlled at h
    rw [List.getElem?_map, he] at h
    exact Option.some.inj h
  have hneg : ¬ 0 ≤ e.port := by omega
  unfold WifiPort.weight WifiPort.push
  rw [if_neg hneg, if_neg hneg]

/-- **What a character costs**: an entry gains no more than the receiver falls behind. -/
def Affordable (s s' : Webclient) : Prop :=
  Costs Webclient.portlist WifiPort.weight (fun s => lag s.pc) WifiPort.port s s'

theorem Affordable.notify {s' : Webclient} (h : Affordable s s') : Affordable s s'.notify := h

/-- Nothing is put anywhere. -/
theorem affordable_quiet {s' : Webclient} (hp : s'.portlist = s.portlist) : Affordable s s' := by
  have h₁ := lag_le s.pc
  have h₂ := lag_le s'.pc
  exact Costs.quiet hp (by omega)

/-- Characters are put into the buffer at `ind`. -/
theorem affordable_pushAt {s₁ : Webclient} {bs : Bytes} (hp : s₁.portlist = s.portlist)
    (hlag : bs.length + lag s₁.pc ≤ lag s.pc + 1) (ind : Nat) : Affordable s (s₁.pushAt ind bs) := by
  unfold pushAt
  split
  · exact Costs.change (g := (·.push bs)) (by rw [← hp]) (fun _ => rfl)
      (fun e _ => push_weight bs e) hlag
  · exact affordable_quiet hp

/-- Characters are put into the control buffer. -/
theorem affordable_control (h : Controlled s) {s₁ : Webclient} (hp : s₁.portlist = s.portlist)
    (bs : Bytes) : Affordable s (s₁.pushAt 0 bs) := by
  unfold pushAt
  split
  · have h₁ := lag_le s.pc
    have h₂ := lag_le s₁.pc
    have hlag : 0 + lag s₁.pc ≤ lag s.pc + 1 := by omega
    exact Costs.change (g := (·.push bs)) (by rw [← hp]) (fun _ => rfl)
      (fun e he => Nat.le_of_eq (push_weight_control h bs he)) hlag
  · exact affordable_quiet hp

theorem affordable_data (b : UInt8) (hlag : lag s.pc = 1) : Affordable s (s.data b) := by
  have hrefresh : ({ s with pc := .top } : Webclient).refresh.portlist = s.portlist ∧
      ({ s with pc := .top } : Webclient).refresh.pc = .top := by
    unfold refresh
    split <;> exact ⟨rfl, rfl⟩
  unfold data
  dsimp only
  split
  · exact affordable_quiet hrefresh.1
  next ind _ =>
    apply Affordable.notify
    apply affordable_pushAt hrefresh.1
    rw [hrefresh.2, hlag]
    exact Nat.le_refl 2

theorem affordable_terminator (c : UInt8) (hlag : lag s.pc = 2) : Affordable s (s.terminator c) := by
  have hall : ∀ s₁ : Webclient, s₁.portlist = s.portlist → Affordable s
      (if c = chr '!' then { s₁ with pc := .flush }
      else if c = chr 'y' ∨ c = chr 'n' then
        match s₁.ind with
        | none => { s₁ with pc := .crashed }
        | some ind => { s₁ with pc := .yn }.pushAt ind [0xff, c]
      else { s₁ with pc := .top }) := by
    intro s₁ hp
    split_ifs
    · exact affordable_quiet hp
    · split
      · exact affordable_quiet hp
      · have hcost : [0xff, c].length + lag ({ s₁ with pc := .yn } : Webclient).pc ≤ lag s.pc + 1 := by
          rw [hlag]
          exact Nat.le_refl 3
        exact affordable_pushAt (by exact hp) hcost _
    · exact affordable_quiet hp
  unfold terminator
  apply hall
  split <;> rfl

theorem affordable_escape (h : Controlled s) (c : UInt8) : Affordable s (s.escape c) := by
  unfold escape
  split_ifs
  · exact affordable_quiet rfl
  · exact affordable_quiet rfl
  · exact affordable_control h (by rfl) _

theorem affordable_takesend (msg : Bytes) : Affordable s (s.takesend msg) := by
  unfold takesend
  split
  · split
    · exact affordable_quiet rfl
    · exact affordable_quiet rfl
  · exact affordable_quiet rfl

/-- **One character**, whatever the receiver is at. -/
theorem affordable_rx (h : Controlled s) (c : UInt8) : Affordable s (s.rx c) := by
  unfold rx
  cases hpc : s.pc with
  | top =>
    dsimp only
    split
    · exact affordable_quiet rfl
    · exact affordable_data c (by rw [hpc]; rfl)
  | esc =>
    dsimp only
    split
    · exact affordable_data c (by rw [hpc]; rfl)
    · exact affordable_escape h c
  | digits =>
    dsimp only
    split
    · exact affordable_quiet rfl
    · exact affordable_terminator c (by rw [hpc]; rfl)
  | flush =>
    dsimp only
    split
    · split
      · exact affordable_quiet rfl
      next ind _ =>
        unfold closeAt
        split
        · -- a closed entry keeps its buffer
          have hlag : 0 + lag .top ≤ lag s.pc + 1 := Nat.le_add_left _ _
          exact Costs.change rfl
            (fun _ => rfl) (fun e _ => Nat.le_refl e.weight) hlag
        · exact affordable_quiet rfl
    · exact affordable_quiet rfl
  | yn =>
    have hend : [c].length + lag ({ s with pc := .top }.notify : Webclient).pc ≤ lag s.pc + 1 := by
      rw [hpc]
      exact Nat.le_refl 2
    have hnext : [c].length + lag s.pc ≤ lag s.pc + 1 := Nat.le_of_eq (Nat.add_comm 1 _)
    dsimp only
    split
    · exact affordable_quiet rfl
    · split
      · exact affordable_pushAt (by rfl) hend _
      · exact affordable_pushAt rfl hnext _
  | header firstcolon msg =>
    dsimp only
    split
    · exact affordable_takesend _
    · exact affordable_quiet rfl
  | dump =>
    dsimp only
    split
    · exact affordable_quiet rfl
    · exact affordable_quiet rfl
  | control =>
    dsimp only
    split
    · exact affordable_control h (by rfl) _
    · exact affordable_control h rfl _
  | crashed => exact affordable_quiet rfl

theorem Took.controlled {payload : Bytes} (htook : Took s r ind payload) (h : Controlled s) :
    Controlled r := by
  unfold Controlled
  rw [htook.portlist, map_modify_of_eq (fun _ => by rfl)]
  exact h

/-- **A stretch behind a lost `0xff`** leaves the ports at least one character short. -/
theorem feed_short (h : Controlled s) (cs : Bytes) :
    total WifiPort.weight ((s.feed cs).portlist) + 1 ≤
      total WifiPort.weight s.portlist + lag s.pc + cs.length := by
  have hstep : ∀ (s : Webclient) (c : UInt8), Controlled s →
      Costs Webclient.portlist WifiPort.weight (fun s => lag s.pc) WifiPort.port s (s.rx c) ∧
        lag (s.rx c).pc ≤ lag s.pc + 1 := by
    intro s c hs
    have h₁ := lag_le s.pc
    have h₂ := lag_le (s.rx c).pc
    exact ⟨affordable_rx hs c, by omega⟩
  have hrun := foldl_costs (fun ports => ports[0]? = some (-1)) hstep cs s h
  have hlag := lag_le (s.feed cs).pc
  have hrun' : total WifiPort.weight (s.feed cs).portlist + lag (s.feed cs).pc ≤
      total WifiPort.weight s.portlist + lag s.pc + cs.length := hrun
  omega

/-- Data without a `0xff` that has no entry to go to. -/
theorem feed_unselected {payload : Bytes} : ∀ {s : Webclient}, s.pc = .top → s.selected = none →
    0xff ∉ payload → (s.feed payload).portlist = s.portlist ∧ (s.feed payload).pc = .top := by
  induction payload with
  | nil => exact fun hpc _ _ => ⟨rfl, hpc⟩
  | cons b bs ih =>
    intro s hpc hsel hff
    have hb : b ≠ 0xff := fun h => hff (h ▸ List.mem_cons_self ..)
    have hrefresh : ({ s with pc := .top } : Webclient).refresh =
        { s with pc := .top, ind := none, portclosed := false } := by
      unfold refresh
      unfold selected at hsel
      dsimp only
      split
      next h =>
        rw [if_pos h] at hsel
        rw [hsel]
      next h =>
        have hfalse : s.portclosed = false := Bool.eq_false_iff.mpr h
        rw [if_neg h] at hsel
        rw [← hsel, ← hfalse]
    have hrx : s.rx b = { s with pc := .top, ind := none, portclosed := false } := by
      unfold rx
      rw [hpc]
      dsimp only
      rw [if_neg hb, data, hrefresh]
    rw [feed_cons, hrx]
    exact ih (s := { s with pc := .top, ind := none, portclosed := false }) rfl rfl
      fun h => hff (List.mem_cons_of_mem _ h)

/-- **Data with a `0xff`** leaves the ports short of a character, wherever it goes. -/
theorem feed_ff (h : Controlled s) (hpc : s.pc = .top)
    (hsel : ∀ ind ∈ s.selected, ind < s.portlist.length) {cs : Bytes} (hff : 0xff ∈ cs) :
    total WifiPort.weight (s.feed cs).portlist < total WifiPort.weight s.portlist + cs.length := by
  -- up to its first `0xff` the data is put somewhere or nowhere
  obtain ⟨us, vs, hsplit, hus⟩ := List.eq_append_cons_of_mem hff
  have htop : (s.feed us).pc = .top ∧ Controlled (s.feed us) := by
    cases hind : s.selected with
    | none =>
      obtain ⟨hlist, hpc'⟩ := feed_unselected hpc hind hus
      refine ⟨hpc', ?_⟩
      unfold Controlled
      rw [hlist]
      exact h
    | some ind =>
      have htook := feed_plain hpc hind (hsel ind hind) hus
      exact ⟨htook.pc, htook.controlled h⟩
  have hbefore := feed_short h us
  rw [show lag s.pc = 1 by rw [hpc]; rfl] at hbefore
  -- and from there on the receiver is behind
  have hesc : (s.feed us).rx 0xff = { s.feed us with pc := .esc } := by
    unfold rx
    rw [htop.1]
    rfl
  have hbehind : total WifiPort.weight
      (({ s.feed us with pc := .esc } : Webclient).feed vs).portlist + 1 ≤
      total WifiPort.weight (s.feed us).portlist + 1 + vs.length :=
    feed_short (s := { s.feed us with pc := .esc }) htop.2 vs
  have hlength : cs.length = us.length + 1 + vs.length := by
    rw [hsplit, List.length_append, List.length_cons]
    omega
  rw [hlength, hsplit, feed_append, feed_cons, hesc]
  omega

end Webclient

end Espmod.Web
