/-
# Espmod.Web.Uplink — from the sockets of the firmware to the ports of the test bench

`espm_send` and `espm_write` hand their bytes to `__espm_sendmsg`, which puts a port prefix in front of
them when the port has changed; `webclient::fillbuffers` takes the characters apart again. Both sides
remember the port of the last transfer, each in its own way, and the invariant of a run is that they
mean the same entry.

A data byte `0xff` is to be sent twice, so that it is not read as the beginning of a control sequence.
It is sent once: the sender compares a signed `char` with `0xff`. `transfers_delivered` says that this
is all that is wrong, and that every such byte goes wrong.
-/
import Espmod.Web.Client
import Espmod.Socket.Effects
import Espmod.Lib.Run

namespace Espmod.Socket

open Espmod.Lib.Text

/-! ## §1 — sending calls -/

namespace Sockets

/-- `__espm_sendmsg` of data, between `__onewrite.wait()` and `__onewrite.post()`. -/
def sendData (s : Sockets) (room : Nat) (free : Nat → Nat) (port : Int) (msg : Bytes) (wait : Bool) :
    Sockets × Int :=
  let (out, resp) := sendmsg s.lastport room free port msg .ESCAPEALL wait
  ({ s with tx := s.tx ++ out, lastport := nextLastport port }, resp)

/-- `espm_send`; `dontwait` is `MSG_DONTWAIT` in its flags. -/
def espmSend (s : Sockets) (room : Nat) (free : Nat → Nat) (socket : Int) (msg : Bytes)
    (dontwait : Bool) : Sockets × Int :=
  match getind s.fdlist socket with
  | none => (s, -1)
  | some ind =>
    let f := s.fdlist.getD ind (Fd.new 0 0)
    if !f.bound ∧ f.type = .DGRAM then (s, -1)
    else if !f.connected ∧ f.type ≠ .DGRAM then (s, -1)
    else if f.type ≠ .STREAM ∧ f.connected then (s, -1)
    else if f.type ≠ .STREAM ∧ !f.bound then (s, -1)
    else
      s.sendData room free f.port msg
        (if f.flags &&& O_NONBLOCK = O_NONBLOCK ∨ dontwait then false else true)

/-- `espm_write`. -/
def espmWrite (s : Sockets) (room : Nat) (free : Nat → Nat) (fd : Int) (msg : Bytes) : Sockets × Int :=
  match getind s.fdlist fd with
  | none => (s, -1)
  | some ind =>
    let f := s.fdlist.getD ind (Fd.new 0 0)
    if !f.bound ∧ f.type = .DGRAM then (s, -1)
    else if !f.connected ∧ f.type ≠ .DGRAM then (s, -1)
    else s.sendData room free f.port msg (if f.flags &&& O_NONBLOCK = O_NONBLOCK then false else true)

end Sockets

end Espmod.Socket

namespace Espmod.Web

open Espmod.Lib Espmod.Lib.Text Espmod.Socket

/-! ## §2 — transfers -/

/-- The call a transfer is made by. -/
inductive SendCall where
  | send (dontwait : Bool)
  | write
  deriving DecidableEq, Repr

/-- A data transfer; `room` is the free space of the transmit FIFO when it begins, `free` what
`availableForWrite()` says in front of each byte. -/
structure Transfer where
  call : SendCall
  socket : Int
  room : Nat
  free : Nat → Nat
  msg : Bytes

def Transfer.run (t : Transfer) (net : Sockets) : Sockets :=
  match t.call with
  | .send dontwait => (net.espmSend t.room t.free t.socket t.msg dontwait).1
  | .write => (net.espmWrite t.room t.free t.socket t.msg).1

/-- The firmware's sockets and the test bench's receiver, with an empty channel between them. -/
structure Uplink where
  net : Sockets
  client : Webclient

namespace Uplink

/-- A transfer, and the receiver reads what it has written. -/
def step (w : Uplink) (t : Transfer) : Uplink :=
  let net := t.run w.net
  { net := net, client := w.client.feed (net.tx.drop w.net.tx.length) }

/-- The entry of a descriptor. -/
def entry (w : Uplink) (socket : Int) : Option Fd :=
  (Socket.getind w.net.fdlist socket).bind fun ind => w.net.fdlist[ind]?

/-- The entry of the test bench's ports a transfer is for. -/
def dest (w : Uplink) (t : Transfer) : Option Nat :=
  (w.entry t.socket).bind fun f => getnotclosed w.client.portlist f.port

/-- The transfer is made by a blocking call on a connected stream socket whose port is open, and the
channel has space for its prefix and a character. -/
def Ready (w : Uplink) (t : Transfer) : Prop :=
  t.call ≠ .send true ∧ (w.dest t).isSome ∧
    ∃ f ∈ w.entry t.socket, f.type = .STREAM ∧ f.connected = true ∧
      f.flags &&& O_NONBLOCK ≠ O_NONBLOCK ∧ 0 ≤ f.port ∧ f.port < 2 ^ 31 ∧
        (portstr w.net.lastport f.port).length + 1 ≤ t.room

instance (w : Uplink) (t : Transfer) : Decidable (Ready w t) :=
  inferInstanceAs (Decidable (_ ∧ _))

/-- **Every transfer has arrived**: the buffer of every port has got exactly what was sent to it, in
order, and nothing else has changed in the list of ports. -/
def Delivered (start : Uplink) (es : List Transfer) (w : Uplink) : Prop :=
  w.client.portlist = ledger start.dest Transfer.msg WifiPort.push start.client.portlist es

instance (start : Uplink) (es : List Transfer) (w : Uplink) : Decidable (Delivered start es w) :=
  inferInstanceAs (Decidable (_ = _))

/-- The two ends agree: the receiver is between two messages, and the entry it has selected is that of
the port the sender will not announce again. -/
structure Aligned (w : Uplink) : Prop where
  pc : w.client.pc = .top
  control : w.client.Controlled
  /-- where the index will be looked for again, the open entries are found -/
  first : w.client.portclosed = true → ∀ port ind, getnotclosed w.client.portlist port = some ind →
    getind w.client.portlist port = some ind
  selected : 0 ≤ w.net.lastport → w.client.selected = getnotclosed w.client.portlist w.net.lastport

variable {start w : Uplink} {t : Transfer}

theorem getnotclosed_push (portlist : List WifiPort) (ind : Nat) (bs : Bytes) (port : Int) :
    getnotclosed (portlist.modify ind (·.push bs)) port = getnotclosed portlist port := by
  apply findIdx?_modify (l := portlist)
  intro e
  rfl

theorem getind_push (portlist : List WifiPort) (ind : Nat) (bs : Bytes) (port : Int) :
    getind (portlist.modify ind (·.push bs)) port = getind portlist port := by
  apply findIdx?_modify (l := portlist)
  intro e
  rfl

/-- An entry found open is in the list and has its port. -/
theorem getnotclosed_some {portlist : List WifiPort} {port : Int} {ind : Nat}
    (h : getnotclosed portlist port = some ind) : ∃ e, portlist[ind]? = some e ∧ e.port = port := by
  obtain ⟨hlt, hfound, _⟩ := List.findIdx?_eq_some_iff_getElem.mp h
  refine ⟨portlist[ind], List.getElem?_eq_getElem hlt, ?_⟩
  simp only [Bool.and_eq_true, beq_iff_eq] at hfound
  exact hfound.2

/-- What is put into the buffer of a port counts in full. -/
theorem total_push {portlist : List WifiPort} {port : Int} (h₀ : 0 ≤ port) {ind : Nat}
    (hind : getnotclosed portlist port = some ind) (bs : Bytes) :
    total WifiPort.weight (portlist.modify ind (·.push bs)) =
      total WifiPort.weight portlist + bs.length := by
  obtain ⟨e, he, heport⟩ := getnotclosed_some hind
  have hbooks : total WifiPort.weight (portlist.modify ind (·.push bs)) + e.weight =
      total WifiPort.weight portlist + (e.push bs).weight := total_modify he
  have hfull : (e.push bs).weight = e.weight + bs.length := by
    have hpos : 0 ≤ e.port := heport ▸ h₀
    unfold WifiPort.weight WifiPort.push
    rw [if_pos hpos, if_pos hpos, List.length_append]
  omega

/-! ## §3 — one transfer -/

/-- **What a transfer writes**: a prefix where the port has changed, and its bytes as they are. -/
theorem run_eq (hready : Ready w t) {f : Fd} (hf : w.entry t.socket = some f) :
    t.run w.net = { w.net with
      tx := w.net.tx ++ (portstr w.net.lastport f.port ++ t.msg)
      lastport := f.port } := by
  obtain ⟨hcall, _, f', hf', htype, hcon, hflags, hpos, _, hroom⟩ := hready
  obtain rfl : f' = f := Option.some.inj (hf'.symm.trans hf)
  obtain ⟨ind, hind, hentry⟩ := Option.bind_eq_some_iff.mp hf
  have hget : w.net.fdlist.getD ind (Fd.new 0 0) = f' := getD_of_getElem? hentry _
  have hdata : (w.net.sendData t.room t.free f'.port t.msg true).1 = { w.net with
      tx := w.net.tx ++ (portstr w.net.lastport f'.port ++ t.msg)
      lastport := f'.port } := by
    unfold Sockets.sendData
    rw [sendmsg_wait t.free t.msg .ESCAPEALL hroom, nextLastport, if_pos hpos]
  unfold Transfer.run
  cases hc : t.call with
  | send dontwait =>
    have hwait : dontwait = false := by
      cases dontwait with
      | false => rfl
      | true => exact absurd hc hcall
    show (w.net.espmSend t.room t.free t.socket t.msg dontwait).1 = _
    unfold Sockets.espmSend
    rw [hind]
    dsimp only
    rw [hget]
    simp only [htype, hcon, hwait, hflags]
    simp only [reduceCtorEq, and_false, false_and, if_false, Bool.not_true, Bool.false_eq_true,
      ne_eq, not_true_eq_false, or_self, not_false_eq_true, and_true]
    exact hdata
  | write =>
    show (w.net.espmWrite t.room t.free t.socket t.msg).1 = _
    unfold Sockets.espmWrite
    rw [hind]
    dsimp only
    rw [hget]
    simp only [htype, hcon, hflags]
    simp only [reduceCtorEq, and_false, false_and, if_false, Bool.not_true, Bool.false_eq_true]
    exact hdata

/-- What the receiver has read when it comes to the bytes of a transfer: it has selected the entry of
the transfer's port. -/
structure Poised (w : Uplink) (ind : Nat) (s : Webclient) : Prop where
  portlist : s.portlist = w.client.portlist
  pc : s.pc = .top
  selected : s.selected = some ind
  portclosed : s.portclosed = w.client.portclosed

theorem Poised.controlled {ind : Nat} {s : Webclient} (hp : Poised w ind s)
    (h : w.client.Controlled) : s.Controlled := by
  unfold Webclient.Controlled
  rw [hp.portlist]
  exact h

/-- **A prefix** selects the entry. -/
theorem poised_prefix (hpc : w.client.pc = .top) (hfirst : w.client.portclosed = true →
      ∀ port ind, getnotclosed w.client.portlist port = some ind →
        getind w.client.portlist port = some ind)
    {port : Int} (h₀ : 0 ≤ port) (h₁ : port < 2 ^ 31) {ind : Nat}
    (hind : getnotclosed w.client.portlist port = some ind) :
    Poised w ind (w.client.feed (portPrefix port)) := by
  rw [Webclient.feed_prefix hpc h₀ h₁ hind]
  refine ⟨rfl, rfl, ?_, rfl⟩
  unfold Webclient.selected
  dsimp only
  split
  next hclosed => exact hfirst hclosed port ind hind
  next => rfl

/-- **The prefix, or none**, selects the entry. -/
theorem poised (h : Aligned w) {port : Int} (h₀ : 0 ≤ port) (h₁ : port < 2 ^ 31) {ind : Nat}
    (hind : getnotclosed w.client.portlist port = some ind) :
    Poised w ind (w.client.feed (portstr w.net.lastport port)) := by
  unfold portstr
  split
  next hnew => exact poised_prefix h.pc h.first h₀ h₁ hind
  next hsame =>
    have hlast : w.net.lastport = port := by
      by_contra hne
      exact hsame ⟨h₀, hne⟩
    have hsel : w.client.selected = some ind := by
      rw [h.selected (hlast ▸ h₀), hlast]
      exact hind
    exact ⟨rfl, h.pc, hsel, rfl⟩

/-- A transfer, seen from the receiver: the prefix, then the bytes. -/
theorem step_eq (hready : Ready w t) {f : Fd} (hf : w.entry t.socket = some f) :
    w.step t =
      { net := { w.net with
          tx := w.net.tx ++ (portstr w.net.lastport f.port ++ t.msg)
          lastport := f.port }
        client := (w.client.feed (portstr w.net.lastport f.port)).feed t.msg } := by
  unfold Uplink.step
  rw [run_eq hready hf]
  dsimp only
  rw [List.drop_left, Webclient.feed_append]

theorem Ready.port (hready : Ready w t) {f : Fd} (hf : w.entry t.socket = some f) :
    0 ≤ f.port ∧ f.port < 2 ^ 31 := by
  obtain ⟨_, _, f', hf', _, _, _, h₀, h₁, _⟩ := hready
  obtain rfl : f' = f := Option.some.inj (hf'.symm.trans hf)
  exact ⟨h₀, h₁⟩

/-- **A transfer without a `0xff`** arrives, and leaves the two ends in agreement. -/
theorem step_plain (h : Aligned w) (hready : Ready w t) (hff : 0xff ∉ t.msg) {ind : Nat}
    (hdest : w.dest t = some ind) :
    (w.step t).client.portlist = w.client.portlist.modify ind (·.push t.msg) ∧
      (w.step t).net.fdlist = w.net.fdlist ∧ Aligned (w.step t) := by
  obtain ⟨f, hf, hind⟩ := Option.bind_eq_some_iff.mp hdest
  have hport := hready.port hf
  have hpoised := poised h hport.1 hport.2 hind
  obtain ⟨e, he, _⟩ := getnotclosed_some hind
  have hlt : ind < (w.client.feed (portstr w.net.lastport f.port)).portlist.length := by
    rw [hpoised.portlist]
    exact (List.getElem?_eq_some_iff.mp he).1
  have htook := Webclient.feed_plain hpoised.pc hpoised.selected hlt hff
  have hlist := htook.portlist
  rw [hpoised.portlist] at hlist
  rw [step_eq hready hf]
  refine ⟨hlist, rfl, ?_⟩
  constructor
  · exact htook.pc
  · exact htook.controlled (hpoised.controlled h.control)
  · intro hclosed port i hi
    dsimp only at hclosed hi ⊢
    rw [hlist, getnotclosed_push] at hi
    rw [hlist, getind_push]
    exact h.first (hpoised.portclosed ▸ htook.portclosed hclosed) port i hi
  · intro _
    dsimp only
    rw [htook.selected, hlist, getnotclosed_push]
    exact hind.symm

/-- **A transfer with a `0xff`** leaves the ports short of a character. -/
theorem step_short (h : Aligned w) (hready : Ready w t) (hff : 0xff ∈ t.msg) {ind : Nat}
    (hdest : w.dest t = some ind) :
    total WifiPort.weight (w.step t).client.portlist <
      total WifiPort.weight w.client.portlist + t.msg.length := by
  obtain ⟨f, hf, hind⟩ := Option.bind_eq_some_iff.mp hdest
  have hport := hready.port hf
  have hpoised := poised h hport.1 hport.2 hind
  obtain ⟨e, he, _⟩ := getnotclosed_some hind
  have hlt : ind < (w.client.feed (portstr w.net.lastport f.port)).portlist.length := by
    rw [hpoised.portlist]
    exact (List.getElem?_eq_some_iff.mp he).1
  rw [step_eq hready hf]
  dsimp only
  have hvalid : ∀ i ∈ (w.client.feed (portstr w.net.lastport f.port)).selected,
      i < (w.client.feed (portstr w.net.lastport f.port)).portlist.length := by
    intro i hi
    rw [hpoised.selected] at hi
    exact Option.some.inj hi ▸ hlt
  have hshort := Webclient.feed_ff (hpoised.controlled h.control) hpoised.pc hvalid hff
  rwa [hpoised.portlist] at hshort

/-! ## §4 — runs -/

/-- The ends agree, everything sent has arrived, and the descriptors are those of the start. -/
structure Kept (start : Uplink) (es : List Transfer) (w : Uplink) : Prop where
  aligned : Aligned w
  delivered : Delivered start es w
  fdlist : w.net.fdlist = start.net.fdlist

theorem ledger_getnotclosed (start : Uplink) (es : List Transfer) (port : Int) :
    getnotclosed (ledger start.dest Transfer.msg WifiPort.push start.client.portlist es) port =
      getnotclosed start.client.portlist port := by
  apply findIdx?_of_map_eq
  apply map_ledger
  intro bs e
  rfl

/-- A transfer has the destination it would have had at the start. -/
theorem Kept.dest {es : List Transfer} (h : Kept start es w) (t : Transfer) : w.dest t = start.dest t := by
  unfold Uplink.dest Uplink.entry
  rw [h.fdlist, h.delivered]
  congr 1
  funext f
  exact ledger_getnotclosed start es f.port

theorem ledger_step {es : List Transfer} {ind : Nat} (hdest : start.dest t = some ind) :
    ledger start.dest Transfer.msg WifiPort.push start.client.portlist (es ++ [t]) =
      (ledger start.dest Transfer.msg WifiPort.push start.client.portlist es).modify ind
        (·.push t.msg) := by
  apply ledger_snoc WifiPort.push_nil _ hdest
  intro e bs cs
  simp [WifiPort.push]

theorem Kept.step {es : List Transfer} (h : Kept start es w) (hready : Ready w t)
    (hff : 0xff ∉ t.msg) : Kept start (es ++ [t]) (w.step t) := by
  obtain ⟨ind, hdest⟩ := Option.isSome_iff_exists.mp hready.2.1
  obtain ⟨hlist, hfds, haligned⟩ := step_plain h.aligned hready hff hdest
  refine ⟨haligned, ?_, hfds.trans h.fdlist⟩
  unfold Delivered
  rw [hlist, ledger_step (h.dest t ▸ hdest), h.delivered]

theorem Kept.broken {es : List Transfer} (h : Kept start es w) (hready : Ready w t)
    (hff : 0xff ∈ t.msg) : ¬ Delivered start (es ++ [t]) (w.step t) := by
  intro hdelivered
  obtain ⟨ind, hdest⟩ := Option.isSome_iff_exists.mp hready.2.1
  have hshort := step_short h.aligned hready hff hdest
  unfold Delivered at hdelivered
  rw [hdelivered, ledger_step (h.dest t ▸ hdest), ← h.delivered] at hshort
  -- the ledger is not short
  obtain ⟨f, hf, hind⟩ := Option.bind_eq_some_iff.mp hdest
  rw [total_push (hready.port hf).1 hind] at hshort
  exact Nat.lt_irrefl _ hshort

/-- **Bytes arrive as they were sent, exactly when none is `0xff`.** Any number of transfers, in any
order over the ports, by blocking calls on connected stream sockets with open ports: after each of
them, every port has got exactly what was sent to it and nothing else was touched, if and only if no
byte of any transfer is `0xff`. -/
theorem transfers_delivered (h : Aligned start) (es : List Transfer)
    (hready : Throughout Ready step start es) :
    Always (Delivered start) step [] start es ↔ ∀ t ∈ es, (0xff : UInt8) ∉ t.msg := by
  have hstart : Kept start [] start := by
    refine ⟨h, ?_, rfl⟩
    unfold Delivered
    rw [ledger_nil WifiPort.push_nil]
  rw [always_iff_throughout (I := Kept start) (fun _ _ hk => hk.delivered)
    (fun _ _ _ hk hr hff => hk.step hr hff) (fun _ _ _ hk hr hff => hk.broken hr (not_not.mp hff)) es []
    start hstart hready]
  exact throughout_forall es start

/-- Two connected sockets, with the ports 80 and 81 open in the test bench. -/
def twoPorts : Uplink where
  net := { Sockets.boot with
    fdlist := [Fd.new 1 (-1), { Fd.new 2 (-1) with port := 80, connected := true },
      { Fd.new 3 (-1) with port := 81, connected := true }] }
  client := { Webclient.boot with portlist := [⟨-1, false, []⟩, ⟨80, false, []⟩, ⟨81, false, []⟩] }

theorem twoPorts_aligned : Aligned twoPorts where
  pc := rfl
  control := rfl
  first h := nomatch h
  selected h := absurd h (by decide)

/-- A transfer into an idle channel. -/
def transfer (call : SendCall) (socket : Int) (msg : Bytes) : Transfer :=
  ⟨call, socket, 256, fun p => 256 - p, msg⟩

/-- Transfers that look like prefixes and answers arrive as they are. -/
theorem transfers_delivered_lookalikes :
    Always (Delivered twoPorts) step [] twoPorts
      [transfer .write 2 (str "80:"), transfer (.send false) 3 (0xfe :: str "81!\n"),
        transfer .write 3 [], transfer .write 2 (str "y\n")] :=
  (transfers_delivered twoPorts_aligned _ (by decide +kernel)).mpr (by decide)

/-- A transfer of the one byte `0xff` does not. -/
theorem transfers_delivered_ff :
    ¬ Always (Delivered twoPorts) step [] twoPorts [transfer .write 2 [0xff]] := by
  intro h
  have hlast := h.last
  revert hlast
  decide +kernel

end Uplink

end Espmod.Web
