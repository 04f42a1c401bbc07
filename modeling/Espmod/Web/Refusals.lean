/-
# Espmod.Web.Refusals — transfers that find no space

`__espm_sendmsg` remembers the port of a transfer before it looks whether there is space for it. A
transfer that is refused has changed `lastport` and has written no prefix: the next one on the same
port goes without a prefix too, and its bytes to the port announced before.

`announced` is the port the receiver knows of. The two ends agree on where a transfer goes exactly
while no transfer that writes something relies on a prefix that was never written.
-/
import Espmod.Web.Uplink

namespace Espmod.Web

open Espmod.Lib Espmod.Lib.Text Espmod.Socket

/-! ## §1 — what reaches `__espm_sendmsg` -/

/-- The arguments of `__espm_sendmsg` that a call makes from its descriptor. -/
structure Handed where
  port : Int
  wait : Bool
  deriving DecidableEq, Repr

/-- What a call hands to `__espm_sendmsg`; `none` where it returns -1 before it gets there. -/
def Transfer.handed (t : Transfer) (net : Sockets) : Option Handed :=
  (Socket.getind net.fdlist t.socket).bind fun ind =>
    let f := net.fdlist.getD ind (Fd.new 0 0)
    if !f.bound ∧ f.type = .DGRAM then none
    else if !f.connected ∧ f.type ≠ .DGRAM then none
    else
      match t.call with
      | .send dontwait =>
        if f.type ≠ .STREAM ∧ f.connected then none
        else if f.type ≠ .STREAM ∧ !f.bound then none
        else some ⟨f.port, if f.flags &&& O_NONBLOCK = O_NONBLOCK ∨ dontwait then false else true⟩
      | .write => some ⟨f.port, if f.flags &&& O_NONBLOCK = O_NONBLOCK then false else true⟩

/-- The bytes of a transfer that find space: none when its prefix and a character do not, all of them
when the call waits, and else those in front of the first that finds the FIFO full. -/
def Transfer.fitting (t : Transfer) (lastport : Int) (c : Handed) : Bytes :=
  if t.room < (portstr lastport c.port).length + 1 then []
  else t.msg.take (spaceFor c.wait t.free 0 t.msg)

/-- **A call is a transfer of what it hands on**, or does nothing. -/
theorem Transfer.run_handed (t : Transfer) (net : Sockets) :
    t.run net = (t.handed net).elim net fun c =>
      (net.sendData t.room t.free c.port t.msg c.wait).1 := by
  unfold Transfer.run Transfer.handed
  cases t.call with
  | send dontwait =>
    show (net.espmSend t.room t.free t.socket t.msg dontwait).1 = _
    unfold Sockets.espmSend
    cases Socket.getind net.fdlist t.socket with
    | none => rfl
    | some ind =>
      dsimp only [Option.bind_some]
      split_ifs <;> rfl
  | write =>
    show (net.espmWrite t.room t.free t.socket t.msg).1 = _
    unfold Sockets.espmWrite
    cases Socket.getind net.fdlist t.socket with
    | none => rfl
    | some ind =>
      dsimp only [Option.bind_some]
      split_ifs <;> rfl

/-! ## §2 — the channel under refusals -/

/-- The two ends, and what has gone between them. -/
structure Shared where
  up : Uplink
  /-- the port of the last prefix that was written -/
  announced : Option Int
  /-- the bytes every transfer has returned as sent, with the port it was for -/
  accepted : List (Int × Bytes)

namespace Shared

/-- A call, and the receiver reads what it has written. -/
def step (w : Shared) (t : Transfer) : Shared :=
  match t.handed w.up.net with
  | none => { w with up := w.up.step t }
  | some c =>
    let portstr := portstr w.up.net.lastport c.port
    let resp := (w.up.net.sendData t.room t.free c.port t.msg c.wait).2
    { up := w.up.step t
      announced := if portstr ≠ [] ∧ portstr.length + 1 ≤ t.room then some c.port else w.announced
      accepted := w.accepted ++ [(c.port, t.msg.take resp.toNat)] }

/-- **Every accepted byte is where it was sent**: the buffer of every port has got what was accepted
for it, in order, and nothing else has changed in the list of ports. -/
def Delivered (start w : Shared) : Prop :=
  w.up.client.portlist =
    ledger (fun e => getnotclosed start.up.client.portlist e.1) Prod.snd WifiPort.push
      start.up.client.portlist w.accepted

instance (start w : Shared) : Decidable (Delivered start w) := inferInstanceAs (Decidable (_ = _))

/-- What a call hands on is for a port that is open in the test bench. -/
def Admissible (start : Shared) (t : Transfer) : Prop :=
  ∀ c ∈ t.handed start.up.net,
    0 ≤ c.port ∧ c.port < 2 ^ 31 ∧ (getnotclosed start.up.client.portlist c.port).isSome

instance (start : Shared) (t : Transfer) : Decidable (Admissible start t) :=
  inferInstanceAs (Decidable (∀ c ∈ t.handed start.up.net, _))

/-- The bytes that find space hold no `0xff`, and where there are any, the port the sender does not
announce again is the one it has announced. -/
def Sound (w : Shared) (t : Transfer) : Prop :=
  ∀ c ∈ t.handed w.up.net,
    0xff ∉ t.fitting w.up.net.lastport c ∧
      (t.fitting w.up.net.lastport c ≠ [] → w.up.net.lastport = c.port → w.announced = some c.port)

instance (w : Shared) (t : Transfer) : Decidable (Sound w t) :=
  inferInstanceAs (Decidable (∀ c ∈ t.handed w.up.net, _))

/-- The receiver is between two messages and has selected the entry of the port announced to it. -/
structure Coupled (client : Webclient) (announced : Option Int) : Prop where
  pc : client.pc = .top
  control : client.Controlled
  /-- where the index will be looked for again, the open entries are found -/
  first : client.portclosed = true → ∀ port ind,
    getnotclosed client.portlist port = some ind → getind client.portlist port = some ind
  selected : client.selected = announced.bind (getnotclosed client.portlist)

variable {start w : Shared} {t : Transfer} {c : Handed} {client : Webclient} {announced : Option Int}
  {ind : Nat}

/-! ## §3 — the receiver -/

theorem Coupled.valid (h : Coupled client announced) :
    ∀ i ∈ client.selected, i < client.portlist.length := by
  intro i hi
  rw [h.selected] at hi
  obtain ⟨port, _, hind⟩ := Option.bind_eq_some_iff.mp hi
  obtain ⟨e, he, _⟩ := Uplink.getnotclosed_some hind
  exact (List.getElem?_eq_some_iff.mp he).1

/-- **A prefix, or none**: the receiver knows of the port announced last. -/
theorem Coupled.feed_portstr (h : Coupled client announced) (net : Sockets) {port : Int}
    (h₀ : 0 ≤ port) (h₁ : port < 2 ^ 31) (hind : getnotclosed client.portlist port = some ind) :
    Coupled (client.feed (portstr net.lastport port))
        (if portstr net.lastport port ≠ [] then some port else announced) ∧
      (client.feed (portstr net.lastport port)).portlist = client.portlist := by
  by_cases hnew : port ≥ 0 ∧ net.lastport ≠ port
  · have hannounced : portstr net.lastport port = portPrefix port := if_pos hnew
    have hsome : portPrefix port ≠ [] := List.cons_ne_nil _ _
    have hpoised := Uplink.poised_prefix (w := ⟨net, client⟩) h.pc h.first h₀ h₁ hind
    have hlist : (client.feed (portPrefix port)).portlist = client.portlist := hpoised.portlist
    have hclosed : (client.feed (portPrefix port)).portclosed = client.portclosed :=
      hpoised.portclosed
    rw [hannounced, if_pos hsome]
    refine ⟨⟨hpoised.pc, hpoised.controlled h.control, ?_, ?_⟩, hlist⟩
    · rw [hlist, hclosed]
      exact h.first
    · rw [hlist, hpoised.selected]
      exact hind.symm
  · have hnone : portstr net.lastport port = [] := if_neg hnew
    rw [hnone, if_neg (not_not.mpr rfl)]
    exact ⟨h, rfl⟩

/-- **Bytes without a `0xff`** go to the port announced last. -/
theorem Coupled.feed_plain (h : Coupled client announced) {bs : Bytes} (hff : 0xff ∉ bs)
    (hind : announced.bind (getnotclosed client.portlist) = some ind) :
    Coupled (client.feed bs) announced ∧
      (client.feed bs).portlist = client.portlist.modify ind (·.push bs) := by
  have hsel : client.selected = some ind := h.selected.trans hind
  have htook := Webclient.feed_plain h.pc hsel (h.valid ind hsel) hff
  have hopen : getnotclosed (client.feed bs).portlist = getnotclosed client.portlist := by
    funext port
    rw [htook.portlist, Uplink.getnotclosed_push]
  refine ⟨⟨htook.pc, htook.controlled h.control, ?_, ?_⟩, htook.portlist⟩
  · intro hclosed port i hi
    rw [hopen] at hi
    rw [htook.portlist, Uplink.getind_push]
    exact h.first (htook.portclosed hclosed) port i hi
  · rw [htook.selected, hopen]
    exact hind.symm

/-- Whether its port is announced now or was announced last, the receiver knows of a transfer's
port. -/
theorem announced_eq {lastport port : Int} (h₀ : 0 ≤ port)
    (hknown : lastport = port → announced = some port) :
    (if portstr lastport port ≠ [] then some port else announced) = some port := by
  by_cases hlast : lastport = port
  · rw [hknown hlast, ite_self]
  · have hannounced : portstr lastport port = portPrefix port := if_pos ⟨h₀, hlast⟩
    have hsome : portPrefix port ≠ [] := List.cons_ne_nil _ _
    rw [hannounced, if_pos hsome]

/-- **A transfer to a port the receiver knows of.** -/
theorem Coupled.feed_transfer (h : Coupled client announced) (net : Sockets) {port : Int}
    (h₀ : 0 ≤ port) (h₁ : port < 2 ^ 31) (hind : getnotclosed client.portlist port = some ind)
    {bs : Bytes} (hff : 0xff ∉ bs)
    (hknown : bs ≠ [] → net.lastport = port → announced = some port) :
    Coupled ((client.feed (portstr net.lastport port)).feed bs)
        (if portstr net.lastport port ≠ [] then some port else announced) ∧
      ((client.feed (portstr net.lastport port)).feed bs).portlist =
        client.portlist.modify ind (·.push bs) := by
  obtain ⟨hcoupled, hlist⟩ := h.feed_portstr net h₀ h₁ hind
  by_cases hempty : bs = []
  · -- nothing follows the prefix
    subst hempty
    exact ⟨hcoupled, hlist.trans (modify_push_nil client.portlist ind).symm⟩
  · have hselected : (if portstr net.lastport port ≠ [] then some port else announced).bind
        (getnotclosed (client.feed (portstr net.lastport port)).portlist) = some ind := by
      rw [hlist, announced_eq h₀ (hknown hempty)]
      exact hind
    have hplain := hcoupled.feed_plain hff hselected
    rwa [hlist] at hplain

/-- **Bytes that follow the announcement of another port** do not get where they are for. -/
theorem Coupled.feed_astray (h : Coupled client announced) {bs : Bytes} (hff : 0xff ∉ bs)
    (hne : bs ≠ []) {port : Int} (h₀ : 0 ≤ port) (hind : getnotclosed client.portlist port = some ind)
    (hother : announced ≠ some port) :
    (client.feed bs).portlist ≠ client.portlist.modify ind (·.push bs) := by
  intro hlist
  have hlength : 0 < bs.length := List.length_pos_iff.mpr hne
  cases hann : announced.bind (getnotclosed client.portlist) with
  | none =>
    have hnowhere := (Webclient.feed_unselected h.pc (h.selected.trans hann) hff).1
    have hfull := Uplink.total_push h₀ hind bs
    rw [← hlist, hnowhere] at hfull
    omega
  | some i =>
    have hthere := (h.feed_plain hff hann).2
    obtain ⟨port', hport', hi⟩ := Option.bind_eq_some_iff.mp hann
    obtain ⟨e, he, heport⟩ := Uplink.getnotclosed_some hind
    obtain ⟨e', he', heport'⟩ := Uplink.getnotclosed_some hi
    have hindex : i ≠ ind := by
      rintro rfl
      obtain rfl : e = e' := Option.some.inj (he.symm.trans he')
      exact hother (hport'.trans (congrArg some (heport'.symm.trans heport)))
    -- the entry of the port is as it was
    have hentry : some e = some (e.push bs) := by
      have hget := congrArg (fun portlist => portlist[ind]?) (hthere.symm.trans hlist)
      simp only [List.getElem?_modify, he, if_neg hindex, if_true, Option.map_eq_map,
        Option.map_some] at hget
      exact hget
    have hbuffer : e.buffer = e.buffer ++ bs := congrArg WifiPort.buffer (Option.some.inj hentry)
    exact hne (List.self_eq_append_right.mp hbuffer)

/-! ## §4 — one transfer -/

theorem sendData_eq (net : Sockets) (t : Transfer) (c : Handed) :
    net.sendData t.room t.free c.port t.msg c.wait =
      if t.room < (portstr net.lastport c.port).length + 1 then
        ({ net with lastport := nextLastport c.port }, (0 : Int))
      else
        ({ net with
            tx := net.tx ++ (portstr net.lastport c.port ++ t.fitting net.lastport c)
            lastport := nextLastport c.port }, ((spaceFor c.wait t.free 0 t.msg : Nat) : Int)) := by
  unfold Sockets.sendData Transfer.fitting
  rw [sendmsg_space]
  split_ifs
  · dsimp only
    rw [List.append_nil]
    rfl
  · rfl

/-- A call that returns -1 does nothing. -/
theorem step_none (hc : t.handed w.up.net = none) : w.step t = w := by
  have hrun : t.run w.up.net = w.up.net := by rw [Transfer.run_handed, hc]; rfl
  have hup : w.up.step t = w.up := by
    unfold Uplink.step
    rw [hrun]
    dsimp only
    rw [List.drop_length]
    rfl
  unfold step
  rw [hc]
  dsimp only
  rw [hup]

/-- **A refused transfer** changes what the sender remembers, and nothing else. -/
theorem step_refused (hc : t.handed w.up.net = some c)
    (hfull : t.room < (portstr w.up.net.lastport c.port).length + 1) :
    w.step t =
      { up := ⟨{ w.up.net with lastport := nextLastport c.port }, w.up.client⟩
        announced := w.announced
        accepted := w.accepted ++ [(c.port, [])] } := by
  have hrun : t.run w.up.net = { w.up.net with lastport := nextLastport c.port } := by
    rw [Transfer.run_handed, hc, Option.elim_some, sendData_eq, if_pos hfull]
  have hup : w.up.step t = ⟨{ w.up.net with lastport := nextLastport c.port }, w.up.client⟩ := by
    unfold Uplink.step
    rw [hrun]
    dsimp only
    rw [List.drop_length]
    rfl
  unfold step
  rw [hc]
  dsimp only
  rw [hup, sendData_eq, if_pos hfull, if_neg fun h => absurd h.2 (by omega)]
  rfl

/-- **A transfer with space** announces its port where it has changed, and writes the bytes that
fit. -/
theorem step_written (hc : t.handed w.up.net = some c)
    (hroom : ¬ t.room < (portstr w.up.net.lastport c.port).length + 1) :
    w.step t =
      { up :=
          { net := { w.up.net with
              tx := w.up.net.tx ++
                (portstr w.up.net.lastport c.port ++ t.fitting w.up.net.lastport c)
              lastport := nextLastport c.port }
            client := (w.up.client.feed (portstr w.up.net.lastport c.port)).feed
              (t.fitting w.up.net.lastport c) }
        announced := if portstr w.up.net.lastport c.port ≠ [] then some c.port else w.announced
        accepted := w.accepted ++ [(c.port, t.fitting w.up.net.lastport c)] } := by
  have hrun : t.run w.up.net = { w.up.net with
      tx := w.up.net.tx ++ (portstr w.up.net.lastport c.port ++ t.fitting w.up.net.lastport c)
      lastport := nextLastport c.port } := by
    rw [Transfer.run_handed, hc, Option.elim_some, sendData_eq, if_neg hroom]
  have hfits : t.msg.take (spaceFor c.wait t.free 0 t.msg) = t.fitting w.up.net.lastport c :=
    (if_neg hroom).symm
  have hannounce : (portstr w.up.net.lastport c.port ≠ [] ∧
      (portstr w.up.net.lastport c.port).length + 1 ≤ t.room) ↔
        portstr w.up.net.lastport c.port ≠ [] := and_iff_left (by omega)
  unfold step
  rw [hc]
  dsimp only
  rw [Uplink.step, hrun]
  dsimp only
  rw [List.drop_left, Webclient.feed_append, sendData_eq, if_neg hroom]
  dsimp only
  rw [Int.toNat_natCast, hfits, if_congr hannounce rfl rfl]

/-! ## §5 — runs -/

/-- The ends agree, everything accepted has arrived, and the descriptors are those of the start. -/
structure Kept (start w : Shared) : Prop where
  coupled : Coupled w.up.client w.announced
  delivered : Delivered start w
  fdlist : w.up.net.fdlist = start.up.net.fdlist

theorem handed_congr {net net' : Sockets} (h : net'.fdlist = net.fdlist) (t : Transfer) :
    t.handed net' = t.handed net := by
  unfold Transfer.handed
  rw [h]

/-- The ports that are open stay so. -/
theorem Delivered.getnotclosed (h : Delivered start w) (port : Int) :
    getnotclosed w.up.client.portlist port = Web.getnotclosed start.up.client.portlist port := by
  apply findIdx?_of_map_eq
  rw [h]
  apply map_ledger
  intro bs e
  rfl

/-- **One entry more in the books.** -/
theorem ledger_accepted {port : Int} (hind : getnotclosed start.up.client.portlist port = some ind)
    (accepted : List (Int × Bytes)) (bs : Bytes) :
    ledger (fun e => getnotclosed start.up.client.portlist e.1) Prod.snd WifiPort.push
        start.up.client.portlist (accepted ++ [(port, bs)]) =
      (ledger (fun e => getnotclosed start.up.client.portlist e.1) Prod.snd WifiPort.push
        start.up.client.portlist accepted).modify ind (·.push bs) := by
  apply ledger_snoc WifiPort.push_nil _ (e := (port, bs)) hind
  intro e bs cs
  simp [WifiPort.push]

theorem fitting_of_full {lastport : Int} (hfull : t.room < (portstr lastport c.port).length + 1) :
    t.fitting lastport c = [] := if_pos hfull

/-- A sound call keeps what has been accepted together with what has arrived. -/
theorem Kept.step (h : Kept start w) (hadm : Admissible start t) (hsound : Sound w t) :
    Kept start (w.step t) := by
  cases hc : t.handed w.up.net with
  | none =>
    rw [step_none hc]
    exact h
  | some c =>
    obtain ⟨h₀, h₁, hopen⟩ := hadm c ((handed_congr h.fdlist t).symm.trans hc)
    obtain ⟨ind, hdest⟩ := Option.isSome_iff_exists.mp hopen
    have hind : getnotclosed w.up.client.portlist c.port = some ind :=
      (h.delivered.getnotclosed c.port).trans hdest
    obtain ⟨hff, hknown⟩ := hsound c hc
    by_cases hfull : t.room < (portstr w.up.net.lastport c.port).length + 1
    · rw [step_refused hc hfull]
      refine ⟨h.coupled, ?_, h.fdlist⟩
      unfold Delivered
      dsimp only
      rw [ledger_accepted hdest, modify_push_nil]
      exact h.delivered
    · rw [step_written hc hfull]
      obtain ⟨hcoupled, hlist⟩ := h.coupled.feed_transfer w.up.net h₀ h₁ hind hff hknown
      refine ⟨hcoupled, ?_, h.fdlist⟩
      unfold Delivered
      dsimp only
      rw [ledger_accepted hdest, hlist, h.delivered]

/-- **A call that is not sound** does not deliver what it has accepted. -/
theorem Kept.broken (h : Kept start w) (hadm : Admissible start t) (hbad : ¬ Sound w t) :
    ¬ Delivered start (w.step t) := by
  unfold Sound at hbad
  push Not at hbad
  obtain ⟨c, hc, hbad⟩ := hbad
  obtain ⟨h₀, h₁, hopen⟩ := hadm c ((handed_congr h.fdlist t).symm.trans hc)
  obtain ⟨ind, hdest⟩ := Option.isSome_iff_exists.mp hopen
  have hind : getnotclosed w.up.client.portlist c.port = some ind :=
    (h.delivered.getnotclosed c.port).trans hdest
  have hsome : t.fitting w.up.net.lastport c ≠ [] := by
    intro hnil
    rw [hnil] at hbad
    exact (hbad List.not_mem_nil).1 rfl
  have hroom : ¬ t.room < (portstr w.up.net.lastport c.port).length + 1 :=
    fun hfull => hsome (fitting_of_full hfull)
  rw [step_written hc hroom]
  intro hdelivered
  unfold Delivered at hdelivered
  dsimp only at hdelivered
  rw [ledger_accepted hdest, ← h.delivered] at hdelivered
  obtain ⟨hcoupled, hlist⟩ := h.coupled.feed_portstr w.up.net h₀ h₁ hind
  by_cases hff : 0xff ∈ t.fitting w.up.net.lastport c
  · have hshort := Webclient.feed_ff hcoupled.control hcoupled.pc hcoupled.valid hff
    rw [hdelivered, hlist, Uplink.total_push h₀ hind] at hshort
    exact Nat.lt_irrefl _ hshort
  · obtain ⟨_, hlast, hother⟩ := hbad hff
    have hnone : portstr w.up.net.lastport c.port = [] := if_neg fun hnew => hnew.2 hlast
    rw [hnone, Webclient.feed_nil] at hdelivered
    exact h.coupled.feed_astray hff hsome h₀ hind hother hdelivered

/-- **What is accepted arrives, exactly when every call is sound.** Any calls of `espm_send` and
`espm_write` on ports that are open in the test bench, with any free space in front of each and of
each of its bytes: after every call each port has got exactly the bytes that were accepted for it, if
and only if in every call the bytes that find space hold no `0xff`, and no such byte is for a port
that the sender remembers although its last prefix was another's. -/
theorem accepted_delivered (h : Coupled start.up.client start.announced) (hnew : start.accepted = [])
    (es : List Transfer) (hadm : ∀ t ∈ es, Admissible start t) :
    Always (fun _ => Delivered start) step [] start es ↔ Throughout Sound step start es := by
  have hstart : Kept start start := by
    refine ⟨h, ?_, rfl⟩
    unfold Delivered
    rw [hnew, ledger_nil WifiPort.push_nil]
  exact always_iff_throughout (I := fun _ => Kept start) (fun _ _ hk => hk.delivered)
    (fun _ _ _ hk ha hs => hk.step ha hs) (fun _ _ _ hk ha hs => hk.broken ha hs) es [] start hstart
    ((throughout_forall es start).mpr hadm)

/-- The ports 80 and 81, before anything has been sent. -/
def quiet : Shared := ⟨Uplink.twoPorts, none, []⟩

theorem quiet_coupled : Coupled quiet.up.client quiet.announced where
  pc := rfl
  control := rfl
  first h := nomatch h
  selected := rfl

/-- Refused transfers in between, and one that runs out of space: port 81 is announced when it is its
turn. -/
theorem accepted_delivered_refused :
    Always (fun _ => Delivered quiet) step [] quiet
      [⟨.write, 2, 256, fun p => 256 - p, str "a"⟩, ⟨.send true, 3, 3, fun p => 3 - p, str "b"⟩,
        ⟨.send true, 2, 6, fun p => 2 - p, str "cdef"⟩, ⟨.write, 3, 256, fun p => 256 - p, str "g"⟩] :=
  (accepted_delivered quiet_coupled rfl _ (by decide +kernel)).mpr (by decide +kernel)

/-- What is sent to port 81 after a refusal goes to port 80. -/
theorem refusal_misdirects :
    ¬ Always (fun _ => Delivered quiet) step [] quiet
      [⟨.write, 2, 256, fun p => 256 - p, str "a"⟩, ⟨.send true, 3, 3, fun p => 3 - p, str "b"⟩,
        ⟨.send true, 3, 256, fun p => 256 - p, str "b"⟩] := by
  intro h
  have hlast := h.last
  revert hlast
  decide +kernel

end Shared

end Espmod.Web
