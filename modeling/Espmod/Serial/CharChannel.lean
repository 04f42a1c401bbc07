/-
# Espmod.Serial.CharChannel — characters on a line without a clock

A `cchan` sends a character as one value of a nine-bit line, and the receiver takes a character
whenever the line changes. So that it always does, the ninth bit is another one for each character;
and the idle value `0xff`, which the receiver waits for at the beginning, is different from the first
character, whatever it is.

Two processes that are due in one delta cycle run in any order, and the update phase comes when no
process is due any more. The time between two characters is not modelled: the sender may take its next
one in any later delta cycle.
-/
import Espmod.Lib.Fifo
import Espmod.Lib.Signal

namespace Espmod.Serial

open Espmod.Lib

/-! ## §1 — the words -/

/-- What `outtake` puts on the line. -/
def word (clock : Bool) (msg : BitVec 8) : BitVec 32 :=
  if !clock then 0x100 + msg.setWidth 32 else msg.setWidth 32

/-- What `intake` makes of it. -/
def message (rx : BitVec 32) : BitVec 8 := (rx &&& 0xff).setWidth 8

theorem word_toNat (clock : Bool) (msg : BitVec 8) :
    (word clock msg).toNat = (if clock then 0 else 256) + msg.toNat := by
  have hlt := msg.isLt
  cases clock with
  | true =>
    simp only [word, Bool.not_true]
    simp
    omega
  | false =>
    simp only [word, Bool.not_false, if_true, BitVec.toNat_add, BitVec.toNat_setWidth]
    simp
    omega

@[simp] theorem message_word (clock : Bool) (msg : BitVec 8) : message (word clock msg) = msg := by
  apply BitVec.eq_of_toNat_eq
  have hlt := msg.isLt
  have hand : (word clock msg).toNat &&& 0xff = (word clock msg).toNat % 256 :=
    Nat.and_two_pow_sub_one_eq_mod _ 8
  have hword := word_toNat clock msg
  simp only [message, BitVec.toNat_setWidth, BitVec.toNat_and]
  show ((word clock msg).toNat &&& 0xff) % 256 = msg.toNat
  rw [hand, hword]
  split <;> omega

/-- **Every change is seen**: two characters with different clock bits are different values. -/
theorem word_ne (clock : Bool) (msg next : BitVec 8) : word (!clock) next ≠ word clock msg := by
  intro h
  have hmsg := msg.isLt
  have hnext := next.isLt
  have hnat := congrArg BitVec.toNat h
  rw [word_toNat, word_toNat] at hnat
  cases clock <;> simp at hnat <;> omega

/-- The first character is not the idle value. -/
theorem word_ne_idle (msg : BitVec 8) : word false msg ≠ 0xff := by
  intro h
  have hnat := congrArg BitVec.toNat h
  rw [word_toNat] at hnat
  simp at hnat
  omega

/-! ## §2 — two modules and a line -/

/-- A sender and a receiver, `tx` of the one connected to `rx` of the other. -/
structure Channel where
  toFifo : Fifo (BitVec 8)
  fromFifo : Fifo (BitVec 8)
  line : Signal (BitVec 32)
  clock : Bool
  /-- the sender has sent in this delta cycle, and waits -/
  sender : Bool
  /-- the receiver has seen the idle value -/
  listening : Bool
  /-- the line has changed, and the receiver has not run since -/
  woken : Bool
  /-- what was written into the FIFO of the sender -/
  written : List (BitVec 8)
  /-- what the sender has put on the line -/
  sent : List (BitVec 8)
  /-- what the receiver has found on the line, and whether its FIFO had room -/
  arrived : List (BitVec 8 × Bool)
  /-- what was read from the FIFO of the receiver -/
  consumed : List (BitVec 8)

namespace Channel

/-- The user of the sender writes, the user of the receiver reads, one of the two threads runs, or the
delta cycle is over. -/
inductive Event where
  | produce (msg : BitVec 8)
  | consume
  | outtake
  | intake
  | update

/-- When both threads have begun, on a line with any value. -/
def init (value : BitVec 32) (toSize fromSize : Nat) : Channel where
  toFifo := Fifo.init toSize
  fromFifo := Fifo.init fromSize
  line := (Signal.init value).write 0xff
  clock := false
  sender := false
  listening := value = 0xff
  woken := false
  written := []
  sent := []
  arrived := []
  consumed := []

/-- A write blocks while there is no room. -/
def produce (msg : BitVec 8) (c : Channel) : Channel :=
  if c.toFifo.numFree = 0 then c
  else { c with toFifo := c.toFifo.write msg, written := c.written ++ [msg] }

def consume (c : Channel) : Channel :=
  match c.fromFifo.ready with
  | [] => c
  | msg :: _ => { c with fromFifo := c.fromFifo.read, consumed := c.consumed ++ [msg] }

/-- The sender takes a character, if there is one, and sends it. -/
def outtake (c : Channel) : Channel :=
  if c.sender then c
  else
    match c.toFifo.ready with
    | [] => c
    | msg :: _ =>
      { c with
        toFifo := c.toFifo.read
        line := c.line.write (word c.clock msg)
        clock := !c.clock
        sender := true
        sent := c.sent ++ [msg] }

/-- The receiver after a change of the line. -/
def intake (c : Channel) : Channel :=
  if c.woken then
    if c.listening then
      let msg := message c.line.cur
      if c.fromFifo.numFree = 0 then
        { c with woken := false, arrived := c.arrived ++ [(msg, false)] }
      else
        { c with
          woken := false
          fromFifo := c.fromFifo.write msg
          arrived := c.arrived ++ [(msg, true)] }
    else { c with woken := false, listening := c.line.cur = 0xff }
  else c

/-- The update phase, when the receiver has run. -/
def update (c : Channel) : Channel :=
  if c.woken then c
  else
    { c with
      toFifo := c.toFifo.update
      fromFifo := c.fromFifo.update
      line := c.line.update
      sender := false
      woken := c.line.next ≠ c.line.cur }

def step (c : Channel) : Event → Channel
  | .produce msg => c.produce msg
  | .consume => c.consume
  | .outtake => c.outtake
  | .intake => c.intake
  | .update => c.update

/-- Nothing is on its way on the line. -/
def Settled (c : Channel) : Prop := c.line.Quiet ∧ c.woken = false

/-- A step of one of the modules. -/
def Own : Event → Prop
  | .produce _ => False
  | .consume => False
  | _ => True

/-! ## §3 — the invariant -/

/-- Where the characters are that have been sent: the receiver has them, except for one that it is due
to take and one that waits for the update phase. -/
inductive Way (c : Channel) : Prop where
  /-- the idle value has not come to the line yet -/
  | starting (hlisten : c.listening = false) (hwoken : c.woken = false) (hsent : c.sent = [])
      (harr : c.arrived = []) (hclock : c.clock = false) (hnext : c.line.next = 0xff)
      (hcur : c.line.cur ≠ 0xff) (hready : c.toFifo.ready = [])
  | running (due pend : Option (BitVec 8))
      (hsent : c.sent = c.arrived.map Prod.fst ++ due.toList ++ pend.toList)
      (hdue : due = if c.woken && c.listening then some (message c.line.cur) else none)
      (hidle : c.listening = false → c.woken = true ∧ c.line.cur = 0xff)
      (hpend : pend = none ∧ c.line.Quiet ∨
        ∃ m, pend = some m ∧ c.line.next = word (!c.clock) m ∧ c.line.next ≠ c.line.cur ∧
          c.sender = true)
      (htop : (c.line.next = 0xff ∧ c.clock = false) ∨ ∃ m, c.line.next = word (!c.clock) m)

/-- **The invariant.** -/
structure Inv (c : Channel) : Prop where
  written : c.written = c.sent ++ c.toFifo.content
  kept : c.consumed ++ c.fromFifo.content = kept c.arrived
  way : Way c

variable {c : Channel}

theorem inv_init (value : BitVec 32) (toSize fromSize : Nat) : Inv (init value toSize fromSize) where
  written := rfl
  kept := rfl
  way := by
    by_cases hv : value = 0xff
    · refine .running none none rfl rfl ?_ (Or.inl ⟨rfl, hv.symm⟩) (Or.inl ⟨rfl, rfl⟩)
      intro h
      exact absurd (show decide (value = 0xff) = false from h) (by simp [hv])
    · exact .starting (decide_eq_false hv) rfl rfl rfl rfl rfl hv rfl

/-- A line at rest has brought everything. -/
theorem Inv.settled (h : Inv c) (hs : c.Settled) : c.sent = c.arrived.map Prod.fst := by
  cases h.way with
  | starting _ _ hsent harr _ _ _ _ => rw [hsent, harr]; rfl
  | running due pend hsent hdue _ hpend _ =>
    rw [hs.2] at hdue
    rcases hpend with ⟨hpend, _⟩ | ⟨m, _, _, hne, _⟩
    · rw [hsent, hdue, hpend]
      simp
    · exact absurd hs.1 hne

/-- At most two characters are on their way. -/
theorem Inv.onTheWay (h : Inv c) :
    ∃ rest, c.sent = c.arrived.map Prod.fst ++ rest ∧ rest.length ≤ 2 := by
  cases h.way with
  | starting _ _ hsent harr _ _ _ _ => exact ⟨[], by rw [hsent, harr]; rfl, Nat.zero_le _⟩
  | running due pend hsent _ _ _ _ =>
    refine ⟨due.toList ++ pend.toList, by rw [hsent, List.append_assoc], ?_⟩
    cases due <;> cases pend <;> simp

/-! ## §4 — the steps -/

theorem Inv.produce (h : Inv c) (msg : BitVec 8) : Inv (c.produce msg) := by
  unfold Channel.produce
  split
  · exact h
  · refine ⟨?_, h.kept, ?_⟩
    · show c.written ++ [msg] = c.sent ++ (c.toFifo.write msg).content
      rw [Fifo.content_write, ← List.append_assoc, h.written]
    · cases h.way with
      | starting h1 h2 h3 h4 h5 h6 h7 h8 => exact .starting h1 h2 h3 h4 h5 h6 h7 h8
      | running due pend h1 h2 h3 h4 h5 => exact .running due pend h1 h2 h3 h4 h5

theorem Inv.consume (h : Inv c) : Inv c.consume := by
  unfold Channel.consume
  split
  · exact h
  · rename_i msg msgs hready
    refine ⟨h.written, ?_, ?_⟩
    · show (c.consumed ++ [msg]) ++ c.fromFifo.read.content = _
      rw [List.append_assoc, List.singleton_append, ← Fifo.content_read hready, h.kept]
    · cases h.way with
      | starting h1 h2 h3 h4 h5 h6 h7 h8 => exact .starting h1 h2 h3 h4 h5 h6 h7 h8
      | running due pend h1 h2 h3 h4 h5 => exact .running due pend h1 h2 h3 h4 h5

/-- A character that is sent changes the line. -/
theorem Inv.outtake (h : Inv c) : Inv c.outtake := by
  unfold Channel.outtake
  split
  · exact h
  · rename_i hsender
    split
    · exact h
    · rename_i msg msgs hready
      refine ⟨?_, h.kept, ?_⟩
      · show c.written = (c.sent ++ [msg]) ++ c.toFifo.read.content
        rw [List.append_assoc, List.singleton_append, ← Fifo.content_read hready, h.written]
      · cases h.way with
        | starting _ _ _ _ _ _ _ hno => rw [hno] at hready; cases hready
        | running due pend hsent hdue hidle hpend htop =>
          rcases hpend with ⟨hpend, hquiet⟩ | ⟨_, _, _, _, hs⟩
          · have hchange : word c.clock msg ≠ c.line.cur := by
              rw [← show c.line.next = c.line.cur from hquiet]
              rcases htop with ⟨hnext, hclock⟩ | ⟨m, hnext⟩
              · rw [hnext, hclock]
                exact word_ne_idle msg
              · rw [hnext]
                have hne := word_ne (!c.clock) m msg
                rwa [Bool.not_not] at hne
            have hword : word c.clock msg = word (!!c.clock) msg := by rw [Bool.not_not]
            refine .running due (some msg) ?_ hdue hidle (Or.inr ⟨msg, rfl, hword, hchange, rfl⟩)
              (Or.inr ⟨msg, hword⟩)
            show c.sent ++ [msg] = _
            rw [hsent, hpend]
            simp
          · exact absurd hs hsender

theorem Inv.intake (h : Inv c) : Inv c.intake := by
  unfold Channel.intake
  split
  · rename_i hwoken
    cases h.way with
    | starting _ hno _ _ _ _ _ _ => rw [hno] at hwoken; cases hwoken
    | running due pend hsent hdue hidle hpend htop =>
      split
      · rename_i hlisten
        rw [hwoken, hlisten] at hdue
        -- what was due has arrived
        have hsent' : ∀ room : Bool, c.sent =
            (c.arrived ++ [(message c.line.cur, room)]).map Prod.fst ++ (none : Option _).toList ++
              pend.toList := by
          intro room
          rw [hsent, hdue]
          simp
        have hno : ¬ c.listening = false := by rw [hlisten]; exact Bool.noConfusion
        dsimp only
        split
        · refine ⟨h.written, ?_, ?_⟩
          · exact h.kept.trans (kept_append_full _ _).symm
          · exact .running none pend (hsent' false) rfl (fun hf => absurd hf hno) hpend htop
        · refine ⟨h.written, ?_, ?_⟩
          · show c.consumed ++ (c.fromFifo.write _).content = _
            rw [Fifo.content_write, ← List.append_assoc, h.kept]
            exact (kept_append_room _ _).symm
          · exact .running none pend (hsent' true) rfl (fun hf => absurd hf hno) hpend htop
      · rename_i hlisten
        have hlisten : c.listening = false := Bool.eq_false_iff.mpr hlisten
        have hcur := (hidle hlisten).2
        rw [hlisten, Bool.and_false] at hdue
        refine ⟨h.written, h.kept, .running none pend ?_ rfl ?_ hpend htop⟩
        · rw [hsent, hdue]
          rfl
        · intro hf
          exact absurd hf (by simp [hcur])
  · exact h

theorem Inv.update (h : Inv c) : Inv c.update := by
  unfold Channel.update
  split
  · exact h
  · rename_i hwoken
    have hwoken : c.woken = false := Bool.eq_false_iff.mpr hwoken
    refine ⟨?_, ?_, ?_⟩
    · show c.written = c.sent ++ c.toFifo.update.content
      rw [Fifo.content_update, h.written]
    · show c.consumed ++ c.fromFifo.update.content = _
      rw [Fifo.content_update, h.kept]
    · cases h.way with
      | starting hlisten _ hsent harr hclock hnext hcur _ =>
        -- the idle value comes to the line
        have hwake : c.line.next ≠ c.line.cur := by rw [hnext]; exact hcur.symm
        refine .running none none ?_ ?_ ?_ (Or.inl ⟨rfl, rfl⟩) (Or.inl ⟨hnext, hclock⟩)
        · show c.sent = _
          rw [hsent, harr]
          rfl
        · show none = if _ && c.listening then _ else none
          rw [hlisten, Bool.and_false]
          rfl
        · exact fun _ => ⟨decide_eq_true hwake, hnext⟩
      | running due pend hsent hdue hidle hpend htop =>
        have hlisten : c.listening = true := by
          by_contra hno
          rw [(hidle (Bool.eq_false_iff.mpr hno)).1] at hwoken
          cases hwoken
        rw [hwoken, Bool.false_and] at hdue
        have hdue : due = none := hdue
        subst hdue
        have hno : ¬ c.listening = false := by rw [hlisten]; exact Bool.noConfusion
        rcases hpend with ⟨hpend, hquiet⟩ | ⟨m, hpend, hnext, hne, _⟩
        · refine .running none none ?_ ?_ (fun hf => absurd hf hno) (Or.inl ⟨rfl, rfl⟩) htop
          · rw [hsent, hpend]
          · show none = if decide (c.line.next ≠ c.line.cur) && _ then _ else none
            rw [decide_eq_false fun hne : c.line.next ≠ c.line.cur => hne hquiet]
            rfl
        · refine .running (some m) none ?_ ?_ (fun hf => absurd hf hno) (Or.inl ⟨rfl, rfl⟩) htop
          · show c.sent = c.arrived.map Prod.fst ++ (some m).toList ++ (none : Option (BitVec 8)).toList
            rw [hsent, hpend]
            simp
          · show some m = if decide (c.line.next ≠ c.line.cur) && c.listening then
              some (message c.line.next) else none
            rw [decide_eq_true hne, hlisten, hnext, message_word]
            rfl

theorem Inv.step (h : Inv c) (e : Event) : Inv (c.step e) := by
  cases e with
  | produce msg => exact h.produce msg
  | consume => exact h.consume
  | outtake => exact h.outtake
  | intake => exact h.intake
  | update => exact h.update

theorem Inv.run (h : Inv c) (es : List Event) : Inv (es.foldl Channel.step c) :=
  List.foldlRecOn es Channel.step h fun _ h e _ => h.step e

/-! ## §5 — every character arrives -/

/-- The receiver, an update phase and the receiver again: then the line is at rest, and what was in
the FIFO of the sender is there still and can be taken. -/
theorem settles (c : Channel) :
    (c.intake.update.intake).Settled ∧ (c.intake.update.intake).sender = false ∧
      (c.intake.update.intake).toFifo.ready = c.toFifo.content ∧
      (c.intake.update.intake).toFifo.fresh = [] ∧
      (c.intake.update.intake).written = c.written := by
  have hquiet : ∀ d : Channel, d.intake.woken = false ∧ d.intake.line = d.line ∧
      d.intake.sender = d.sender ∧ d.intake.toFifo = d.toFifo ∧ d.intake.written = d.written := by
    intro d
    unfold Channel.intake
    split
    · split
      · dsimp only
        split
        · exact ⟨rfl, rfl, rfl, rfl, rfl⟩
        · exact ⟨rfl, rfl, rfl, rfl, rfl⟩
      · exact ⟨rfl, rfl, rfl, rfl, rfl⟩
    · rename_i hwoken
      exact ⟨Bool.eq_false_iff.mpr hwoken, rfl, rfl, rfl, rfl⟩
  obtain ⟨hw, _, _, hto, hwritten⟩ := hquiet c
  obtain ⟨hw', hline', hsender', hto', hwritten'⟩ := hquiet c.intake.update
  have hupd : c.intake.update =
      { c.intake with
        toFifo := c.intake.toFifo.update
        fromFifo := c.intake.fromFifo.update
        line := c.intake.line.update
        sender := false
        woken := c.intake.line.next ≠ c.intake.line.cur } := by
    show Channel.update _ = _
    unfold Channel.update
    rw [if_neg (by rw [hw]; exact Bool.noConfusion)]
  refine ⟨⟨?_, hw'⟩, ?_, ?_, ?_, ?_⟩
  · rw [hline', hupd]
    exact Signal.quiet_update _
  · rw [hsender', hupd]
  · rw [hto', hupd]
    show c.intake.toFifo.update.ready = _
    rw [hto]
    rfl
  · rw [hto', hupd]
    rfl
  · rw [hwritten', hupd]
    exact hwritten

/-- Whatever is on its way and in the FIFO of the sender, the modules bring it to the receiver. -/
theorem Inv.drains (msgs : List (BitVec 8)) : ∀ {c : Channel}, Inv c → c.toFifo.content = msgs →
    ∃ more : List Event, (∀ e ∈ more, Own e) ∧ (more.foldl Channel.step c).written = c.written ∧
      (more.foldl Channel.step c).arrived.map Prod.fst = c.written := by
  induction msgs with
  | nil =>
    intro c h hcontent
    obtain ⟨hset, _, hready, hfresh, hwritten⟩ := settles c
    refine ⟨[.intake, .update, .intake], by simp [Own], hwritten, ?_⟩
    have hend : Inv c.intake.update.intake := h.run [.intake, .update, .intake]
    have hempty : (c.intake.update.intake).toFifo.content = [] := by
      unfold Fifo.content
      rw [hready, hfresh, hcontent]
      rfl
    have hall := hend.written
    rw [hempty, List.append_nil, hend.settled hset, hwritten] at hall
    exact hall.symm
  | cons msg msgs ih =>
    intro c h hcontent
    obtain ⟨_, hsender, hready, hfresh, hwritten⟩ := settles c
    -- the sender takes the next character
    have hout : (c.intake.update.intake.outtake).toFifo = (c.intake.update.intake).toFifo.read ∧
        (c.intake.update.intake.outtake).written = (c.intake.update.intake).written := by
      unfold Channel.outtake
      rw [if_neg (by rw [hsender]; exact Bool.noConfusion), hready, hcontent]
      exact ⟨rfl, rfl⟩
    have hnext : (c.intake.update.intake.outtake).toFifo.content = msgs := by
      rw [hout.1]
      unfold Fifo.content Fifo.read
      rw [hready, hfresh, hcontent]
      simp
    obtain ⟨more, hown, hsame, hall⟩ := ih (h.run [.intake, .update, .intake, .outtake]) hnext
    refine ⟨[.intake, .update, .intake, .outtake] ++ more, ?_, ?_, ?_⟩
    · intro e he
      rcases List.mem_append.mp he with he | he
      · exact (show ∀ e ∈ [Event.intake, .update, .intake, .outtake], Own e by simp [Own]) e he
      · exact hown e he
    · rw [List.foldl_append]
      exact hsame.trans (hout.2.trans hwritten)
    · rw [List.foldl_append]
      exact hall.trans (hout.2.trans hwritten)

/-! ## §6 — the characters that come to the receiver -/

/-- The characters for which the receiver is woken in a run, once it has seen the idle value, each with
whether its FIFO has room at that moment. They are read off the line and the FIFO, whatever the receiver
then does with them. -/
def arrivals (c : Channel) : List Event → List (BitVec 8 × Bool)
  | [] => []
  | e :: es =>
    match e with
    | .intake =>
      if c.woken && c.listening then
        (message c.line.cur, decide (0 < c.fromFifo.numFree)) :: arrivals (c.step e) es
      else arrivals (c.step e) es
    | _ => arrivals (c.step e) es

/-- The receiver records them. -/
theorem arrived_intake (c : Channel) : c.intake.arrived = c.arrived ++
    if c.woken && c.listening then [(message c.line.cur, decide (0 < c.fromFifo.numFree))] else [] := by
  unfold Channel.intake
  cases hwoken : c.woken with
  | false => exact (List.append_nil _).symm
  | true =>
    cases hlisten : c.listening with
    | false => exact (List.append_nil _).symm
    | true =>
      by_cases hfull : c.fromFifo.numFree = 0
      · simp [hfull]
      · simp [hfull, Nat.pos_of_ne_zero hfull]

theorem arrived_run (es : List Event) : ∀ c : Channel,
    (es.foldl Channel.step c).arrived = c.arrived ++ c.arrivals es := by
  induction es with
  | nil => exact fun c => (List.append_nil _).symm
  | cons e es ih =>
    intro c
    rw [List.foldl_cons, ih]
    cases e with
    | intake =>
      show c.intake.arrived ++ _ = _
      rw [arrived_intake, arrivals]
      cases hdue : c.woken && c.listening with
      | false => simp
      | true => simp
    | produce msg =>
      have hsame : (c.produce msg).arrived = c.arrived := by
        unfold Channel.produce
        split <;> rfl
      exact congrArg (· ++ _) hsame
    | consume =>
      have hsame : c.consume.arrived = c.arrived := by
        unfold Channel.consume
        split <;> rfl
      exact congrArg (· ++ _) hsame
    | outtake =>
      have hsame : c.outtake.arrived = c.arrived := by
        unfold Channel.outtake
        split
        · rfl
        · split <;> rfl
      exact congrArg (· ++ _) hsame
    | update =>
      have hsame : c.update.arrived = c.arrived := by
        unfold Channel.update
        split <;> rfl
      exact congrArg (· ++ _) hsame

/-- **Every character arrives once and in order**, in every run: what was written is what has come to the
receiver, at most two characters that are on the line (and none when it is at rest), and what waits in the
sender's FIFO; the receiver's FIFO has been given exactly the arrivals for which it had room; and the
modules need nobody's help to bring everything to the receiver. -/
theorem characters_delivered (value : BitVec 32) (toSize fromSize : Nat) (es : List Event) :
    let start := init value toSize fromSize
    let c := es.foldl Channel.step start
    (∃ rest, c.written = (start.arrivals es).map Prod.fst ++ rest ++ c.toFifo.content ∧ rest.length ≤ 2 ∧
        (c.Settled → rest = [])) ∧
      c.consumed ++ c.fromFifo.content = kept (start.arrivals es) ∧
      ∃ more : List Event, (∀ e ∈ more, Own e) ∧ (more.foldl Channel.step c).written = c.written ∧
        (start.arrivals (es ++ more)).map Prod.fst = c.written := by
  intro start c
  have h : Inv c := (inv_init value toSize fromSize).run es
  have harrived : ∀ ds, (ds.foldl Channel.step start).arrived = start.arrivals ds := fun ds => arrived_run ds start
  have hc : c.arrived = start.arrivals es := harrived es
  refine ⟨?_, ?_, ?_⟩
  · obtain ⟨rest, hsent, hlength⟩ := h.onTheWay
    refine ⟨rest, by rw [h.written, hsent, hc], hlength, fun hset => ?_⟩
    have hall := h.settled hset
    rw [hsent] at hall
    exact List.append_right_eq_self.mp hall
  · rw [h.kept, hc]
  · obtain ⟨more, hown, hwritten, hall⟩ := h.drains _ rfl
    refine ⟨more, hown, hwritten, ?_⟩
    rw [← harrived, List.foldl_append]
    exact hall

/-- The same character twice, which is also the idle value, and a third one for which the FIFO of the
receiver has no room, while its user waits. -/
theorem characters_delivered_repeated :
    let start := init 0 3 2
    let es : List Event :=
      [.update, .intake, .produce 0xff, .produce 0xff, .produce 0x41, .update, .outtake, .update, .intake,
        .outtake, .update, .intake, .outtake, .update, .intake, .update, .consume]
    let c := es.foldl Channel.step start
    c.written = [0xff, 0xff, 0x41] ∧ start.arrivals es = [(0xff, true), (0xff, true), (0x41, false)] ∧
      c.consumed = [0xff] ∧ c.fromFifo.content = [0xff] ∧
      c.consumed ++ c.fromFifo.content = kept (start.arrivals es) := by
  intro start es c
  exact ⟨by decide, by decide, by decide, by decide, (characters_delivered 0 3 2 es).2.1⟩

end Channel

end Espmod.Serial
