/-
# Espmod.Intr.Controller — the interrupt matrix and the masks of the two CPUs

`espintr` collects the interrupt sources into a raw word for each CPU, through a table for each, and
puts the words under the CPUs' masks. A request to set or clear mask bits leaves its mask, its CPU and
its direction in three variables of the module and notifies `maskupdate`, which applies them.

There is one set of these variables, so of the requests of one delta cycle only the last is applied;
and `maskupdate` does not look at the CPU, so it is applied to both masks. The masks are right exactly
as long as this gives each CPU what its own requests ask for.
-/
import Espmod.Lib.Run
import Espmod.Lib.Signal

namespace Espmod.Intr

open Espmod.Lib

/-! ## §1 — the module -/

/-- `ESPM_INTR_TABLE`, and the one source that is connected, `ETS_LEDC_INTR_SOURCE`. -/
def espmIntrTable : Int := 69
def etsLedcIntrSource : Int := 43

/-- `espintr`, without its drivers. -/
structure EspIntr where
  ledcIntrI : Bool
  rawApp : Signal (BitVec 32)
  rawPro : Signal (BitVec 32)
  maskApp : Signal (BitVec 32)
  maskPro : Signal (BitVec 32)
  intrApp : Signal (BitVec 32)
  intrPro : Signal (BitVec 32)
  tablePro : Int → Int
  tableApp : Int → Int
  newmask : BitVec 32
  procpu : Bool
  setunset : Bool
  /-- `maskupdate` has been notified and has not run since -/
  maskupdating : Bool
  /-- `catcher` has been woken and has not run since -/
  catching : Bool

namespace EspIntr

/-- After initialization: no source is routed. `maskupdate` runs once then, and leaves the same mask on
both CPUs. -/
def new (mask : BitVec 32) : EspIntr where
  ledcIntrI := false
  rawApp := .init 0
  rawPro := .init 0
  maskApp := .init mask
  maskPro := .init mask
  intrApp := .init 0
  intrPro := .init 0
  tablePro _ := -1
  tableApp _ := -1
  newmask := 0
  procpu := false
  setunset := false
  maskupdating := false
  catching := false

/-- `setintrmask` and `clrintrmask`, by `set`. -/
def request (set : Bool) (mask : BitVec 32) (cpu : Int) (e : EspIntr) : EspIntr :=
  { e with newmask := mask, setunset := set, procpu := decide (cpu = 0), maskupdating := true }

def setintrmask (mask : BitVec 32) (cpu : Int) (e : EspIntr) : EspIntr := request true mask cpu e

def clrintrmask (mask : BitVec 32) (cpu : Int) (e : EspIntr) : EspIntr := request false mask cpu e

/-- The result −1 of `alloc` and `dealloc`. -/
def BadEntry (cpu ets : Int) : Prop := ets < 0 ∨ espmIntrTable ≤ ets ∨ cpu < 0 ∨ 1 < cpu

instance (cpu ets : Int) : Decidable (BadEntry cpu ets) := inferInstanceAs (Decidable (_ ∨ _))

/-- An entry of the table of one CPU. -/
def setTable (cpu ets no : Int) (e : EspIntr) : EspIntr :=
  if cpu = 0 then { e with tablePro := fun i => if i = ets then no else e.tablePro i }
  else { e with tableApp := fun i => if i = ets then no else e.tableApp i }

/-- `alloc`. -/
def alloc (cpu ets no : Int) (e : EspIntr) : EspIntr :=
  if BadEntry cpu ets then e else setTable cpu ets no e

/-- `dealloc`, which also wakes `catcher`. -/
def dealloc (cpu ets : Int) (e : EspIntr) : EspIntr :=
  if BadEntry cpu ets then e else { setTable cpu ets (-1) e with catching := true }

/-- The raw word of a CPU with the given table. -/
def level (ledc : Bool) (table : Int → Int) : BitVec 32 :=
  if ledc = true ∧ table etsLedcIntrSource ≠ -1 then
    (1 : BitVec 32) <<< (table etsLedcIntrSource).toNat
  else 0

/-- A turn of `catcher`. -/
def catcher (e : EspIntr) : EspIntr :=
  let proLvl := level e.ledcIntrI e.tablePro
  let appLvl := level e.ledcIntrI e.tableApp
  { e with
    rawPro := e.rawPro.write proLvl
    intrPro := e.intrPro.write (e.maskPro.cur &&& proLvl)
    rawApp := e.rawApp.write appLvl
    intrApp := e.intrApp.write (e.maskPro.cur &&& appLvl)
    catching := false }

/-- A turn of `maskupdate`. -/
def maskupdate (e : EspIntr) : EspIntr :=
  { e with
    maskPro := e.maskPro.write
      (if e.setunset then e.maskPro.cur ||| e.newmask else e.maskPro.cur &&& ~~~e.newmask)
    maskApp := e.maskApp.write
      (if e.setunset then e.maskApp.cur ||| e.newmask else e.maskApp.cur &&& ~~~e.newmask)
    maskupdating := false }

/-- The end of a delta cycle, with the source at `ledc`. -/
def commit (ledc : Bool) (e : EspIntr) : EspIntr :=
  { e with
    ledcIntrI := ledc
    rawApp := e.rawApp.update
    rawPro := e.rawPro.update
    maskApp := e.maskApp.update
    maskPro := e.maskPro.update
    intrApp := e.intrApp.update
    intrPro := e.intrPro.update
    catching := decide
      (ledc ≠ e.ledcIntrI ∨ e.maskApp.next ≠ e.maskApp.cur ∨ e.maskPro.next ≠ e.maskPro.cur) }

/-- A process of the module is due. -/
def Busy (e : EspIntr) : Prop := e.maskupdating = true ∨ e.catching = true

instance (e : EspIntr) : Decidable e.Busy := inferInstanceAs (Decidable (_ ∨ _))

/-- Something that happens to the module. -/
inductive IntrEvent where
  | setintrmask (mask : BitVec 32) (cpu : Int)
  | clrintrmask (mask : BitVec 32) (cpu : Int)
  | alloc (cpu ets no : Int)
  | dealloc (cpu ets : Int)
  | maskupdate
  | catcher
  | delta (ledc : Bool)

/-- What it does: a process takes its turn when it is due, and a delta cycle ends when none is. -/
def step (e : EspIntr) : IntrEvent → EspIntr
  | .setintrmask mask cpu => e.setintrmask mask cpu
  | .clrintrmask mask cpu => e.clrintrmask mask cpu
  | .alloc cpu ets no => e.alloc cpu ets no
  | .dealloc cpu ets => e.dealloc cpu ets
  | .maskupdate => if e.maskupdating then e.maskupdate else e
  | .catcher => if e.catching then e.catcher else e
  | .delta ledc => if e.Busy then e else e.commit ledc

/-! ## §2 — what the masks should be -/

/-- A request to change the mask of a CPU. -/
structure Request where
  pro : Bool
  set : Bool
  mask : BitVec 32
deriving DecidableEq

/-- Bits are set, or cleared. -/
def Request.apply (m : BitVec 32) (r : Request) : BitVec 32 :=
  if r.set then m ||| r.mask else m &&& ~~~r.mask

/-- The request that an event is. -/
def requestOf : IntrEvent → List Request
  | .setintrmask mask cpu => [⟨decide (cpu = 0), true, mask⟩]
  | .clrintrmask mask cpu => [⟨decide (cpu = 0), false, mask⟩]
  | _ => []

/-- The requests of one CPU, in order, on its mask. -/
def ownFold (pro : Bool) (rs : List Request) (m : BitVec 32) : BitVec 32 :=
  (rs.filter fun r => r.pro == pro).foldl Request.apply m

/-- The last request alone, whoever it is for. -/
def lastOnly (rs : List Request) (m : BitVec 32) : BitVec 32 :=
  match rs.getLast? with
  | some r => r.apply m
  | none => m

/-- The module beside the requests of the delta cycle. -/
structure Asked where
  e : EspIntr
  batch : List Request

namespace Asked

def new (mask : BitVec 32) : Asked := ⟨.new mask, []⟩

def step (s : Asked) (ev : IntrEvent) : Asked where
  e := s.e.step ev
  batch :=
    match ev with
    | .delta _ => if s.e.Busy then s.batch else []
    | _ => s.batch ++ requestOf ev

/-- No process is due and no raw word, mask or masked word is about to change. -/
def Settled (e : EspIntr) : Prop :=
  ¬ e.Busy ∧ (e.maskPro.Quiet ∧ e.maskApp.Quiet) ∧ (e.rawPro.Quiet ∧ e.rawApp.Quiet) ∧
    e.intrPro.Quiet ∧ e.intrApp.Quiet

/-- **The masks are right**: when the delta cycle of the last request is over, each CPU's mask is the
fold of that CPU's requests; and in a settled state the masked words are the raw words under the
masks. -/
structure MasksRight (mask : BitVec 32) (h : List IntrEvent) (s : Asked) : Prop where
  pro : s.batch = [] → s.e.maskPro.cur = ownFold true (h.flatMap requestOf) mask
  app : s.batch = [] → s.e.maskApp.cur = ownFold false (h.flatMap requestOf) mask
  intrPro : Settled s.e → s.e.intrPro.cur = s.e.rawPro.cur &&& s.e.maskPro.cur
  intrApp : Settled s.e → s.e.intrApp.cur = s.e.rawApp.cur &&& s.e.maskApp.cur

/-- For both CPUs, the last request of the delta cycle, applied alone to the mask, gives what the
requests of the delta cycle for that CPU give. -/
def LastSuffices (s : Asked) : IntrEvent → Prop
  | .delta _ => ¬ s.e.Busy →
    ownFold true s.batch s.e.maskPro.cur = lastOnly s.batch s.e.maskPro.cur ∧
      ownFold false s.batch s.e.maskApp.cur = lastOnly s.batch s.e.maskApp.cur
  | _ => True

/-! ## §3 — the words under the masks -/

/-- The masks of the two CPUs are the same signal, and the masked words follow the raw words unless
`catcher` is due. -/
structure Wired (e : EspIntr) : Prop where
  masks : e.maskApp = e.maskPro
  intrPro : e.catching = false → e.intrPro.next = e.rawPro.next &&& e.maskPro.cur
  intrApp : e.catching = false → e.intrApp.next = e.rawApp.next &&& e.maskApp.cur

variable {e : EspIntr}

theorem wired_new (mask : BitVec 32) : Wired (EspIntr.new mask) where
  masks := rfl
  intrPro _ := (BitVec.zero_and).symm
  intrApp _ := (BitVec.zero_and).symm

theorem Wired.route (h : Wired e) (cpu ets no : Int) : Wired (setTable cpu ets no e) := by
  unfold setTable
  split
  · exact ⟨h.masks, h.intrPro, h.intrApp⟩
  · exact ⟨h.masks, h.intrPro, h.intrApp⟩

/-- The catcher masks both words alike. -/
theorem Wired.catcher (h : Wired e) : Wired e.catcher := by
  -- the masked word of the second CPU is made with the first one's mask, which is the same
  refine ⟨h.masks, fun _ => BitVec.and_comm _ _, fun _ => ?_⟩
  show e.maskPro.cur &&& _ = _ &&& e.maskApp.cur
  rw [h.masks]
  exact BitVec.and_comm _ _

/-- At the end of a delta cycle without the catcher, a mask that changes wakes it; with the masks as
they were, the masked words stay what they are. -/
theorem Wired.commit (h : Wired e) (hbusy : ¬ e.Busy) (ledc : Bool) : Wired (e.commit ledc) := by
  have hcatch : e.catching = false := Bool.eq_false_iff.mpr fun hc => hbusy (Or.inr hc)
  have hmasks : e.maskApp.update = e.maskPro.update := by rw [h.masks]
  refine ⟨hmasks, ?_, ?_⟩
  · intro hno
    -- the catcher is not woken, so that neither mask has changed
    have hsame := not_or.mp (not_or.mp (of_decide_eq_false hno)).2
    have hpro : e.maskPro.next = e.maskPro.cur := not_not.mp hsame.2
    show e.intrPro.next = e.rawPro.next &&& e.maskPro.next
    rw [hpro]
    exact h.intrPro hcatch
  · intro hno
    have hsame := not_or.mp (not_or.mp (of_decide_eq_false hno)).2
    have happ : e.maskApp.next = e.maskApp.cur := not_not.mp hsame.1
    show e.intrApp.next = e.rawApp.next &&& e.maskApp.next
    rw [happ]
    exact h.intrApp hcatch

/-- **One step**, whatever it is. -/
theorem Wired.step (h : Wired e) (ev : IntrEvent) : Wired (e.step ev) := by
  cases ev with
  | setintrmask mask cpu => exact ⟨h.masks, h.intrPro, h.intrApp⟩
  | clrintrmask mask cpu => exact ⟨h.masks, h.intrPro, h.intrApp⟩
  | alloc cpu ets no =>
    show Wired (if BadEntry cpu ets then e else setTable cpu ets no e)
    split
    · exact h
    · exact h.route cpu ets no
  | dealloc cpu ets =>
    show Wired (if BadEntry cpu ets then e else { setTable cpu ets (-1) e with catching := true })
    split
    · exact h
    · exact ⟨(h.route cpu ets (-1)).masks, Bool.noConfusion, Bool.noConfusion⟩
  | maskupdate =>
    show Wired (if e.maskupdating then e.maskupdate else e)
    split
    · refine ⟨?_, h.intrPro, h.intrApp⟩
      unfold EspIntr.maskupdate
      dsimp only
      rw [h.masks]
    · exact h
  | catcher =>
    show Wired (if e.catching then e.catcher else e)
    split
    · exact h.catcher
    · exact h
  | delta ledc =>
    show Wired (if e.Busy then e else e.commit ledc)
    split
    · exact h
    next hbusy => exact h.commit hbusy ledc

/-- In a settled state the masked words are the raw words under the masks. -/
theorem Wired.settled (h : Wired e) (hset : Settled e) :
    e.intrPro.cur = e.rawPro.cur &&& e.maskPro.cur ∧
      e.intrApp.cur = e.rawApp.cur &&& e.maskApp.cur := by
  obtain ⟨hbusy, _, ⟨hrawPro, hrawApp⟩, hintrPro, hintrApp⟩ := hset
  have hcatch : e.catching = false := Bool.eq_false_iff.mpr fun hc => hbusy (Or.inr hc)
  constructor
  · rw [← hintrPro, ← hrawPro]
    exact h.intrPro hcatch
  · rw [← hintrApp, ← hrawApp]
    exact h.intrApp hcatch

/-! ## §4 — the invariant -/

theorem ownFold_append (pro : Bool) (rs rs' : List Request) (m : BitVec 32) :
    ownFold pro (rs ++ rs') m = ownFold pro rs' (ownFold pro rs m) := by
  unfold ownFold
  rw [List.filter_append, List.foldl_append]

variable {mask : BitVec 32} {h : List IntrEvent} {s : Asked}

/-- Up to the present delta cycle the masks are the folds of the requests, and within it `maskupdate`
has applied the last one or is due to. -/
structure Asking (mask : BitVec 32) (h : List IntrEvent) (s : Asked) : Prop where
  wired : Wired s.e
  pro : ownFold true (h.flatMap requestOf) mask = ownFold true s.batch s.e.maskPro.cur
  app : ownFold false (h.flatMap requestOf) mask = ownFold false s.batch s.e.maskApp.cur
  last : ∀ r, s.batch.getLast? = some r → s.e.newmask = r.mask ∧ s.e.setunset = r.set
  applied : s.e.maskupdating = true ∨ s.e.maskPro.next = lastOnly s.batch s.e.maskPro.cur
  none : s.batch = [] → s.e.maskupdating = false

theorem asking_new (mask : BitVec 32) : Asking mask [] (new mask) where
  wired := wired_new mask
  pro := rfl
  app := rfl
  last := by
    rintro r ⟨⟩
  applied := Or.inr rfl
  none _ := rfl

theorem Asking.masksRight (hs : Asking mask h s) : MasksRight mask h s where
  pro hover := by
    rw [hs.pro, hover]
    rfl
  app hover := by
    rw [hs.app, hover]
    rfl
  intrPro hset := (hs.wired.settled hset).1
  intrApp hset := (hs.wired.settled hset).2

/-- A request is the last one of its delta cycle, and `maskupdate` is due. -/
theorem Asking.request (hs : Asking mask h s) {ev : IntrEvent} {r : Request}
    (hreq : requestOf ev = [r]) (hbatch : (s.step ev).batch = s.batch ++ [r])
    (he : s.e.step ev =
      { s.e with newmask := r.mask, setunset := r.set, procpu := r.pro, maskupdating := true }) :
    Asking mask (h ++ [ev]) (s.step ev) := by
  have hfold : (h ++ [ev]).flatMap requestOf = h.flatMap requestOf ++ [r] := by
    rw [List.flatMap_append, List.flatMap_singleton, hreq]
  have hse : (s.step ev).e = _ := he
  refine ⟨hs.wired.step ev, ?_, ?_, ?_, ?_, ?_⟩
  · rw [hfold, hbatch, ownFold_append, ownFold_append, hs.pro, hse]
  · rw [hfold, hbatch, ownFold_append, ownFold_append, hs.app, hse]
  · intro r' hr'
    rw [hbatch, List.getLast?_concat] at hr'
    cases hr'
    rw [hse]
    exact ⟨rfl, rfl⟩
  · rw [hse]
    exact Or.inl rfl
  · rw [hbatch]
    intro hnil
    exact absurd hnil (List.append_ne_nil_of_right_ne_nil _ (List.cons_ne_nil _ _))

theorem unasked (h : List IntrEvent) {ev : IntrEvent} (hreq : requestOf ev = []) :
    (h ++ [ev]).flatMap requestOf = h.flatMap requestOf := by
  rw [List.flatMap_append, List.flatMap_singleton, hreq, List.append_nil]

theorem maskupdate_unasked : requestOf .maskupdate = [] := rfl

theorem delta_unasked (ledc : Bool) : requestOf (.delta ledc) = [] := rfl

/-- A step that is no request and no delta cycle, and leaves the variables and the masks alone. -/
theorem Asking.frame (hs : Asking mask h s) (ev : IntrEvent) (hreq : requestOf ev = [])
    (hbatch : (s.step ev).batch = s.batch) (hpro : (s.e.step ev).maskPro = s.e.maskPro)
    (happ : (s.e.step ev).maskApp = s.e.maskApp) (hnew : (s.e.step ev).newmask = s.e.newmask)
    (hset : (s.e.step ev).setunset = s.e.setunset)
    (hup : (s.e.step ev).maskupdating = s.e.maskupdating) :
    Asking mask (h ++ [ev]) (s.step ev) := by
  have hfold := unasked h hreq
  have hse : (s.step ev).e = s.e.step ev := rfl
  refine ⟨hs.wired.step ev, ?_, ?_, ?_, ?_, ?_⟩ <;> rw [hbatch, hse]
  · rw [hfold, hpro]
    exact hs.pro
  · rw [hfold, happ]
    exact hs.app
  · rw [hnew, hset]
    exact hs.last
  · rw [hup, hpro]
    exact hs.applied
  · rw [hup]
    exact hs.none

theorem setTable_frame (cpu ets no : Int) (e : EspIntr) :
    ∃ p a, setTable cpu ets no e = { e with tablePro := p, tableApp := a } := by
  unfold setTable
  split
  · exact ⟨_, _, rfl⟩
  · exact ⟨_, _, rfl⟩

/-- `maskupdate` applies what the variables hold, the last request. -/
theorem Asking.stepMaskupdate (hs : Asking mask h s) :
    Asking mask (h ++ [IntrEvent.maskupdate]) (s.step .maskupdate) := by
  have hbatch : (s.step .maskupdate).batch = s.batch := List.append_nil _
  by_cases hdue : s.e.maskupdating = true
  · have hse : (s.step .maskupdate).e = s.e.maskupdate := if_pos hdue
    have hfold := unasked h maskupdate_unasked
    have hsome : ∃ r, s.batch.getLast? = some r := by
      cases hlast : s.batch.getLast? with
      | some r => exact ⟨r, rfl⟩
      | none =>
        have hno := hs.none (List.getLast?_eq_none_iff.mp hlast)
        rw [hno] at hdue
        exact absurd hdue Bool.false_ne_true
    obtain ⟨r, hr⟩ := hsome
    obtain ⟨hnew, hset⟩ := hs.last r hr
    refine ⟨hs.wired.step .maskupdate, ?_, ?_, ?_, Or.inr ?_, ?_⟩ <;> rw [hbatch, hse]
    · rw [hfold]
      exact hs.pro
    · rw [hfold]
      exact hs.app
    · exact hs.last
    · show (if s.e.setunset then s.e.maskPro.cur ||| s.e.newmask
        else s.e.maskPro.cur &&& ~~~s.e.newmask) = lastOnly s.batch s.e.maskPro.cur
      unfold lastOnly
      rw [hr, hnew, hset]
      rfl
    · exact fun _ => rfl
  · have hse : s.e.step .maskupdate = s.e := if_neg hdue
    apply hs.frame .maskupdate rfl hbatch <;> rw [hse]

/-- The last request becomes the mask of both CPUs. -/
theorem Asking.installed (hs : Asking mask h s) (hbusy : ¬ s.e.Busy) :
    s.e.maskPro.next = lastOnly s.batch s.e.maskPro.cur ∧
      s.e.maskApp.next = lastOnly s.batch s.e.maskApp.cur := by
  have hpro := hs.applied.resolve_left fun hup => hbusy (Or.inl hup)
  refine ⟨hpro, ?_⟩
  rw [hs.wired.masks]
  exact hpro

theorem Asking.stepDelta (hs : Asking mask h s) (ledc : Bool) (hok : LastSuffices s (.delta ledc)) :
    Asking mask (h ++ [IntrEvent.delta ledc]) (s.step (.delta ledc)) := by
  by_cases hbusy : s.e.Busy
  · have hse : s.e.step (.delta ledc) = s.e := if_pos hbusy
    have hbatch : (s.step (.delta ledc)).batch = s.batch := if_pos hbusy
    apply hs.frame (.delta ledc) rfl hbatch <;> rw [hse]
  · have hse : (s.step (.delta ledc)).e = s.e.commit ledc := if_neg hbusy
    have hbatch : (s.step (.delta ledc)).batch = [] := if_neg hbusy
    have hfold := unasked h (delta_unasked ledc)
    obtain ⟨hpro, happ⟩ := hs.installed hbusy
    obtain ⟨hokPro, hokApp⟩ := hok hbusy
    refine ⟨hs.wired.step (.delta ledc), ?_, ?_, ?_, Or.inr ?_, ?_⟩ <;> rw [hbatch, hse]
    · rw [hfold, hs.pro, hokPro, ← hpro]
      rfl
    · rw [hfold, hs.app, hokApp, ← happ]
      rfl
    · intro r hr
      cases hr
    · rfl
    · exact fun _ => Bool.eq_false_iff.mpr fun hup => hbusy (Or.inl hup)

/-- **One step** keeps the masks when the last request of a delta cycle is enough. -/
theorem Asking.step (hs : Asking mask h s) {ev : IntrEvent} (hok : LastSuffices s ev) :
    Asking mask (h ++ [ev]) (s.step ev) := by
  cases ev with
  | setintrmask mask cpu => exact hs.request rfl rfl rfl
  | clrintrmask mask cpu => exact hs.request rfl rfl rfl
  | alloc cpu ets no =>
    obtain ⟨p, a, hset⟩ := setTable_frame cpu ets no s.e
    have hse : ∃ p a, s.e.step (.alloc cpu ets no) = { s.e with tablePro := p, tableApp := a } := by
      show ∃ p a, (if BadEntry cpu ets then s.e else setTable cpu ets no s.e) = _
      split
      · exact ⟨s.e.tablePro, s.e.tableApp, rfl⟩
      · exact ⟨p, a, hset⟩
    obtain ⟨p, a, hse⟩ := hse
    apply hs.frame (.alloc cpu ets no) rfl (List.append_nil _) <;> rw [hse]
  | dealloc cpu ets =>
    obtain ⟨p, a, hset⟩ := setTable_frame cpu ets (-1) s.e
    have hse : ∃ p a c, s.e.step (.dealloc cpu ets) =
        { s.e with tablePro := p, tableApp := a, catching := c } := by
      show ∃ p a c, (if BadEntry cpu ets then s.e
        else { setTable cpu ets (-1) s.e with catching := true }) = _
      split
      · exact ⟨s.e.tablePro, s.e.tableApp, s.e.catching, rfl⟩
      · rw [hset]
        exact ⟨p, a, true, rfl⟩
    obtain ⟨p, a, c, hse⟩ := hse
    apply hs.frame (.dealloc cpu ets) rfl (List.append_nil _) <;> rw [hse]
  | maskupdate => exact hs.stepMaskupdate
  | catcher =>
    by_cases hdue : s.e.catching = true
    · have hse : s.e.step .catcher = s.e.catcher := if_pos hdue
      apply hs.frame .catcher rfl (List.append_nil _) <;> rw [hse] <;> rfl
    · have hse : s.e.step .catcher = s.e := if_neg hdue
      apply hs.frame .catcher rfl (List.append_nil _) <;> rw [hse]
  | delta ledc => exact hs.stepDelta ledc hok

/-- Another delta cycle leaves a mask that its requests did not ask for. -/
theorem Asking.misapplied (hs : Asking mask h s) (ledc : Bool)
    (hbad : ¬ LastSuffices s (.delta ledc)) :
    ¬ MasksRight mask (h ++ [IntrEvent.delta ledc]) (s.step (.delta ledc)) := by
  intro hright
  apply hbad
  intro hbusy
  have hse : (s.step (.delta ledc)).e = s.e.commit ledc := if_neg hbusy
  have hbatch : (s.step (.delta ledc)).batch = [] := if_neg hbusy
  have hfold := unasked h (delta_unasked ledc)
  obtain ⟨hpro, happ⟩ := hs.installed hbusy
  have hmaskPro := hright.pro hbatch
  have hmaskApp := hright.app hbatch
  rw [hse, hfold, hs.pro] at hmaskPro
  rw [hse, hfold, hs.app] at hmaskApp
  exact ⟨hmaskPro.symm.trans hpro, hmaskApp.symm.trans happ⟩

/-! ## §5 — runs -/

/-- **Interrupt masks.** In every run after initialization, with any requests, routes and levels, each
CPU's mask is the fold of that CPU's requests and the masked words follow, at every point, if and only
if in every delta cycle the last request alone gives both CPUs what their own requests ask for. -/
theorem masks_folded (mask : BitVec 32) (evs : List IntrEvent) :
    Always (MasksRight mask) Asked.step [] (new mask) evs ↔
      Throughout LastSuffices Asked.step (new mask) evs := by
  refine always_iff_of_invariant (I := Asking mask) ?_ ?_ ?_ evs [] _ (asking_new mask)
  · intro h s hs
    exact hs.masksRight
  · intro h s ev hs hok
    exact hs.step hok
  · intro h s ev hs hbad
    cases ev with
    | delta ledc => exact hs.misapplied ledc hbad
    | _ => exact absurd trivial hbad

/-- One request for the first CPU sets the bits of both; and of two requests in one delta cycle the
first is lost. -/
theorem masks_mixed :
    ¬ Always (MasksRight 0) Asked.step [] (new 0) [.setintrmask 4 0, .maskupdate, .delta false] ∧
    ¬ Always (MasksRight 0) Asked.step [] (new 0)
      [.setintrmask 4 0, .setintrmask 8 0, .maskupdate, .delta false] := by
  constructor
  · intro h
    have happ := h.last.app rfl
    revert happ
    decide
  · intro h
    have hpro := h.last.pro rfl
    revert hpro
    decide

end Asked

end EspIntr

end Espmod.Intr
