/-
# Espmod.Mux.Connection — the process of the analog multiplexers

`cd4067` and each channel of the `cd4097` run one process. It remembers the selected channel and the side
that drives, and waits for a change of the select lines, of the inhibit line, of `x` or of the selected
channel; after a change of the selection it waits a nanosecond more before it looks who drives. A step is
one delta cycle: the process goes on if its wait is over, the other writers write, and every signal is
updated.

What the process drives is right for the channel it remembers. It does not see a change of the select
lines during the nanosecond, and drops one that comes while it is inhibited or with the edge of the
inhibit line. And a value that it passes to a side where another driver holds the old one causes no event
(`connection_lost`). In every run without these, the settled states connect what is selected
(`mux_connected`).
-/
import Espmod.Lib.Run
import Espmod.Mux.Pin

namespace Espmod.Mux

open Espmod.Lib

/-! ## §1 — select lines -/

/-- The select lines of a multiplexer. -/
class SelectLines (σ : Type) where
  getSelector : σ → Nat

open SelectLines (getSelector)

/-- The select lines of `cd4067`. -/
structure Cd4067Lines where
  a : Bool
  b : Bool
  c : Bool
  d : Bool
  deriving DecidableEq

/-- `cd4067::get_selector`. -/
def Cd4067Lines.getSelector (l : Cd4067Lines) : Nat :=
  l.d.toNat <<< 3 ||| l.c.toNat <<< 2 ||| l.b.toNat <<< 1 ||| l.a.toNat

instance : SelectLines Cd4067Lines := ⟨Cd4067Lines.getSelector⟩

/-- The select lines of `cd4097_channel`. -/
structure Cd4097Lines where
  a : Bool
  b : Bool
  c : Bool
  deriving DecidableEq

/-- `cd4097_channel::get_selector`. -/
def Cd4097Lines.getSelector (l : Cd4097Lines) : Nat :=
  l.c.toNat <<< 2 ||| l.b.toNat <<< 1 ||| l.a.toNat

instance : SelectLines Cd4097Lines := ⟨Cd4097Lines.getSelector⟩

/-! ## §2 — the process -/

/-- The pins of a multiplexer and the variables of its process. -/
structure AnalogMux (σ : Type) where
  /-- `channel.size()` -/
  size : Nat
  lines : σ
  /-- one of the select lines has changed in the last delta cycle -/
  linesChanged : Bool
  inh : Bool
  inhChanged : Bool
  x : Pin
  channel : Nat → Pin
  sel : Nat
  channelIsDriver : Bool
  /-- in the wait of a nanosecond -/
  recheck : Bool

/-- What the process does when it goes on. -/
inductive Action where
  | nothing
  | shut
  | back
  | select
  | release
  | toX
  | toChannel
  | fight
  deriving DecidableEq, Repr

namespace AnalogMux

variable {σ : Type}

def writeX (v : GnMixed) (m : AnalogMux σ) : AnalogMux σ := { m with x := m.x.write v }

def writeChannel (i : Nat) (v : GnMixed) (m : AnalogMux σ) : AnalogMux σ :=
  { m with channel := Function.update m.channel i ((m.channel i).write v) }

/-- `if (sel < channel.size()) channel[sel]->write(GN_LOGIC_Z)`. -/
def releaseChannel (m : AnalogMux σ) : AnalogMux σ := if m.sel < m.size then m.writeChannel m.sel .z else m

/-- The selected channel. -/
def selected (m : AnalogMux σ) : Pin := m.channel m.sel

/-- Behind the nanosecond. -/
def delayed (m : AnalogMux σ) : Action :=
  if m.inh ∨ m.size ≤ m.sel then .nothing
  else if m.x.cur.same .z then .toX
  else if m.selected.cur.same .z then .toChannel
  else .fight

/-- Behind the wait for a change. -/
def woken (m : AnalogMux σ) : Action :=
  if m.inh then .shut
  else if m.inhChanged then .back
  else if m.linesChanged then .select
  else if m.size ≤ m.sel then .release
  else if m.x.cur.same m.selected.cur then .nothing
  else if m.selected.changed ∧ (m.channelIsDriver ∨ m.x.cur.same .z) then .toX
  else if m.x.changed ∧ (!m.channelIsDriver ∨ m.selected.cur.same .z) then .toChannel
  else .fight

def perform [SelectLines σ] (m : AnalogMux σ) : Action → AnalogMux σ
  | .nothing => m
  | .shut => { (m.writeX .z).releaseChannel with channelIsDriver := false }
  | .back => { m with recheck := true, channelIsDriver := false }
  | .select =>
    { m.releaseChannel.writeX .z with
      channelIsDriver := false
      sel := getSelector m.lines
      recheck := decide (getSelector m.lines < m.size) }
  | .release => { m.writeX .z with channelIsDriver := false }
  | .toX => { m.writeX m.selected.cur with channelIsDriver := true }
  | .toChannel => { m.writeChannel m.sel m.x.cur with channelIsDriver := false }
  | .fight => (m.writeChannel m.sel .x).writeX .x

/-- The wait for a change is over. -/
def wakes (m : AnalogMux σ) : Bool :=
  m.linesChanged || m.inhChanged || (decide (m.sel < m.size) && (m.selected.changed || m.x.changed))

/-- The process in one evaluation phase; `timer` says that the nanosecond is over. -/
def resume [SelectLines σ] (timer : Bool) (m : AnalogMux σ) : AnalogMux σ :=
  if m.recheck then if timer then { m with recheck := false }.perform m.delayed else m
  else if m.wakes then m.perform m.woken
  else m

/-- What the others write in one delta cycle. -/
structure Delta (σ : Type) where
  lines : σ
  inh : Bool
  x : Drivers
  channel : Nat → Drivers
  timer : Bool

/-- The update phase. -/
def update [DecidableEq σ] (d : Delta σ) (m : AnalogMux σ) : AnalogMux σ :=
  { m with
    lines := d.lines
    linesChanged := decide (d.lines ≠ m.lines)
    inh := d.inh
    inhChanged := decide (d.inh ≠ m.inh)
    x := m.x.update d.x
    channel := fun i => (m.channel i).update (d.channel i) }

/-- **One delta cycle.** -/
def step [SelectLines σ] [DecidableEq σ] (m : AnalogMux σ) (d : Delta σ) : AnalogMux σ := (m.resume d.timer).update d

/-- The process at its first wait, with signals as they are constructed. -/
def start [SelectLines σ] (size : Nat) (lines : σ) (inh : Bool) : AnalogMux σ where
  size := size
  lines := lines
  linesChanged := false
  inh := inh
  inhChanged := false
  x := ⟨.z, .x, false⟩
  channel := fun _ => ⟨.z, .x, false⟩
  sel := getSelector lines
  channelIsDriver := false
  recheck := false

/-! ## §3 — what is asked of it -/

/-- Nothing is left to do for the process. -/
def Settled (m : AnalogMux σ) : Prop := m.recheck = false ∧ m.wakes = false

/-- **In a settled state `x` and the selected channel read the same and every other channel is released**;
when inhibited, everything is. -/
def Connects [SelectLines σ] (m : AnalogMux σ) : Prop :=
  m.Settled →
    (m.inh = false → getSelector m.lines < m.size →
      m.x.cur.same (m.channel (getSelector m.lines)).cur = true ∧
        ∀ i < m.size, i ≠ getSelector m.lines → (m.channel i).driven = .z) ∧
    (m.inh = true → m.x.driven = .z ∧ ∀ i < m.size, (m.channel i).driven = .z)

/-- The others hold the pin at its value against `v`. -/
def Holds (o : Drivers) (v : GnMixed) (p : Pin) : Prop := ((p.write v).resolved o).same p.cur = true

/-- The pin shows an `X` that is written to it. -/
def Shows (o : Drivers) (p : Pin) : Prop := (p.write .x).resolved o = .x

/-- A change of the select lines is processed with the inhibit line low, and not with its edge or behind
the nanosecond's beginning. A value that is passed on is not held off, and an `X` shows. -/
def Clear (m : AnalogMux σ) (d : Delta σ) : Prop :=
  (m.linesChanged = true → m.recheck = false ∧ m.inh = false ∧ m.inhChanged = false) ∧
    if m.recheck then
      d.timer = true → m.delayed = .fight → Shows d.x m.x ∧ Shows (d.channel m.sel) m.selected
    else m.wakes = true →
      match m.woken with
      | .toX => ¬ Holds d.x m.selected.cur m.x
      | .toChannel => ¬ Holds (d.channel m.sel) m.x.cur m.selected
      | .fight => Shows d.x m.x ∧ Shows (d.channel m.sel) m.selected
      | _ => True

instance [SelectLines σ] (m : AnalogMux σ) : Decidable m.Connects :=
  inferInstanceAs (Decidable (_ ∧ _ → _))

instance (o : Drivers) (v : GnMixed) (p : Pin) : Decidable (Holds o v p) :=
  inferInstanceAs (Decidable (_ = _))

instance (o : Drivers) (p : Pin) : Decidable (Shows o p) := inferInstanceAs (Decidable (_ = _))

instance (m : AnalogMux σ) (d : Delta σ) : Decidable (Clear m d) := by
  unfold Clear
  refine @instDecidableAnd _ _ inferInstance ?_
  split
  · infer_instance
  · refine @instDecidableForall _ _ inferInstance ?_
    split <;> infer_instance

/-! ## §4 — one step -/

variable {m : AnalogMux σ} {d : Delta σ} {timer : Bool}

/-- What the process leaves alone: everything but what it drives and its own variables. -/
structure Frame (m n : AnalogMux σ) : Prop where
  size : n.size = m.size
  lines : n.lines = m.lines
  inh : n.inh = m.inh
  x : n.x.cur = m.x.cur
  channel : ∀ i, (n.channel i).cur = (m.channel i).cur

theorem Frame.refl (m : AnalogMux σ) : Frame m m := ⟨rfl, rfl, rfl, rfl, fun _ => rfl⟩

theorem writeChannel_cur (i j : Nat) (v : GnMixed) : ((m.writeChannel i v).channel j).cur = (m.channel j).cur := by
  unfold writeChannel
  dsimp only
  by_cases hij : j = i
  · subst hij
    rw [Function.update_self, Pin.write_cur]
  · rw [Function.update_of_ne hij]

theorem writeChannel_self (i : Nat) (v : GnMixed) : (m.writeChannel i v).channel i = (m.channel i).write v :=
  Function.update_self ..

theorem writeChannel_of_ne {i j : Nat} (hij : j ≠ i) (v : GnMixed) :
    (m.writeChannel i v).channel j = m.channel j := Function.update_of_ne hij ..

theorem releaseChannel_frame (m : AnalogMux σ) : Frame m m.releaseChannel := by
  unfold releaseChannel
  split
  · exact ⟨rfl, rfl, rfl, rfl, fun i => writeChannel_cur m.sel i .z⟩
  · exact .refl m

theorem perform_frame [SelectLines σ] (m : AnalogMux σ) (a : Action) : Frame m (m.perform a) := by
  cases a with
  | nothing => exact .refl m
  | shut =>
    have hrel := (m.writeX .z).releaseChannel_frame
    exact ⟨hrel.size, hrel.lines, hrel.inh, hrel.x.trans (Pin.write_cur _ _), hrel.channel⟩
  | back => exact ⟨rfl, rfl, rfl, rfl, fun _ => rfl⟩
  | select =>
    have hrel := m.releaseChannel_frame
    exact ⟨hrel.size, hrel.lines, hrel.inh, (Pin.write_cur _ _).trans hrel.x, hrel.channel⟩
  | release => exact ⟨rfl, rfl, rfl, Pin.write_cur _ _, fun _ => rfl⟩
  | toX => exact ⟨rfl, rfl, rfl, Pin.write_cur _ _, fun _ => rfl⟩
  | toChannel => exact ⟨rfl, rfl, rfl, rfl, fun i => writeChannel_cur m.sel i _⟩
  | fight => exact ⟨rfl, rfl, rfl, Pin.write_cur _ _, fun i => writeChannel_cur m.sel i _⟩

theorem resume_frame [SelectLines σ] (timer : Bool) (m : AnalogMux σ) : Frame m (m.resume timer) := by
  unfold resume
  split
  · split
    · have h := perform_frame { m with recheck := false } m.delayed
      exact ⟨h.size, h.lines, h.inh, h.x, h.channel⟩
    · exact .refl m
  · split
    · exact m.perform_frame _
    · exact .refl m

/-- The actions behind the wait for a change, with what is known there. -/
theorem woken_cases (m : AnalogMux σ) :
    (m.inh = true ∧ m.woken = .shut) ∨ m.inh = false ∧
      ((m.inhChanged = true ∧ m.woken = .back) ∨ m.inhChanged = false ∧
        ((m.linesChanged = true ∧ m.woken = .select) ∨ m.linesChanged = false ∧
          ((m.size ≤ m.sel ∧ m.woken = .release) ∨ m.sel < m.size ∧
            ((m.x.cur.same m.selected.cur = true ∧ m.woken = .nothing) ∨
              ¬ m.x.cur.same m.selected.cur = true ∧
                (m.woken = .toX ∨ m.woken = .toChannel ∨ m.woken = .fight))))) := by
  unfold woken
  split_ifs with hinh hback hsel hsize hsame htox htoch
  · exact Or.inl ⟨hinh, rfl⟩
  · exact Or.inr ⟨by simpa using hinh, Or.inl ⟨hback, rfl⟩⟩
  · exact Or.inr ⟨by simpa using hinh, Or.inr ⟨by simpa using hback, Or.inl ⟨hsel, rfl⟩⟩⟩
  · exact Or.inr ⟨by simpa using hinh, Or.inr ⟨by simpa using hback, Or.inr ⟨by simpa using hsel,
      Or.inl ⟨hsize, rfl⟩⟩⟩⟩
  all_goals
    refine Or.inr ⟨by simpa using hinh, Or.inr ⟨by simpa using hback, Or.inr ⟨by simpa using hsel,
      Or.inr ⟨Nat.not_le.mp hsize, ?_⟩⟩⟩⟩
  · exact Or.inl ⟨hsame, rfl⟩
  · exact Or.inr ⟨hsame, Or.inl rfl⟩
  · exact Or.inr ⟨hsame, Or.inr (Or.inl rfl)⟩
  · exact Or.inr ⟨hsame, Or.inr (Or.inr rfl)⟩

/-- The actions behind the nanosecond. -/
theorem delayed_cases (m : AnalogMux σ) :
    ((m.inh = true ∨ m.size ≤ m.sel) ∧ m.delayed = .nothing) ∨
      m.inh = false ∧ m.sel < m.size ∧
        ((m.x.cur = .z ∧ m.delayed = .toX) ∨
          (m.x.cur ≠ .z ∧ m.selected.cur = .z ∧ m.delayed = .toChannel) ∨ m.delayed = .fight) := by
  unfold delayed
  split_ifs with hoff hx hc
  · exact Or.inl ⟨hoff, rfl⟩
  all_goals
    rw [not_or, Bool.not_eq_true, Nat.not_le] at hoff
    refine Or.inr ⟨hoff.1, hoff.2, ?_⟩
  · exact Or.inl ⟨GnMixed.same_z.mp hx, rfl⟩
  · exact Or.inr (Or.inl ⟨fun h => hx (GnMixed.same_z.mpr h), GnMixed.same_z.mp hc, rfl⟩)
  · exact Or.inr (Or.inr rfl)

/-- Only `x` and the remembered channel are driven, and they are not while the process waits for the
nanosecond, remembers no channel, or has been inhibited. -/
structure Drives (m : AnalogMux σ) (shut : Bool) : Prop where
  others : ∀ i, i ≠ m.sel → (m.channel i).driven = .z
  off : m.recheck = true ∨ m.size ≤ m.sel ∨ shut = true → m.x.driven = .z ∧ m.selected.driven = .z

/-- An action that connects the two sides. -/
theorem pass_drives [SelectLines σ] {shut : Bool} (hothers : ∀ i, i ≠ m.sel → (m.channel i).driven = .z)
    (hrecheck : m.recheck = false) (hsel : m.sel < m.size) (hshut : shut = false) {a : Action}
    (ha : a = .toX ∨ a = .toChannel ∨ a = .fight) : Drives (m.perform a) shut := by
  have hvac : ¬ (m.recheck = true ∨ m.size ≤ m.sel ∨ shut = true) := by
    rw [hrecheck, hshut]
    rintro (h | h | h)
    · exact nomatch h
    · omega
    · exact nomatch h
  rcases ha with rfl | rfl | rfl
  · exact ⟨hothers, fun hoff => absurd hoff hvac⟩
  · exact ⟨fun i hi => (congrArg Pin.driven (writeChannel_of_ne hi _)).trans (hothers i hi),
      fun hoff => absurd hoff hvac⟩
  · exact ⟨fun i hi => (congrArg Pin.driven (writeChannel_of_ne hi _)).trans (hothers i hi),
      fun hoff => absurd hoff hvac⟩

theorem writeX_releaseChannel (v : GnMixed) :
    (m.writeX v).releaseChannel = m.releaseChannel.writeX v := by
  unfold releaseChannel
  by_cases hsel : m.sel < m.size
  · rw [if_pos hsel, if_pos (by exact hsel)]
    rfl
  · rw [if_neg hsel, if_neg (by exact hsel)]

/-- With the remembered channel released none is driven. -/
theorem releaseChannel_released {shut : Bool} (h : Drives m shut) (i : Nat) :
    (m.releaseChannel.channel i).driven = .z := by
  unfold releaseChannel
  split
  · by_cases hi : i = m.sel
    · rw [hi, writeChannel_self, Pin.write_z]
    · rw [writeChannel_of_ne hi, h.others i hi]
  · next hsel =>
    by_cases hi : i = m.sel
    · rw [hi]
      exact (h.off (Or.inr (Or.inl (Nat.not_lt.mp hsel)))).2
    · exact h.others i hi

/-- **What the process drives after one evaluation phase.** -/
theorem resume_drives [SelectLines σ] (h : Drives m (m.inh != m.inhChanged)) (timer : Bool) :
    Drives (m.resume timer) m.inh := by
  unfold resume
  split
  · next hrecheck =>
    have hoff := h.off (Or.inl hrecheck)
    split
    · rcases m.delayed_cases with ⟨-, hact⟩ | ⟨hinh, hsel, hact⟩
      · rw [hact]
        exact ⟨h.others, fun _ => hoff⟩
      · have hpass (a : Action) (ha : a = .toX ∨ a = .toChannel ∨ a = .fight) :
            Drives ({ m with recheck := false }.perform a) m.inh :=
          pass_drives (m := { m with recheck := false }) h.others rfl hsel hinh ha
        rcases hact with ⟨-, hact⟩ | ⟨-, -, hact⟩ | hact
        · exact hpass _ (Or.inl hact)
        · exact hpass _ (Or.inr (Or.inl hact))
        · exact hpass _ (Or.inr (Or.inr hact))
    · exact ⟨h.others, fun _ => hoff⟩
  · next hrecheck =>
    have hrecheck : m.recheck = false := Bool.eq_false_iff.mpr hrecheck
    have hrel := releaseChannel_released h
    split
    · rcases m.woken_cases with ⟨-, hact⟩ | ⟨hinh, ⟨hback, hact⟩ | ⟨hback, ⟨-, hact⟩ | ⟨-, hrest⟩⟩⟩
      · rw [hact]
        unfold perform
        rw [writeX_releaseChannel]
        exact ⟨fun i _ => hrel i, fun _ => ⟨Pin.write_z _, hrel _⟩⟩
      · -- the line was high before, so nothing is driven
        rw [hact]
        have hoff := h.off (Or.inr (Or.inr (by rw [hinh, hback]; rfl)))
        exact ⟨h.others, fun _ => hoff⟩
      · rw [hact]
        exact ⟨fun i _ => hrel i, fun _ => ⟨Pin.write_z _, hrel _⟩⟩
      · rcases hrest with ⟨hsize, hact⟩ | ⟨hsel, ⟨-, hact⟩ | ⟨-, hact⟩⟩
        · rw [hact]
          exact ⟨h.others, fun _ => ⟨Pin.write_z _, (h.off (Or.inr (Or.inl hsize))).2⟩⟩
        · rw [hact]
          refine ⟨h.others, fun hoff => h.off ?_⟩
          rw [hinh, hback]
          rw [hinh] at hoff
          exact hoff
        · exact pass_drives h.others hrecheck hsel hinh hact
    · next hsleep =>
      unfold wakes at hsleep
      simp only [Bool.or_eq_true, not_or, Bool.not_eq_true] at hsleep
      refine ⟨h.others, fun hoff => h.off ?_⟩
      rw [hsleep.1.2, Bool.bne_false]
      exact hoff

/-! ## §5 — runs -/

/-- **What holds in every state of a run**: what is driven, the remembered channel, and that two sides
that read different values have an event to come. -/
structure Sound [SelectLines σ] (m : AnalogMux σ) : Prop where
  drives : Drives m (m.inh != m.inhChanged)
  tracks : m.linesChanged = false → m.sel = getSelector m.lines
  meets : m.recheck = false → m.wakes = false → m.inh = false → m.sel < m.size →
    m.x.cur.same m.selected.cur = true

theorem sound_start [SelectLines σ] (size : Nat) (lines : σ) (inh : Bool) :
    Sound (start size lines inh) where
  drives := ⟨fun _ _ => rfl, fun _ => ⟨rfl, rfl⟩⟩
  tracks _ := rfl
  meets _ _ _ _ := rfl

theorem perform_sel [SelectLines σ] {a : Action} (ha : a ≠ .select) : (m.perform a).sel = m.sel := by
  cases a with
  | select => exact absurd rfl ha
  | shut =>
    show (m.writeX .z).releaseChannel.sel = m.sel
    unfold releaseChannel
    split <;> rfl
  | _ => rfl

theorem delayed_sel [SelectLines σ] :
    (({ m with recheck := false } : AnalogMux σ).perform m.delayed).sel = m.sel := by
  have hact : m.delayed ≠ .select := by
    unfold delayed
    split_ifs <;> simp
  exact perform_sel hact

/-- The remembered channel after one evaluation phase. -/
theorem resume_tracks [SelectLines σ] (h : Sound m)
    (hclear : m.linesChanged = true → m.recheck = false ∧ m.inh = false ∧ m.inhChanged = false)
    (timer : Bool) : (m.resume timer).sel = getSelector m.lines := by
  by_cases hlines : m.linesChanged = true
  · obtain ⟨hrecheck, hinh, hback⟩ := hclear hlines
    have hact : m.woken = .select := by
      unfold woken
      rw [hinh, hback, hlines]
      rfl
    unfold resume wakes
    rw [hrecheck, hlines, hact]
    rfl
  · have hlines : m.linesChanged = false := Bool.eq_false_iff.mpr hlines
    have hsel := h.tracks hlines
    have hwoken : m.woken ≠ .select := by
      unfold woken
      rw [hlines]
      split_ifs <;> simp_all
    unfold resume
    split
    · split
      · rw [delayed_sel]
        exact hsel
      · exact hsel
    · split
      · rw [perform_sel hwoken]
        exact hsel
      · exact hsel

/-- The two sides have not changed in the update behind an evaluation phase. -/
structure Quiet (m : AnalogMux σ) (d : Delta σ) : Prop where
  x : (m.x.update d.x).changed = false
  selected : (m.selected.update (d.channel m.sel)).changed = false

/-- A pin that shows an `X` and does not change is at `X`. -/
theorem cur_x {o : Drivers} {p : Pin} (hshow : Shows o p) (h : ((p.write .x).update o).changed = false) :
    p.cur = .x := by
  have hsame := (Pin.unchanged h).2
  rw [hshow, Pin.write_cur] at hsame
  exact GnMixed.x_same.mp hsame

/-- Two drivers: both sides go to `X`. -/
theorem fight_meets [SelectLines σ] (hshow : Shows d.x m.x ∧ Shows (d.channel m.sel) m.selected)
    (hquiet : Quiet (m.perform .fight) d) : m.x.cur.same m.selected.cur = true := by
  have hc : (((m.writeChannel m.sel .x).channel m.sel).update (d.channel m.sel)).changed = false :=
    hquiet.selected
  rw [writeChannel_self] at hc
  rw [cur_x hshow.1 hquiet.x, cur_x hshow.2 hc]
  rfl

/-- A value is passed to the channel. -/
theorem toChannel_same [SelectLines σ] (hquiet : Quiet (m.perform .toChannel) d) :
    Holds (d.channel m.sel) m.x.cur m.selected := by
  have hc : (((m.writeChannel m.sel m.x.cur).channel m.sel).update (d.channel m.sel)).changed = false :=
    hquiet.selected
  rw [writeChannel_self] at hc
  have hsame := (Pin.unchanged hc).2
  rw [Pin.write_cur] at hsame
  exact hsame

/-- A value is passed to `x`. -/
theorem toX_same [SelectLines σ] (hquiet : Quiet (m.perform .toX) d) : Holds d.x m.selected.cur m.x := by
  have hsame := (Pin.unchanged hquiet.x).2
  have hcur : (m.perform .toX).x.cur = m.x.cur := Pin.write_cur _ _
  rw [hcur] at hsame
  exact hsame

/-- Behind the nanosecond the two sides meet, or one of them changes. -/
theorem delayed_meets [SelectLines σ] (h : m.x.driven = .z ∧ m.selected.driven = .z) (hinh : m.inh = false)
    (hsel : m.sel < m.size) (hclear : m.delayed = .fight → Shows d.x m.x ∧ Shows (d.channel m.sel) m.selected)
    (hquiet : Quiet (m.perform m.delayed) d) : m.x.cur.same m.selected.cur = true := by
  rcases m.delayed_cases with ⟨hoff, -⟩ | ⟨-, -, ⟨hz, hact⟩ | ⟨hne, hz, hact⟩ | hact⟩
  · rcases hoff with hoff | hoff
    · exact nomatch hinh.symm.trans hoff
    · omega
  · rw [hact] at hquiet
    have hsame := toX_same hquiet
    unfold Holds at hsame
    rw [hz] at hsame
    rw [hz, Pin.written_z h.1 hsame]
    rfl
  · rw [hact] at hquiet
    have hsame := toChannel_same hquiet
    unfold Holds at hsame
    rw [hz] at hsame
    exact absurd (Pin.written_z h.2 hsame) hne
  · rw [hact] at hquiet
    exact fight_meets (hclear hact) hquiet

/-- Behind a change they do, unless the step is not clear. -/
theorem woken_meets [SelectLines σ] (hclear : match m.woken with
      | .toX => ¬ Holds d.x m.selected.cur m.x
      | .toChannel => ¬ Holds (d.channel m.sel) m.x.cur m.selected
      | .fight => Shows d.x m.x ∧ Shows (d.channel m.sel) m.selected
      | _ => True)
    (hinh : m.inh = false) (hrecheck : (m.perform m.woken).recheck = false)
    (hsel : (m.perform m.woken).sel < m.size) (hquiet : Quiet (m.perform m.woken) d) :
    m.x.cur.same (m.channel (m.perform m.woken).sel).cur = true := by
  rcases m.woken_cases with ⟨hshut, -⟩ | ⟨-, ⟨-, hact⟩ | ⟨-, ⟨-, hact⟩ | ⟨-, hrest⟩⟩⟩
  · exact nomatch hinh.symm.trans hshut
  · rw [hact] at hrecheck
    exact nomatch hrecheck
  · rw [hact] at hrecheck hsel
    exact absurd hsel (of_decide_eq_false hrecheck)
  · rcases hrest with ⟨hsize, hact⟩ | ⟨-, ⟨hsame, hact⟩ | ⟨-, hact | hact | hact⟩⟩
    · rw [hact] at hsel
      exact absurd hsel (Nat.not_lt.mpr hsize)
    · rw [hact]
      exact hsame
    · rw [hact] at hquiet hclear
      exact absurd (toX_same hquiet) hclear
    · rw [hact] at hquiet hclear
      exact absurd (toChannel_same hquiet) hclear
    · rw [hact] at hquiet hclear ⊢
      exact fight_meets hclear hquiet

theorem resume_meets [SelectLines σ] (h : Sound m) (hclear : Clear m d) (hinh : m.inh = false)
    (hrecheck : (m.resume d.timer).recheck = false)
    (hsel : (m.resume d.timer).sel < (m.resume d.timer).size) (hquiet : Quiet (m.resume d.timer) d) :
    m.x.cur.same (m.channel (m.resume d.timer).sel).cur = true := by
  obtain ⟨-, hclear⟩ := hclear
  rw [(m.resume_frame d.timer).size] at hsel
  unfold resume at hrecheck hsel hquiet ⊢
  split at hclear
  · next hre =>
    rw [if_pos hre] at hrecheck hsel hquiet ⊢
    split at hrecheck
    · next htimer =>
      rw [if_pos htimer] at hsel hquiet ⊢
      rw [delayed_sel] at hsel ⊢
      exact delayed_meets (m := { m with recheck := false }) (h.drives.off (Or.inl hre)) hinh hsel
        (hclear htimer) hquiet
    · exact nomatch hre.symm.trans hrecheck
  · next hre =>
    rw [if_neg hre] at hrecheck hsel hquiet ⊢
    split at hrecheck
    · next hwakes =>
      rw [if_pos hwakes] at hsel hquiet ⊢
      exact woken_meets (hclear hwakes) hinh hrecheck hsel hquiet
    · next hwakes =>
      rw [if_neg hwakes] at hsel ⊢
      exact h.meets hrecheck (Bool.eq_false_iff.mpr hwakes) hinh hsel

/-- **One delta cycle.** -/
theorem Sound.step [SelectLines σ] [DecidableEq σ] (h : Sound m) (hclear : Clear m d) :
    Sound (m.step d) := by
  have hframe := m.resume_frame d.timer
  have hdrives := resume_drives h.drives d.timer
  have htracks := resume_tracks h hclear.1 d.timer
  refine ⟨⟨fun i hi => ?_, fun hoff => ?_⟩, fun hlines => ?_, fun hrecheck hsleep hinh hsel => ?_⟩
  · exact (Pin.update_driven _ _).trans (hdrives.others i hi)
  · have hoff' : (m.resume d.timer).recheck = true ∨ (m.resume d.timer).size ≤ (m.resume d.timer).sel ∨
        m.inh = true := by
      rcases hoff with hoff | hoff | hoff
      · exact Or.inl hoff
      · exact Or.inr (Or.inl hoff)
      · refine Or.inr (Or.inr ?_)
        have hedge : (d.inh != decide (d.inh ≠ (m.resume d.timer).inh)) = true := hoff
        rw [hframe.inh] at hedge
        revert hedge
        cases d.inh <;> cases m.inh <;> decide
    obtain ⟨hx, hc⟩ := hdrives.off hoff'
    exact ⟨(Pin.update_driven _ _).trans hx, (Pin.update_driven _ _).trans hc⟩
  · have hsame : d.lines = (m.resume d.timer).lines := not_not.mp (of_decide_eq_false hlines)
    show (m.resume d.timer).sel = getSelector d.lines
    rw [htracks, hsame, hframe.lines]
  · have hrecheck : (m.resume d.timer).recheck = false := hrecheck
    have hsel : (m.resume d.timer).sel < (m.resume d.timer).size := hsel
    unfold wakes at hsleep
    simp only [Bool.or_eq_false_iff, Bool.and_eq_false_iff, decide_eq_false_iff_not] at hsleep
    obtain ⟨⟨-, hedge⟩, hsides⟩ := hsleep
    have hedge : d.inh = (m.resume d.timer).inh := not_not.mp (of_decide_eq_false hedge)
    have hquiet : Quiet (m.resume d.timer) d := by
      rcases hsides with hnot | ⟨hc, hx⟩
      · exact absurd hsel hnot
      · exact ⟨hx, hc⟩
    have hinh : m.inh = false := by
      rw [← hframe.inh, ← hedge]
      exact hinh
    show ((m.resume d.timer).x.update d.x).cur.same
      ((m.resume d.timer).selected.update (d.channel (m.resume d.timer).sel)).cur = true
    rw [(Pin.unchanged hquiet.x).1, (Pin.unchanged hquiet.selected).1, hframe.x,
      show (m.resume d.timer).selected.cur = _ from hframe.channel _]
    exact resume_meets h hclear hinh hrecheck hsel hquiet

/-- What the claim about settled states takes from the invariant. -/
theorem Sound.connects [SelectLines σ] (h : Sound m) : m.Connects := by
  rintro ⟨hrecheck, hsleep⟩
  have hwakes := hsleep
  unfold wakes at hsleep
  simp only [Bool.or_eq_false_iff, Bool.and_eq_false_iff, decide_eq_false_iff_not] at hsleep
  obtain ⟨⟨hlines, hedge⟩, -⟩ := hsleep
  have hsel := h.tracks hlines
  refine ⟨fun hinh hlt => ⟨?_, fun i _ hi => h.drives.others i (by rw [hsel]; exact hi)⟩, fun hinh => ?_⟩
  · rw [← hsel] at hlt ⊢
    exact h.meets hrecheck hwakes hinh hlt
  · have hoff := h.drives.off (Or.inr (Or.inr (by rw [hinh, hedge]; rfl)))
    refine ⟨hoff.1, fun i _ => ?_⟩
    by_cases hi : i = m.sel
    · rw [hi]
      exact hoff.2
    · exact h.drives.others i hi

theorem run_connects [SelectLines σ] [DecidableEq σ] (size : Nat) (lines : σ) (inh : Bool)
    (ds : List (Delta σ)) (hclear : Throughout Clear step (start size lines inh) ds) :
    Always (fun _ => Connects) step [] (start size lines inh) ds :=
  always_of_throughout (I := fun _ => Sound) (fun _ _ h => h.connects) (fun _ _ _ h hc => h.step hc) ds []
    _ (sound_start size lines inh) hclear

/-- **Both multiplexers connect what is selected in every settled state of a clear run.** -/
theorem mux_connected (size : Nat) (inh : Bool) :
    (∀ (lines : Cd4067Lines) (ds : List (Delta Cd4067Lines)),
      Throughout Clear step (start size lines inh) ds →
        Always (fun _ => Connects) step [] (start size lines inh) ds) ∧
    ∀ (lines : Cd4097Lines) (ds : List (Delta Cd4097Lines)),
      Throughout Clear step (start size lines inh) ds →
        Always (fun _ => Connects) step [] (start size lines inh) ds :=
  ⟨fun lines ds => run_connects size lines inh ds, fun lines ds => run_connects size lines inh ds⟩

/-- A delta cycle of a `cd4067` with the select line `a` at a level and the others low, and these other
drivers of `x` and of the channels 0 and 1, in the order of their writes behind the multiplexer's. -/
def bench (a inh timer : Bool) (x channel0 channel1 : List GnMixed) : Delta Cd4067Lines where
  lines := ⟨a, false, false, false⟩
  inh := inh
  x := ⟨[], x⟩
  channel := fun i => ⟨[], if i = 0 then channel0 else channel1⟩
  timer := timer

def afterBench (ds : List (Delta Cd4067Lines)) : AnalogMux Cd4067Lines :=
  ds.foldl step (start 2 ⟨false, false, false, false⟩ false)

/-- Channel 1 is selected while channel 0 is connected and low, and is high itself. -/
theorem mux_connected_next :
    (afterBench [bench false false false [] [.zero] [.one], bench false false false [] [.zero] [.one],
      bench true false false [] [.zero] [.one], bench true false false [] [.zero] [.one],
      bench true false true [] [.zero] [.one], bench true false false [] [.zero] [.one]]).Connects :=
  ((mux_connected 2 false).1 ⟨false, false, false, false⟩
    [bench false false false [] [.zero] [.one], bench false false false [] [.zero] [.one],
      bench true false false [] [.zero] [.one], bench true false false [] [.zero] [.one],
      bench true false true [] [.zero] [.one], bench true false false [] [.zero] [.one]]
    (by decide +kernel)).last

/-- Channel 1 is selected while the multiplexer is inhibited: it goes on with channel 0. And channel 0
drives `x` high, another writer of `x` drives it high too, and channel 0 is released: it stays released,
with `x` high. -/
theorem connection_lost :
    ¬ (afterBench [bench false false false [] [] [.one], bench false true false [] [] [.one],
        bench true true false [] [] [.one], bench true true false [] [] [.one],
        bench true false false [] [] [.one], bench true false false [] [] [.one],
        bench true false true [] [] [.one], bench true false false [] [] [.one]]).Connects ∧
      ¬ (afterBench [bench false false false [] [.one] [], bench false false false [] [.one] [],
        bench false false false [] [.one] [], bench false false false [.one] [.one] [],
        bench false false false [.one] [] [], bench false false false [.one] [] [],
        bench false false false [.one] [] []]).Connects := by
  constructor <;> decide +kernel

end AnalogMux

end Espmod.Mux
