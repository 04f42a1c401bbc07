/-
# Espmod.Spi.Bounds — transfers that end and stay in bounds

A transfer should take as many clock cycles as its longer phase has bits and delay cycles, access only
the sixteen words of `data_buf`, and leave a phase alone once it is over. But a phase that is over
begins again unless its last position is -1, so all phases must be over in the same cycle; the delay
cycles are not added to a phase, they take away its first bits; a big-endian phase begins over; the
cursor does not find the end of a phase of several bytes with the most significant bit first; and with
the MOSI phase off `lastbit` has the value of an earlier command. `Sound` says which settings meet none
of this.
-/
import Espmod.Spi.Module

namespace Espmod.Spi

open Espmod.Pcnt (Field rdfield)

/-- The index of a position is one of `data_buf`. -/
def InBuf (bit : BitVec 32) : Prop := 0 ≤ indexOf bit ∧ indexOf bit ≤ 15

instance (bit : BitVec 32) : Decidable (InBuf bit) := inferInstanceAs (Decidable (_ ∧ _))

/-- A phase ends with the transfer and stays in the buffer. -/
def Runs (pos : Nat → BitVec 32) (delay n : Nat) : Prop :=
  Settles pos n ∧ ∀ i < n, delay - i = 0 → pos i ≠ -1 → InBuf (pos i)

/-- What a phase of a transfer of `n` cycles must be for the code: in little-endian order as long as
the transfer, within the buffer, and with the most significant bit first of one byte at most; in
big-endian order such that it ends where it begins. -/
def PhaseSound (n : Nat) (highpart littleendian msbfirst : Bool) (dlen : Nat) : Prop :=
  if littleendian then n = dlen + 1 ∧ base highpart + dlen < 512 ∧ (msbfirst = true → dlen ≤ 7)
  else dlen / 8 % 4 = 0

instance (n : Nat) (highpart littleendian msbfirst : Bool) (dlen : Nat) :
    Decidable (PhaseSound n highpart littleendian msbfirst dlen) := by
  unfold PhaseSound
  infer_instance

/-! ## §1 — phases -/

variable {last : BitVec 32} {le msb high : Bool} {dlen delay n : Nat}

theorem inBuf_ofNat {p : Nat} (h : p < 2 ^ 31) : InBuf (BitVec.ofNat 32 p) ↔ p < 512 := by
  unfold InBuf
  rw [indexOf_ofNat h]
  omega

/-- A phase that begins over accesses nothing while it is. -/
theorem runs_over (hn : 0 < n) : Runs (posAt (-1) last le msb) delay n ↔ last = -1 := by
  constructor
  · exact fun h => (settles_over hn).mp h.1
  · rintro rfl
    exact ⟨(settles_over hn).mpr rfl, fun i _ _ hon => absurd (posAt_over i) hon⟩

/-- **One phase** of a transfer that takes at least as long as its bits and its delay. -/
theorem runs_phase (hlen : dlen < 512) (hle : dlen + 1 + delay ≤ n) (hn : n < 1000) :
    Runs (phase high le msb dlen) delay n ↔ PhaseSound n high le msb dlen := by
  have hbase := base_cases high
  cases le with
  | false =>
    unfold phase
    rw [start_big, runs_over (by omega), last_big high msb hlen]
    rfl
  | true =>
    have hsettles : Settles (phase high true msb dlen) n ↔ _ :=
      settles_little hlen (by omega) hn
    constructor
    · rintro ⟨hset, hin⟩
      obtain ⟨hlong, hshort⟩ := hsettles.mp hset
      refine ⟨hlong, ?_, hshort⟩
      cases msb with
      | false =>
        -- the last bit of the phase is the one that may leave the buffer
        have hlastpos := (phase_short high hlen hshort).1 dlen (Nat.le_refl dlen)
        have hinlast := hin dlen (by omega) (by omega)
        rw [hlastpos] at hinlast
        exact (inBuf_ofNat (show base high + dlen < _ by omega)).mp
          (hinlast (ofNat_ne_over (show base high + dlen < _ by omega)))
      | true =>
        have hshort := hshort rfl
        omega
    · rintro ⟨hlong, hfit, hshort⟩
      refine ⟨hsettles.mpr ⟨hlong, hshort⟩, fun i hi _ _ => ?_⟩
      rw [(phase_short high hlen hshort).1 i (by omega)]
      have hplace : place high msb i < 512 := by
        unfold place
        split <;> omega
      exact (inBuf_ofNat (by omega)).mpr hplace

namespace SpiMod

/-! ## §2 — settings -/

def MosiOn (s : SpiMod) : Prop := rdfield s.user spiUsrMosi ≠ 0
def MisoOn (s : SpiMod) : Prop := rdfield s.user spiUsrMiso ≠ 0
def mosiHigh (s : SpiMod) : Bool := rdfield s.user spiUsrMosiHighpart = 1
def misoHigh (s : SpiMod) : Bool := rdfield s.user spiUsrMisoHighpart = 1
def mosiDelay (s : SpiMod) : Nat := rdfield s.ctrl2 spiMosiDelayNum
def misoDelay (s : SpiMod) : Nat := rdfield s.ctrl2 spiMisoDelayNum

instance (s : SpiMod) : Decidable s.MosiOn := inferInstanceAs (Decidable (_ ≠ _))

instance (s : SpiMod) : Decidable s.MisoOn := inferInstanceAs (Decidable (_ ≠ _))

/-- The clock cycles a transfer should take. -/
def duration (s : SpiMod) : Nat :=
  max (if s.MosiOn then s.mosiDlen.toNat + 1 + s.mosiDelay else 0)
    (if s.MisoOn then s.misoDlen.toNat + 1 + s.misoDelay else 0)

/-! ## §3 — the property -/

/-- In this cycle `data_buf` is read. -/
def Reads (s : SpiMod) : Prop := s.precycwr = 0 ∧ s.bit ≠ -1

/-- In this cycle `data_buf` is written. -/
def Writes (s : SpiMod) : Prop := s.precycrd = 0 ∧ s.bitrd ≠ -1

/-- **The transfer started in `s` ends in bounds**: `usr` is lowered after exactly its duration; every
access has an index of `data_buf`; and a phase that is over stays over and writes nothing. -/
structure EndsInBounds (q : Wiring) (s : SpiMod) : Prop where
  running : ∀ i < s.duration, (s.after q i).usr = true
  lowered : (s.after q s.duration).usr = false
  reads : ∀ i < s.duration, (s.after q i).Reads → InBuf (s.after q i).bit
  writes : ∀ i < s.duration, (s.after q i).Writes → InBuf (s.after q i).bitrd
  restsWr : ∀ i < s.duration, (s.after q i).bit = -1 → (s.after q (i + 1)).bit = -1
  restsRd : ∀ i < s.duration, (s.after q i).bitrd = -1 →
    (s.after q (i + 1)).bitrd = -1 ∧ (s.after q (i + 1)).dataBuf = (s.after q i).dataBuf

/-- The settings with which transfers end in bounds. -/
structure Sound (s : SpiMod) : Prop where
  mosi : if s.MosiOn then
      PhaseSound s.duration s.mosiHigh s.wrLittle s.wrMsb s.mosiDlen.toNat
    else s.lastbit = -1
  miso : s.MisoOn → PhaseSound s.duration s.misoHigh s.rdLittle s.rdMsb s.misoDlen.toNat
  /-- without a little-endian phase the transfer takes one cycle -/
  moves : s.duration = 1 ∨ (s.MosiOn ∧ s.wrLittle = true) ∨ (s.MisoOn ∧ s.rdLittle = true)

/-! ## §4 — the cursors at the start -/

variable (s : SpiMod)

theorem setuprd_cases : ∃ a b c d, s.setuprd =
    { s with startbitrd := a, lastbitrd := b, rdlittleendian := c, rdmsbfirst := d } := by
  unfold setuprd
  split
  · exact ⟨_, _, _, _, rfl⟩
  · exact ⟨_, _, _, _, rfl⟩

theorem setupwr_cases : ∃ a b c d e, s.setupwr =
    { s with startbit := a, lastbit := b, wrlittleendian := c, wrmsbfirst := d, lastbitrd := e } := by
  unfold setupwr
  split
  · exact ⟨_, _, _, _, _, rfl⟩
  · exact ⟨_, _, _, _, _, rfl⟩

/-- The first position of a half of the buffer. -/
theorem first_eq (reg : BitVec 32) (highpart : Field) :
    (32 * if rdfield reg highpart = 1 then 8 else 0) =
      BitVec.ofNat 32 (base (rdfield reg highpart = 1)) := by
  unfold base
  by_cases hhigh : rdfield reg highpart = 1
  · rw [if_pos hhigh, if_pos (decide_eq_true hhigh)]
    rfl
  · rw [if_neg hhigh, if_neg (by rw [decide_eq_true_eq]; exact hhigh)]
    rfl

theorem mosiFirst_eq : s.mosiFirst = BitVec.ofNat 32 (base s.mosiHigh) := first_eq _ _

theorem misoFirst_eq : s.misoFirst = BitVec.ofNat 32 (base s.misoHigh) := first_eq _ _

/-- A first position and a length, as `setupmaster` adds them. -/
theorem ofNat_base_add (b : Nat) (dlen : BitVec 32) :
    BitVec.ofNat 32 b + dlen = BitVec.ofNat 32 (b + dlen.toNat) := by
  rw [BitVec.ofNat_add, BitVec.ofNat_toNat, BitVec.setWidth_eq]

/-- The cursor of the MOSI phase, `i` cycles after the start. -/
def wrAt (i : Nat) : BitVec 32 :=
  posAt s.start.bit s.start.lastbit s.start.wrlittleendian s.start.wrmsbfirst i

/-- The cursor of the MISO phase, `i` cycles after the start. -/
def rdAt (i : Nat) : BitVec 32 :=
  posAt s.start.bitrd s.start.lastbitrd s.start.rdlittleendian s.start.rdmsbfirst i

theorem start_delays : s.start.precycwr = s.mosiDelay ∧ s.start.precycrd = s.misoDelay := by
  obtain ⟨_, _, _, _, _, hwr⟩ := setupwr_cases s.setupdelays
  obtain ⟨_, _, _, _, hrd⟩ := setuprd_cases s.setupdelays.setupwr
  unfold start setupmaster
  rw [hrd, hwr]
  exact ⟨rfl, rfl⟩

/-- The cursor of an enabled MOSI phase. -/
theorem wrAt_on (hon : s.MosiOn) :
    s.wrAt = phase s.mosiHigh s.wrLittle s.wrMsb s.mosiDlen.toNat := by
  obtain ⟨_, _, _, _, hrd⟩ := setuprd_cases s.setupdelays.setupwr
  have hon : ¬ rdfield s.setupdelays.user spiUsrMosi = 0 := hon
  funext i
  unfold wrAt start setupmaster phase
  rw [hrd, ← ofNat_base_add, ← mosiFirst_eq, setupwr, if_neg hon]
  rfl

/-- A MOSI phase that is off is over at the start, with the last position of an earlier command. -/
theorem wrAt_off (hoff : ¬ s.MosiOn) :
    s.wrAt = posAt (-1) s.lastbit s.wrlittleendian s.wrmsbfirst := by
  obtain ⟨_, _, _, _, hrd⟩ := setuprd_cases s.setupdelays.setupwr
  have hoff : rdfield s.setupdelays.user spiUsrMosi = 0 := not_not.mp hoff
  funext i
  unfold wrAt start setupmaster
  rw [hrd, setupwr, if_pos hoff]
  rfl

/-- The cursor of an enabled MISO phase. -/
theorem rdAt_on (hon : s.MisoOn) :
    s.rdAt = phase s.misoHigh s.rdLittle s.rdMsb s.misoDlen.toNat := by
  obtain ⟨_, _, _, _, _, hwr⟩ := setupwr_cases s.setupdelays
  have hon : ¬ rdfield s.setupdelays.user spiUsrMiso = 0 := hon
  funext i
  unfold rdAt start setupmaster phase
  rw [hwr, ← ofNat_base_add, ← misoFirst_eq, setuprd, if_neg hon]
  rfl

/-- A MISO phase that is off is over for good. -/
theorem rdAt_off (hoff : ¬ s.MisoOn) :
    s.rdAt = posAt (-1) (-1) s.start.rdlittleendian s.start.rdmsbfirst := by
  obtain ⟨_, _, _, _, _, hwr⟩ := setupwr_cases s.setupdelays
  have hoff : rdfield s.setupdelays.user spiUsrMiso = 0 := not_not.mp hoff
  funext i
  unfold rdAt start setupmaster
  rw [hwr, setuprd, if_pos hoff]

/-! ## §5 — the cursors of a run -/

/-- What the cycles before cycle `i` have left of the transfer as it started. -/
structure Reached (q : Wiring) (s : SpiMod) (i : Nat) : Prop where
  lastbit : (s.after q i).lastbit = s.start.lastbit
  wrle : (s.after q i).wrlittleendian = s.start.wrlittleendian
  wrmsb : (s.after q i).wrmsbfirst = s.start.wrmsbfirst
  bit : (s.after q i).bit = s.wrAt i
  precycwr : (s.after q i).precycwr = s.mosiDelay - i
  lastbitrd : (s.after q i).lastbitrd = s.start.lastbitrd
  rdle : (s.after q i).rdlittleendian = s.start.rdlittleendian
  rdmsb : (s.after q i).rdmsbfirst = s.start.rdmsbfirst
  bitrd : (s.after q i).bitrd = s.rdAt i
  precycrd : (s.after q i).precycrd = s.misoDelay - i

theorem reached (q : Wiring) (i : Nat) : Reached q s i := by
  induction i with
  | zero =>
    exact ⟨rfl, rfl, rfl, rfl, (start_delays s).1, rfl, rfl, rfl, rfl, (start_delays s).2⟩
  | succ i ih =>
    -- each cursor moves with the last position and the orders that it started with
    obtain ⟨dO, hcycle⟩ := cycle_cases q (s.after q i)
    have hbit : s.wrAt (i + 1) = _ := posAt_succ s.start.bit i
    have hbitrd : s.rdAt (i + 1) = _ := posAt_succ s.start.bitrd i
    constructor <;> rw [after_succ, hcycle]
    · exact ih.lastbit
    · exact ih.wrle
    · exact ih.wrmsb
    · rw [hbit]
      show advance _ _ _ _ = _
      rw [ih.lastbit, ih.wrle, ih.wrmsb, ih.bit]
      rfl
    · show (s.after q i).precycwr - 1 = _
      rw [ih.precycwr]
      omega
    · exact ih.lastbitrd
    · exact ih.rdle
    · exact ih.rdmsb
    · rw [hbitrd]
      show advance _ _ _ _ = _
      rw [ih.lastbitrd, ih.rdle, ih.rdmsb, ih.bitrd]
      rfl
    · show (s.after q i).precycrd - 1 = _
      rw [ih.precycrd]
      omega

/-- `usr` is set as long as the cursors have not been over together. -/
theorem usr_after (q : Wiring) (i : Nat) :
    (s.after q i).usr = true ↔ ∀ j, 0 < j → j ≤ i → ¬ (s.wrAt j = -1 ∧ s.rdAt j = -1) := by
  induction i with
  | zero => exact ⟨fun _ j hpos hle => absurd hle (by omega), fun _ => rfl⟩
  | succ i ih =>
    have hthis := reached s q (i + 1)
    obtain ⟨dO, hcycle⟩ := cycle_cases q (s.after q i)
    have husr : (s.after q (i + 1)).usr =
        if s.wrAt (i + 1) = -1 ∧ s.rdAt (i + 1) = -1 then false else (s.after q i).usr := by
      rw [← hthis.bit, ← hthis.bitrd, after_succ, hcycle]
    rw [husr]
    split
    next hover => exact ⟨fun h => absurd h Bool.false_ne_true,
      fun h => absurd hover (h (i + 1) (by omega) (Nat.le_refl _))⟩
    next hon =>
      rw [ih]
      constructor
      · intro h j hpos hle
        rcases Nat.lt_or_ge j (i + 1) with hlt | hge
        · exact h j hpos (by omega)
        · rw [Nat.le_antisymm hle hge]
          exact hon
      · intro h j hpos hle
        exact h j hpos (by omega)

/-- The property of a transfer, by its phases. -/
theorem endsInBounds_iff (q : Wiring) (hn : 0 < s.duration) :
    EndsInBounds q s ↔ Runs s.wrAt s.mosiDelay s.duration ∧ Runs s.rdAt s.misoDelay s.duration ∧
      ∀ i, 0 < i → i < s.duration → ¬ (s.wrAt i = -1 ∧ s.rdAt i = -1) := by
  constructor
  · intro h
    have hrun : ∀ i, 0 < i → i < s.duration → ¬ (s.wrAt i = -1 ∧ s.rdAt i = -1) :=
      fun i hpos hlt => (usr_after s q i).mp (h.running i hlt) i hpos (Nat.le_refl i)
    -- `usr` is low at the end and not before, so that the last cycle ends both phases
    have hend : s.wrAt s.duration = -1 ∧ s.rdAt s.duration = -1 := by
      by_contra hon
      refine Bool.false_ne_true (h.lowered.symm.trans ((usr_after s q _).mpr fun j hpos hle => ?_))
      rcases Nat.lt_or_ge j s.duration with hlt | hge
      · exact hrun j hpos hlt
      · rw [Nat.le_antisymm hle hge]
        exact hon
    refine ⟨⟨⟨hend.1, fun i hi hover => ?_⟩, fun i hi hdly hon => ?_⟩,
      ⟨⟨hend.2, fun i hi hover => ?_⟩, fun i hi hdly hon => ?_⟩, hrun⟩
    · rw [← (reached s q _).bit] at hover ⊢
      exact h.restsWr i hi hover
    · have hr := reached s q i
      rw [← hr.bit] at hon ⊢
      exact h.reads i hi ⟨hr.precycwr.trans hdly, hon⟩
    · rw [← (reached s q _).bitrd] at hover ⊢
      exact (h.restsRd i hi hover).1
    · have hr := reached s q i
      rw [← hr.bitrd] at hon ⊢
      exact h.writes i hi ⟨hr.precycrd.trans hdly, hon⟩
  · rintro ⟨⟨hwr, hwrin⟩, ⟨hrd, hrdin⟩, hrun⟩
    refine ⟨fun i hi => ?_, ?_, fun i hi hreads => ?_, fun i hi hwrites => ?_, fun i hi hover => ?_,
      fun i hi hover => ⟨?_, ?_⟩⟩
    · exact (usr_after s q i).mpr fun j hpos hle => hrun j hpos (by omega)
    · rw [Bool.eq_false_iff]
      exact fun husr => (usr_after s q _).mp husr _ hn (Nat.le_refl _) ⟨hwr.1, hrd.1⟩
    · have hr := reached s q i
      rw [hr.bit]
      exact hwrin i hi (hr.precycwr.symm.trans hreads.1) (hr.bit ▸ hreads.2)
    · have hr := reached s q i
      rw [hr.bitrd]
      exact hrdin i hi (hr.precycrd.symm.trans hwrites.1) (hr.bitrd ▸ hwrites.2)
    · rw [(reached s q _).bit] at hover ⊢
      exact hwr.2 i hi hover
    · rw [(reached s q _).bitrd] at hover ⊢
      exact hrd.2 i hi hover
    · obtain ⟨dO, hcycle⟩ := cycle_cases q (s.after q i)
      rw [after_succ, hcycle]
      exact if_neg fun h => h.1 hover

/-! ## §6 — the exact condition -/

theorem rdfield_le (sig : BitVec 32) (f : Field) :
    rdfield sig f ≤ (f.v <<< f.s).toNat / 2 ^ f.s := by
  unfold rdfield
  rw [BitVec.toNat_ushiftRight, Nat.shiftRight_eq_div_pow, BitVec.toNat_and]
  exact Nat.div_le_div_right Nat.and_le_right

theorem mosiDelay_le : s.mosiDelay ≤ 7 := rdfield_le s.ctrl2 spiMosiDelayNum

theorem misoDelay_le : s.misoDelay ≤ 7 := rdfield_le s.ctrl2 spiMisoDelayNum

theorem mosi_le_duration (hon : s.MosiOn) : s.mosiDlen.toNat + 1 + s.mosiDelay ≤ s.duration := by
  unfold duration
  rw [if_pos hon]
  exact Nat.le_max_left _ _

theorem miso_le_duration (hon : s.MisoOn) : s.misoDlen.toNat + 1 + s.misoDelay ≤ s.duration := by
  unfold duration
  rw [if_pos hon]
  exact Nat.le_max_right _ _

variable {s}

theorem duration_lt (hmosi : s.mosiDlen.toNat < 512) (hmiso : s.misoDlen.toNat < 512) :
    s.duration < 1000 := by
  have hwr := s.mosiDelay_le
  have hrd := s.misoDelay_le
  unfold duration
  refine Nat.max_lt.mpr ⟨?_, ?_⟩
  · split <;> omega
  · split <;> omega

theorem duration_pos (hon : s.MosiOn ∨ s.MisoOn) : 0 < s.duration := by
  rcases hon with hon | hon
  · exact Nat.lt_of_lt_of_le (by omega) (s.mosi_le_duration hon)
  · exact Nat.lt_of_lt_of_le (by omega) (s.miso_le_duration hon)

/-- The MOSI phase runs to the end if it is set up for it. -/
theorem runs_wrAt (hpos : 0 < s.duration) (hmosi : s.mosiDlen.toNat < 512)
    (hmiso : s.misoDlen.toNat < 512) :
    Runs s.wrAt s.mosiDelay s.duration ↔
      if s.MosiOn then PhaseSound s.duration s.mosiHigh s.wrLittle s.wrMsb s.mosiDlen.toNat
      else s.lastbit = -1 := by
  by_cases hon : s.MosiOn
  · rw [if_pos hon, wrAt_on s hon]
    exact runs_phase hmosi (s.mosi_le_duration hon) (duration_lt hmosi hmiso)
  · rw [if_neg hon, wrAt_off s hon]
    exact runs_over hpos

/-- The MISO phase runs to the end if it is off or set up for it. -/
theorem runs_rdAt (hpos : 0 < s.duration) (hmosi : s.mosiDlen.toNat < 512)
    (hmiso : s.misoDlen.toNat < 512) :
    Runs s.rdAt s.misoDelay s.duration ↔
      (s.MisoOn → PhaseSound s.duration s.misoHigh s.rdLittle s.rdMsb s.misoDlen.toNat) := by
  by_cases hon : s.MisoOn
  · rw [rdAt_on s hon, runs_phase hmiso (s.miso_le_duration hon) (duration_lt hmosi hmiso)]
    exact ⟨fun h _ => h, fun h => h hon⟩
  · rw [rdAt_off s hon, runs_over hpos]
    exact ⟨fun _ hon' => absurd hon' hon, fun _ => rfl⟩

/-- A big-endian phase that is sound is over all the time. -/
theorem phase_big_over (high msb : Bool) {dlen : Nat} (hlen : dlen < 512)
    (hsound : dlen / 8 % 4 = 0) (i : Nat) : phase high false msb dlen i = -1 := by
  unfold phase
  rw [start_big, (last_big high msb hlen).mpr hsound]
  exact posAt_over i

/-- A little-endian phase that is sound is not over before the end. -/
theorem phase_little_on {n : Nat} {high msb : Bool} {dlen : Nat} (hlen : dlen < 512)
    (hsound : PhaseSound n high true msb dlen) {i : Nat} (hi : i < n) :
    phase high true msb dlen i ≠ -1 := by
  have hbase := base_cases high
  obtain ⟨hlong, _, hshort⟩ := hsound
  rw [(phase_short high hlen hshort).1 i (by omega)]
  refine ofNat_ne_over ?_
  unfold place
  split <;> omega

/-- **Transfers end in bounds exactly with sound settings**, whatever is connected to `q_i`. -/
theorem transfers_end (q : Wiring) (s : SpiMod) (hon : s.MosiOn ∨ s.MisoOn)
    (hmosi : s.mosiDlen.toNat < 512) (hmiso : s.misoDlen.toNat < 512) :
    EndsInBounds q s ↔ Sound s := by
  have hpos := duration_pos hon
  rw [endsInBounds_iff s q hpos, runs_wrAt hpos hmosi hmiso, runs_rdAt hpos hmosi hmiso]
  constructor
  · rintro ⟨hwr, hrd, hrun⟩
    refine ⟨hwr, hrd, ?_⟩
    -- a transfer of more than one cycle has a phase that is not over in the second
    by_contra hstill
    obtain ⟨hone, hnwr, hnrd⟩ : s.duration ≠ 1 ∧ ¬ (s.MosiOn ∧ s.wrLittle = true) ∧
        ¬ (s.MisoOn ∧ s.rdLittle = true) := by
      simpa only [not_or] using hstill
    refine hrun 1 (by omega) (by omega) ⟨?_, ?_⟩
    · by_cases hw : s.MosiOn
      · rw [if_pos hw] at hwr
        have hbig : s.wrLittle = false := Bool.eq_false_iff.mpr fun h => hnwr ⟨hw, h⟩
        rw [wrAt_on s hw, hbig]
        rw [hbig] at hwr
        exact phase_big_over _ _ hmosi hwr 1
      · rw [if_neg hw] at hwr
        rw [wrAt_off s hw, hwr]
        exact posAt_over 1
    · by_cases hr : s.MisoOn
      · have hrd := hrd hr
        have hbig : s.rdLittle = false := Bool.eq_false_iff.mpr fun h => hnrd ⟨hr, h⟩
        rw [rdAt_on s hr, hbig]
        rw [hbig] at hrd
        exact phase_big_over _ _ hmiso hrd 1
      · rw [rdAt_off s hr]
        exact posAt_over 1
  · rintro ⟨hwr, hrd, hmoves⟩
    refine ⟨hwr, hrd, fun i hipos hi hover => ?_⟩
    rcases hmoves with hone | ⟨hw, hlittle⟩ | ⟨hr, hlittle⟩
    · omega
    · rw [if_pos hw, hlittle] at hwr
      rw [wrAt_on s hw, hlittle] at hover
      exact phase_little_on hmosi hwr hi hover.1
    · have hrd := hrd hr
      rw [hlittle] at hrd
      rw [rdAt_on s hr, hlittle] at hover
      exact phase_little_on hmiso hrd hi hover.2

/-- The setting of `spiTransferByte`. -/
def transferByte : SpiMod := { new with user := 0x18000000, mosiDlen := 7, misoDlen := 7 }

/-- The setting of `spiWriteByte`. -/
def writeByte : SpiMod := { new with user := 0x18000000, mosiDlen := 7, misoDlen := 0 }

theorem transferByte_ends : EndsInBounds loopback transferByte :=
  (transfers_end loopback transferByte (Or.inl (by decide)) (by decide) (by decide)).mpr
    ⟨by decide, by decide, by decide⟩

/-- The MISO phase of `spiWriteByte` is over after one bit and begins again in the next cycle. -/
theorem writeByte_restarts : ¬ ∀ (q : Wiring) (s : SpiMod), s.MosiOn ∨ s.MisoOn →
    s.mosiDlen.toNat < 512 → s.misoDlen.toNat < 512 → EndsInBounds q s := by
  intro h
  have hends := h loopback writeByte (Or.inl (by decide)) (by decide) (by decide)
  have hone : (writeByte.after loopback 1).bitrd = -1 := by decide
  have htwo : (writeByte.after loopback 2).bitrd ≠ -1 := by decide
  exact htwo (hends.restsRd 1 (by decide) hone).1

end SpiMod

end Espmod.Spi
