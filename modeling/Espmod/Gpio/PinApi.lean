/-
# Espmod.Gpio.PinApi — the pin API from the call to the pad

After any history of calls by one thread the board is in a state the calls can rely on: the matrix
shows its registers, every output is selected as GPIO, and every pad still has the function the board
gave it, unless an analog call has taken it away. `BoardKept` is that invariant. From it, making a pin
an output and writing it drives the level strongly, and making it an input releases the pad and reads
what an outside driver drives, with two exceptions.

Pin 0 is not a valid GPIO for the driver, because its entry in the table of pin registers is its own
number, zero: its output can never be enabled. And nothing takes a pad back from the analog function,
so a pin that has been read as analog stays so.
-/
import Espmod.Gpio.Board

namespace Espmod.Gpio

open Espmod.Lib IoMux

/-! ## §1 — ports that are folded -/

namespace Port

theorem zero_of_folded {p : Port} (h : p.applycs = p) : p.w1ts = .zero ∧ p.w1tc = .zero := by
  constructor
  · rw [← h]
    rfl
  · rw [← h]
    rfl

/-- A request to set one pin, folded. -/
theorem bit_set {p : Port} (h : p.applycs = p) {pin : Nat} (hpin : pin < 40) (q : Nat) :
    ({ p with w1ts := p.w1ts.assign pin } : Port).applycs.data.bit q =
      if q = pin then true else p.data.bit q := by
  obtain ⟨hts, htc⟩ := zero_of_folded h
  rw [bit_applycs]
  show (p.data.bit q && !p.w1tc.bit q || (p.w1ts.assign pin).bit q) = _
  rw [hts, htc, Bits.bit_assign hpin, Bits.bit_zero]
  by_cases hq : q = pin
  · subst hq
    have hw : Bits.SameWord q q := Iff.rfl
    rw [if_pos hw]
    simp
  · simp [hq]

/-- A request to clear one pin, folded. -/
theorem bit_clear {p : Port} (h : p.applycs = p) {pin : Nat} (hpin : pin < 40) (q : Nat) :
    ({ p with w1tc := p.w1tc.assign pin } : Port).applycs.data.bit q =
      if q = pin then false else p.data.bit q := by
  obtain ⟨hts, htc⟩ := zero_of_folded h
  rw [bit_applycs]
  show (p.data.bit q && !(p.w1tc.assign pin).bit q || p.w1ts.bit q) = _
  rw [hts, htc, Bits.bit_assign hpin, Bits.bit_zero]
  by_cases hq : q = pin
  · subst hq
    have hw : Bits.SameWord q q := Iff.rfl
    rw [if_pos hw]
    simp
  · simp [hq]

end Port

/-! ## §2 — one pad -/

/-- What every pad of the board keeps: the modes and function it was built with, unless it has been
`analog`, and an output enable that only follows the matrix. -/
structure PadKept (pin : Nat) (analog : Bool) (x : IoMux) : Prop where
  copied : Copied x
  function : x.function = if analog then .analog else .func 2
  modes : x.modes = padModes pin
  anaok : x.anaok = padAnaok pin
  fin : 2 < x.fin.length
  fen : 2 < x.fen.length
  oe : x.oe = false
  forceoe : x.forceoe = false

theorem PadKept.flag {pin : Nat} {a : Bool} {x y : IoMux} (h : PadKept pin a x) (ha : Adjusted x y)
    (he : y.oe = x.oe ∧ y.forceoe = x.forceoe) : PadKept pin a y where
  copied := h.copied.flag ha he
  function := ha.function.trans h.function
  modes := ha.modes.trans h.modes
  anaok := ha.anaok.trans h.anaok
  fin := ha.fin ▸ h.fin
  fen := ha.fen ▸ h.fen
  oe := he.1.trans h.oe
  forceoe := he.2.trans h.forceoe

/-- Feeding a pad changes neither its configuration nor its flags, and settles it with the level and
enable it was fed. -/
theorem PadKept.feed {pin : Nat} {a : Bool} {x : IoMux} (h : PadKept pin a x) (l e : Bool) :
    PadKept pin a (Board.feedPad l e x) ∧ (Board.feedPad l e x).Settled ∧
      (Board.feedPad l e x).fin.getD 2 false = l ∧ (Board.feedPad l e x).fen.getD 2 false = e ∧
      (Board.feedPad l e x).ie = x.ie ∧ (Board.feedPad l e x).wpu = x.wpu ∧
      (Board.feedPad l e x).wpd = x.wpd ∧ (Board.feedPad l e x).od = x.od := by
  have hcopied : Copied (Board.feedPad l e x) := ((h.copied.finChange 2 l).fenChange 2 e).settle
  have hsettled : (Board.feedPad l e x).Settled := settled_settle _
  obtain ⟨d, lv, p, dp, fp, w, heq⟩ := settle_eq ((x.finChange 2 l).fenChange 2 e)
  have hfeed : Board.feedPad l e x = _ := heq
  have hfin : (x.fin.set 2 l).getD 2 false = l := by
    rw [List.getD_eq_getElem?_getD, List.getElem?_set_self h.fin]
    rfl
  have hfen : (x.fen.set 2 e).getD 2 false = e := by
    rw [List.getD_eq_getElem?_getD, List.getElem?_set_self h.fen]
    rfl
  refine ⟨⟨hcopied, ?_, ?_, ?_, ?_, ?_, ?_, ?_⟩, hsettled, ?_, ?_, ?_, ?_, ?_, ?_⟩ <;> rw [hfeed]
  · exact h.function
  · exact h.modes
  · exact h.anaok
  · show 2 < (x.fin.set 2 l).length
    rw [List.length_set]
    exact h.fin
  · show 2 < (x.fen.set 2 e).length
    rw [List.length_set]
    exact h.fen
  · exact h.oe
  · exact h.forceoe
  · exact hfin
  · exact hfen
  all_goals rfl

theorem padModes_input (pin : Nat) : has (padModes pin) gpiomodeInput = true := by
  unfold padModes
  split <;> rfl

theorem padModes_nowpu (pin : Nat) : has (padModes pin) gpiomodeNowpu = false := by
  unfold padModes
  split <;> rfl

theorem padModes_nowpd (pin : Nat) : has (padModes pin) gpiomodeNowpd = false := by
  unfold padModes
  split <;> rfl

theorem padModes_nood (pin : Nat) : has (padModes pin) gpiomodeNood = false := by
  unfold padModes
  split <;> rfl

/-- An allowed request gives the flag its value. -/
theorem request_allowed {allowed cur want : Bool} {put m : IoMux} (h : allowed = true)
    (f : IoMux → Bool) (hcur : cur = f m) (hput : f put = want) :
    f (request allowed cur want put m).2 = want := by
  unfold request
  rw [if_pos h]
  split
  next hsame => rw [← hcur, hsame]
  next => exact hput

theorem PadKept.setIe_ie {pin : Nat} {a : Bool} {x : IoMux} (h : PadKept pin a x) :
    x.setIe.2.ie = true := by
  have hok : (!x.oe && has x.modes gpiomodeInput || x.oe && has x.modes gpiomodeInout) = true := by
    rw [h.oe, h.modes, padModes_input]
    rfl
  exact request_allowed hok (fun y => y.ie) rfl rfl

/-- The pulls and the open drain of a pad that has been told to have none. -/
theorem PadKept.plain {pin : Nat} {a : Bool} {x : IoMux} (h : PadKept pin a x) :
    x.clrWpu.2.clrWpd.2.clrOd.2.wpu = false ∧ x.clrWpu.2.clrWpd.2.clrOd.2.wpd = false ∧
      x.clrWpu.2.clrWpd.2.clrOd.2.od = false := by
  have h₁ : PadKept pin a x.clrWpu.2 := h.flag (adjusted_clrWpu x) (enables_request ⟨rfl, rfl⟩)
  have h₂ : PadKept pin a x.clrWpu.2.clrWpd.2 :=
    h₁.flag (adjusted_clrWpd _) (enables_request ⟨rfl, rfl⟩)
  have hwpu : x.clrWpu.2.wpu = false :=
    request_allowed (by rw [h.modes, padModes_nowpu]; rfl) (fun y => y.wpu) rfl rfl
  have hwpd : x.clrWpu.2.clrWpd.2.wpd = false :=
    request_allowed (by rw [h₁.modes, padModes_nowpd]; rfl) (fun y => y.wpd) rfl rfl
  have hod : x.clrWpu.2.clrWpd.2.clrOd.2.od = false :=
    request_allowed (by rw [h₂.modes, padModes_nood]; rfl) (fun y => y.od) rfl rfl
  refine ⟨?_, ?_, hod⟩
  · have hkeep : x.clrWpu.2.clrWpd.2.wpu = x.clrWpu.2.wpu := by
      rcases request_cases _ _ _ _ x.clrWpu.2 with he | he <;> rw [clrWpd, he]
    have hkeep' : x.clrWpu.2.clrWpd.2.clrOd.2.wpu = x.clrWpu.2.clrWpd.2.wpu := by
      rcases request_cases _ _ _ _ x.clrWpu.2.clrWpd.2 with he | he <;> rw [clrOd, he]
    rw [hkeep', hkeep, hwpu]
  · have hkeep : x.clrWpu.2.clrWpd.2.clrOd.2.wpd = x.clrWpu.2.clrWpd.2.wpd := by
      rcases request_cases _ _ _ _ x.clrWpu.2.clrWpd.2 with he | he <;> rw [clrOd, he]
    rw [hkeep, hwpd]

/-- Asked for no mode at all, a pad that follows the matrix goes on doing so. -/
theorem PadKept.setMode_none {pin : Nat} {a : Bool} {x : IoMux} (h : PadKept pin a x) :
    (x.setMode gpiomodeNone).2.oe = false ∧ (x.setMode gpiomodeNone).2.forceoe = false := by
  have h₁ : x.clrIe.2.oe = x.oe ∧ x.clrIe.2.forceoe = x.forceoe := enables_request ⟨rfl, rfl⟩
  have h₂ : x.clrIe.2.clrOe.2 = x.clrIe.2 := by
    unfold clrOe request
    rw [if_pos (h₁.1.trans h.oe)]
    split <;> rfl
  have h₃ : ∀ y : IoMux, y.clrWpu.2.oe = y.oe ∧ y.clrWpu.2.forceoe = y.forceoe :=
    fun _ => enables_request ⟨rfl, rfl⟩
  have h₄ : ∀ y : IoMux, y.clrWpd.2.oe = y.oe ∧ y.clrWpd.2.forceoe = y.forceoe :=
    fun _ => enables_request ⟨rfl, rfl⟩
  have h₅ : ∀ y : IoMux, y.clrOd.2.oe = y.oe ∧ y.clrOd.2.forceoe = y.forceoe :=
    fun _ => enables_request ⟨rfl, rfl⟩
  show x.clrIe.2.clrOe.2.clrWpu.2.clrWpd.2.clrOd.2.oe = false ∧
    x.clrIe.2.clrOe.2.clrWpu.2.clrWpd.2.clrOd.2.forceoe = false
  rw [(h₅ _).1, (h₅ _).2, (h₄ _).1, (h₄ _).2, (h₃ _).1, (h₃ _).2, h₂, h₁.1, h₁.2]
  exact ⟨h.oe, h.forceoe⟩

/-- A pad asked for the analog function gets it when it has one, and is left alone otherwise. -/
theorem PadKept.setAnalog {pin : Nat} {a : Bool} {x : IoMux} (h : PadKept pin a x)
    (ha : a = true → padAnaok pin = true) : PadKept pin (padAnaok pin) (x.setFunction .analog) := by
  have hcopied : Copied (x.setFunction .analog) := h.copied.setFunction .analog
  unfold setFunction at hcopied ⊢
  split at hcopied
  next hsame =>
    -- it is analog already
    have hatrue : a = true := by
      cases a with
      | true => rfl
      | false =>
        have hfun := h.function
        rw [← hsame] at hfun
        cases hfun
    rw [if_pos hsame, ha hatrue]
    exact hatrue ▸ h
  next hother =>
    rw [if_neg hother]
    dsimp only at hcopied ⊢
    have hafalse : a = false := by
      cases a with
      | false => rfl
      | true => exact absurd h.function.symm hother
    by_cases hana : x.anaok = true
    · rw [if_pos hana] at hcopied ⊢
      have hmode := adjusted_setMode gpiomodeNone x
      have hpin : padAnaok pin = true := h.anaok.symm.trans hana
      refine ⟨hcopied, ?_, hmode.modes.trans h.modes, hmode.anaok.trans h.anaok, ?_, ?_, ?_, ?_⟩
      · rw [hpin]
        rfl
      · show 2 < (x.setMode gpiomodeNone).2.fin.length
        rw [hmode.fin]
        exact h.fin
      · show 2 < (x.setMode gpiomodeNone).2.fen.length
        rw [hmode.fen]
        exact h.fen
      · exact h.setMode_none.1
      · exact h.setMode_none.2
    · rw [if_neg hana]
      have hpin : padAnaok pin = false := h.anaok.symm.trans (Bool.eq_false_iff.mpr hana)
      rw [hpin]
      exact hafalse ▸ h

/-! ## §3 — the board -/

namespace Board

/-- What holds of the board between two calls of the API, when `used` are the pins an analog call has
been made for. -/
structure BoardKept (used : Nat → Bool) (b : Board) : Prop where
  synced : b.m.Synced
  /-- every output is the GPIO itself -/
  sel : ∀ q, b.m.gpio.funcOutSel q = 256
  /-- the driver refuses pin 0, so its output is never enabled -/
  pinZero : b.m.gpio.enable.data.bit 0 = false
  pads : ∀ q, getgpio q = true → PadKept q (used q && padAnaok q) (b.m.pads q)

theorem BoardKept.legal {used : Nat → Bool} {b : Board} (h : BoardKept used b) :
    ∀ pin, getmux pin = true → Matrix.LegalSel b.m.gpio pin := fun pin _ => Or.inl (h.sel pin)

/-- Letting the pads settle keeps the board. -/
theorem BoardKept.settlePads {used : Nat → Bool} {b : Board} (h : BoardKept used b) :
    BoardKept used b.settlePads where
  synced := ⟨h.synced.cur, h.synced.quiet, h.synced.folded⟩
  sel := h.sel
  pinZero := h.pinZero
  pads q hq := by
    show PadKept q _ (if getgpio q then _ else b.m.pads q)
    rw [if_pos hq]
    exact ((h.pads q hq).feed _ _).1

/-- So does a request to one pad that touches only flags other than the enables. -/
theorem BoardKept.onPad {used : Nat → Bool} {b : Board} (h : BoardKept used b) (pin : Nat)
    {f : IoMux → IoMux} (hf : ∀ x a, PadKept pin a x → PadKept pin a (f x)) :
    BoardKept used (b.onPad pin f) where
  synced := ⟨h.synced.cur, h.synced.quiet, h.synced.folded⟩
  sel := h.sel
  pinZero := h.pinZero
  pads q hq := by
    show PadKept q _ (if q = pin then f (b.m.pads q) else b.m.pads q)
    split
    next heq =>
      subst heq
      exact hf _ _ (h.pads q hq)
    next => exact h.pads q hq

theorem kept_setIe (pin : Nat) (x : IoMux) (a : Bool) (h : PadKept pin a x) :
    PadKept pin a x.setIe.2 := h.flag (adjusted_setIe x) (enables_request ⟨rfl, rfl⟩)

theorem kept_clrIe (pin : Nat) (x : IoMux) (a : Bool) (h : PadKept pin a x) :
    PadKept pin a x.clrIe.2 := h.flag (adjusted_clrIe x) (enables_request ⟨rfl, rfl⟩)

/-- The two requests for one flag, whichever is made. -/
theorem kept_pull (pin : Nat) (up : Bool) (x : IoMux) (a : Bool) (h : PadKept pin a x) :
    PadKept pin a (if up then x.setWpu.2 else x.clrWpu.2) := by
  split
  · exact h.flag (adjusted_setWpu x) (enables_request ⟨rfl, rfl⟩)
  · exact h.flag (adjusted_clrWpu x) (enables_request ⟨rfl, rfl⟩)

theorem kept_pulldown (pin : Nat) (down : Bool) (x : IoMux) (a : Bool) (h : PadKept pin a x) :
    PadKept pin a (if down then x.setWpd.2 else x.clrWpd.2) := by
  split
  · exact h.flag (adjusted_setWpd x) (enables_request ⟨rfl, rfl⟩)
  · exact h.flag (adjusted_clrWpd x) (enables_request ⟨rfl, rfl⟩)

theorem kept_drain (pin : Nat) (od : Bool) (x : IoMux) (a : Bool) (h : PadKept pin a x) :
    PadKept pin a (if od then x.setOd.2 else x.clrOd.2) := by
  split
  · exact h.flag (adjusted_setOd x) (enables_request ⟨rfl, rfl⟩)
  · exact h.flag (adjusted_clrOd x) (enables_request ⟨rfl, rfl⟩)

/-- The open-drain bit of the register is read by the full update only. -/
theorem BoardKept.padDriver {used : Nat → Bool} {b : Board} (h : BoardKept used b)
    (f : Nat → Bool) : BoardKept used (b.onGpio fun d => { d with padDriver := f }) where
  synced :=
    { cur := h.synced.cur
      quiet := h.synced.quiet
      folded := by
        show ({ b.m.gpio with padDriver := f } : GpioDev).folded = { b.m.gpio with padDriver := f }
        exact GpioDev.folded_eq h.synced.out_folded h.synced.enable_folded }
  sel := h.sel
  pinZero := h.pinZero
  pads := h.pads

/-- A change of the output levels, served. -/
theorem BoardKept.changeOut {used : Nat → Bool} {b : Board} (h : BoardKept used b)
    (w : Port → Port) : BoardKept used { b with m := b.m.change (.out w) } :=
  ⟨h.synced.change h.legal (.out w), h.sel, h.pinZero, h.pads⟩

/-- A change of the directions, when it does not enable pin 0. -/
theorem BoardKept.changeEnable {used : Nat → Bool} {b : Board} (h : BoardKept used b)
    {w : Port → Port} (hw : (w b.m.gpio.enable).applycs.data.bit 0 = false) :
    BoardKept used { b with m := b.m.change (.enable w) } :=
  ⟨h.synced.change h.legal (.enable w), h.sel, hw, h.pads⟩

/-- The full update. -/
theorem BoardKept.fullUpdate {used : Nat → Bool} {b : Board} (h : BoardKept used b) :
    BoardKept used (b.update .update) := by
  apply BoardKept.settlePads
  have hgpio : b.m.fullUpdate.gpio = b.m.gpio := h.synced.folded
  refine ⟨Matrix.synced_fullUpdate b.m, ?_, ?_, ?_⟩
  · show ∀ q, b.m.fullUpdate.gpio.funcOutSel q = 256
    rw [hgpio]
    exact h.sel
  · show b.m.fullUpdate.gpio.enable.data.bit 0 = false
    rw [hgpio]
    exact h.pinZero
  · intro q hq
    show PadKept q _ (if getgpio q then _ else b.m.pads q)
    rw [if_pos hq]
    exact kept_drain q _ _ _ (h.pads q hq)

/-! ## §4 — the driver, in these terms -/

theorem valid_ne_zero {pin : Nat} (h : gpioIsValidGpio pin = true) : pin ≠ 0 ∧ pin < 40 := by
  unfold gpioIsValidGpio at h
  have h' : pin < 40 ∧ gpioPinMuxReg.getD pin 0 ≠ 0 := by simpa using h
  refine ⟨?_, h'.1⟩
  rintro rfl
  exact h'.2 rfl

/-- With every output selected as GPIO, selecting one so again changes nothing. -/
theorem BoardKept.reselect {used : Nat → Bool} {b : Board} (h : BoardKept used b) (pin : Nat) :
    (fun q => if q = pin then BitVec.ofNat 9 sigGpioOutIdx else b.m.gpio.funcOutSel q) =
      b.m.gpio.funcOutSel := by
  funext q
  split
  · rw [h.sel q]
    rfl
  · rfl

theorem BoardKept.gpioOutputDisable_eq {used : Nat → Bool} {b : Board} (h : BoardKept used b)
    {pin : Nat} (hv : gpioIsValidGpio pin = true) :
    b.gpioOutputDisable pin =
      ({ b with m := b.m.change (.enable fun p => { p with w1tc := p.w1tc.assign pin }) } :
        Board).settlePads := by
  have hwrite : (b.onGpio fun d =>
      { d with
        enable := { d.enable with w1tc := d.enable.w1tc.assign pin }
        funcOutSel := fun q => if q = pin then BitVec.ofNat 9 sigGpioOutIdx else d.funcOutSel q }) =
      { b with m := b.m.writeEnable fun p => { p with w1tc := p.w1tc.assign pin } } := by
    show ({ b with
      m := { b.m with
        gpio := { b.m.gpio with
          enable := { b.m.gpio.enable with w1tc := b.m.gpio.enable.w1tc.assign pin }
          funcOutSel := fun q =>
            if q = pin then BitVec.ofNat 9 sigGpioOutIdx else b.m.gpio.funcOutSel q } } } : Board) = _
    rw [h.reselect pin]
    rfl
  unfold gpioOutputDisable
  rw [hv, hwrite]
  rfl

theorem BoardKept.gpioMatrixOut_eq {used : Nat → Bool} {b : Board} (h : BoardKept used b)
    {pin : Nat} (hpin : pin < 40) : gpioMatrixOut pin sigGpioOutIdx b = b.update .update := by
  unfold gpioMatrixOut
  rw [if_neg (Nat.not_le.mpr hpin)]
  show Board.update .update (b.onGpio fun d => { d with funcOutSel := _ }) = _
  have hid : (b.onGpio fun d =>
      { d with funcOutSel := fun q =>
          if q = pin then BitVec.ofNat 9 sigGpioOutIdx else d.funcOutSel q }) = b := by
    show ({ b with m := { b.m with gpio := { b.m.gpio with funcOutSel := _ } } } : Board) = b
    rw [h.reselect pin]
  rw [hid]

theorem BoardKept.gpioOutputDisable {used : Nat → Bool} {b : Board} (h : BoardKept used b)
    (pin : Nat) : BoardKept used (b.gpioOutputDisable pin) := by
  cases hv : gpioIsValidGpio pin with
  | false =>
    unfold Board.gpioOutputDisable
    rw [hv]
    exact h
  | true =>
    rw [h.gpioOutputDisable_eq hv]
    apply (h.changeEnable _).settlePads
    show ({ b.m.gpio.enable with w1tc := b.m.gpio.enable.w1tc.assign pin } : Port).applycs.data.bit 0
      = false
    rw [Port.bit_clear h.synced.enable_folded (valid_ne_zero hv).2, h.pinZero]
    split <;> rfl

/-- An accepted `gpio_output_enable`: the bit, served, and the full update. -/
theorem BoardKept.enabled {used : Nat → Bool} {b : Board} (h : BoardKept used b) {pin : Nat}
    (hv : gpioIsValidOutputGpio pin = true) :
    ∃ b₁, BoardKept used b₁ ∧ b.gpioOutputEnable pin = b₁.update .update ∧
      b₁.m.gpio.enable.data.bit pin = true := by
  have hvalid : gpioIsValidGpio pin = true := by
    unfold gpioIsValidOutputGpio at hv
    exact (Bool.and_eq_true_iff.mp hv).1
  obtain ⟨hne, hlt⟩ := valid_ne_zero hvalid
  have hbits := fun q => Port.bit_set h.synced.enable_folded hlt q
  have hkept : BoardKept used
      ({ b with m := b.m.change (.enable fun p => { p with w1ts := p.w1ts.assign pin }) } :
        Board).settlePads := by
    apply (h.changeEnable _).settlePads
    show ({ b.m.gpio.enable with w1ts := b.m.gpio.enable.w1ts.assign pin } : Port).applycs.data.bit 0
      = false
    rw [hbits 0, if_neg (Ne.symm hne), h.pinZero]
  refine ⟨_, hkept, ?_, ?_⟩
  · rw [← hkept.gpioMatrixOut_eq hlt]
    unfold Board.gpioOutputEnable
    rw [hv]
    rfl
  · show ({ b.m.gpio.enable with w1ts := b.m.gpio.enable.w1ts.assign pin } : Port).applycs.data.bit pin
      = true
    rw [hbits pin, if_pos rfl]

theorem BoardKept.gpioOutputEnable {used : Nat → Bool} {b : Board} (h : BoardKept used b)
    (pin : Nat) : BoardKept used (b.gpioOutputEnable pin) := by
  cases hv : gpioIsValidOutputGpio pin with
  | false =>
    unfold Board.gpioOutputEnable
    rw [hv]
    exact h
  | true =>
    obtain ⟨b₁, hkept, heq, _⟩ := h.enabled hv
    rw [heq]
    exact hkept.fullUpdate

theorem BoardKept.gpioSetInput {used : Nat → Bool} {b : Board} (h : BoardKept used b) (pin : Nat) :
    BoardKept used (b.gpioSetInput pin) := by
  unfold Board.gpioSetInput
  split
  · exact h
  · split
    · exact h
    · exact h.onPad pin (kept_setIe pin)

theorem BoardKept.gpioClrInput {used : Nat → Bool} {b : Board} (h : BoardKept used b) (pin : Nat) :
    BoardKept used (b.gpioClrInput pin) := by
  unfold Board.gpioClrInput
  split
  · exact h
  · split
    · exact h
    · exact h.onPad pin (kept_clrIe pin)

/-! ## §5 — the calls -/

/-- A call that asks for the analog function of a pin. -/
def takesAnalog (pin : Nat) : ApiCall → Bool
  | .pinMode q mode => decide (q = pin ∧ mode = modeAnalog)
  | .analogRead q => decide (q = pin)
  | _ => false

/-- The pins such a call has been made for. -/
def usedAnalog (cs : List ApiCall) (pin : Nat) : Bool := cs.any (takesAnalog pin)

/-- Which pins count as used is of interest only on the pads that have the analog function. -/
theorem BoardKept.congr {used used' : Nat → Bool} {b : Board} (h : BoardKept used b)
    (hu : ∀ q, getgpio q = true → (used' q && padAnaok q) = (used q && padAnaok q)) :
    BoardKept used' b := by
  refine ⟨h.synced, h.sel, h.pinZero, ?_⟩
  intro q hq
  rw [hu q hq]
  exact h.pads q hq

/-- Every pad belongs to a valid pin of the API, and every pad that has the analog function to a
channel. -/
theorem valid_of_getgpio {pin : Nat} (h : getgpio pin = true) :
    digitalPinIsValid pin = true ∧ (padAnaok pin = true → 0 ≤ digitalPinToAnalogChannel pin) ∧
      (pin ≠ 0 → gpioIsValidGpio pin = true) := by
  have hmem : pin ∈ gpioPins := by
    unfold getgpio at h
    simpa using h
  have hall : ∀ p ∈ gpioPins, digitalPinIsValid p = true ∧
      (padAnaok p = true → 0 ≤ digitalPinToAnalogChannel p) ∧
      (p ≠ 0 → gpioIsValidGpio p = true) := by decide
  exact hall pin hmem

/-- The analog request: the pad is used from now on. -/
theorem BoardKept.setAnalog {used : Nat → Bool} {b : Board} (h : BoardKept used b) (pin : Nat) :
    BoardKept (fun q => used q || decide (pin = q)) (b.onPad pin fun x => x.setFunction .analog) where
  synced := ⟨h.synced.cur, h.synced.quiet, h.synced.folded⟩
  sel := h.sel
  pinZero := h.pinZero
  pads q hq := by
    show PadKept q _ (if q = pin then (b.m.pads q).setFunction .analog else b.m.pads q)
    split
    next heq =>
      subst heq
      have hset := (h.pads q hq).setAnalog fun hboth => (Bool.and_eq_true_iff.mp hboth).2
      simpa using hset
    next hne =>
      have hkeep := h.pads q hq
      simpa [Ne.symm hne] using hkeep

/-- A digital mode. -/
theorem BoardKept.digitalMode {used : Nat → Bool} {b : Board} (h : BoardKept used b) (pin : Nat)
    (mode : BitVec 8) :
    BoardKept used
      (let b := if asks mode modeInput then b.gpioSetInput pin else b.gpioClrInput pin
      let b := if asks mode modeOutput then b.gpioOutputEnable pin else b.gpioOutputDisable pin
      let b := b.onPad pin fun x => if asks mode modePullup then x.setWpu.2 else x.clrWpu.2
      let b := b.onPad pin fun x => if asks mode modePulldown then x.setWpd.2 else x.clrWpd.2
      let b := b.onGpio fun d =>
        { d with
          padDriver := fun q => if q = pin then asks mode modeOpenDrain else d.padDriver q }
      b.onPad pin fun x => if asks mode modeOpenDrain then x.setOd.2 else x.clrOd.2) := by
  have hin : BoardKept used (if asks mode modeInput then b.gpioSetInput pin else b.gpioClrInput pin) := by
    split
    · exact h.gpioSetInput pin
    · exact h.gpioClrInput pin
  revert hin
  generalize (if asks mode modeInput then b.gpioSetInput pin else b.gpioClrInput pin) = b₁
  intro hin
  have hout : BoardKept used
      (if asks mode modeOutput then b₁.gpioOutputEnable pin else b₁.gpioOutputDisable pin) := by
    split
    · exact hin.gpioOutputEnable pin
    · exact hin.gpioOutputDisable pin
  have hup := hout.onPad pin (kept_pull pin (asks mode modePullup))
  have hdown := hup.onPad pin (kept_pulldown pin (asks mode modePulldown))
  exact (hdown.padDriver _).onPad pin (kept_drain pin (asks mode modeOpenDrain))

theorem BoardKept.pinMode {used : Nat → Bool} {b : Board} (h : BoardKept used b) (pin : Nat)
    (mode : BitVec 8) :
    BoardKept (fun q => used q || takesAnalog q (.pinMode pin mode)) (b.pinMode pin mode) := by
  apply BoardKept.settlePads
  -- a refused call is one on a pin without a pad
  have hrefused : getgpio pin = false → BoardKept
      (fun q => used q || takesAnalog q (.pinMode pin mode)) b := by
    intro hno
    apply h.congr
    intro q hq
    have hne : pin ≠ q := by
      rintro rfl
      rw [hno] at hq
      cases hq
    simp [takesAnalog, hne]
  unfold pinModeNodel
  cases hpad : getgpio pin with
  | false =>
    split
    · exact hrefused hpad
    · exact hrefused hpad
  | true =>
    rw [(valid_of_getgpio hpad).1]
    by_cases hana : mode = modeAnalog
    · subst hana
      apply (h.setAnalog pin).congr
      intro q _
      simp [takesAnalog]
    · simp only [Bool.not_true, Bool.false_eq_true, if_false, if_neg hana]
      apply (h.digitalMode pin mode).congr
      intro q _
      simp [takesAnalog, hana]

/-- `digitalWrite` changes the output levels, or nothing at all. -/
theorem digitalWrite_eq (b : Board) (pin : Nat) (val : Bool) :
    ∃ w : Port → Port, b.digitalWrite pin val =
        ({ b with m := b.m.change (.out w) } : Board).settlePads ∧
      (pin < 34 → ∀ p : Port, w p =
        if val then { p with w1ts := p.w1ts.assign pin } else { p with w1tc := p.w1tc.assign pin }) := by
  by_cases hpin : pin < 34
  · cases val with
    | true =>
      refine ⟨fun p => { p with w1ts := p.w1ts.assign pin }, ?_, fun _ _ => rfl⟩
      unfold digitalWrite onGpio
      rw [digitalWriteNodel_high hpin]
      rfl
    | false =>
      refine ⟨fun p => { p with w1tc := p.w1tc.assign pin }, ?_, fun _ _ => rfl⟩
      unfold digitalWrite onGpio
      rw [digitalWriteNodel_low hpin]
      rfl
  · refine ⟨fun p => p, ?_, fun hlt => absurd hlt hpin⟩
    have hlt : ¬ pin < 32 := fun hlt => hpin (by omega)
    have hsame : digitalWriteNodel pin val b.m.gpio = b.m.gpio := by
      simp [digitalWriteNodel, hpin, hlt]
    unfold digitalWrite onGpio
    rw [hsame]
    rfl

theorem BoardKept.digitalWrite {used : Nat → Bool} {b : Board} (h : BoardKept used b) (pin : Nat)
    (val : Bool) : BoardKept used (b.digitalWrite pin val) := by
  obtain ⟨w, heq, _⟩ := digitalWrite_eq b pin val
  rw [heq]
  exact (h.changeOut w).settlePads

/-- **A call keeps the board**, and the pins it asks the analog function of count as used. -/
theorem BoardKept.call {used : Nat → Bool} {b : Board} (h : BoardKept used b) (c : ApiCall) :
    BoardKept (fun q => used q || takesAnalog q c) (b.call c) := by
  cases c with
  | pinMode pin mode => exact h.pinMode pin mode
  | digitalWrite pin val =>
    apply (h.digitalWrite pin val).congr
    intro q _
    simp [takesAnalog]
  | digitalRead pin =>
    apply h.congr
    intro q _
    simp [takesAnalog]
  | analogRead pin =>
    show BoardKept _ (if digitalPinToAnalogChannel pin < 0 then b else b.pinMode pin modeAnalog)
    split
    next hnone =>
      -- a pin without a channel has no analog function to take
      apply h.congr
      intro q hq
      by_cases hpq : pin = q
      · subst hpq
        have hana : padAnaok pin = false := by
          cases hok : padAnaok pin with
          | false => rfl
          | true => exact absurd hnone (Int.not_lt.mpr ((valid_of_getgpio hq).2.1 hok))
        rw [hana, Bool.and_false, Bool.and_false]
      · simp [takesAnalog, hpq]
    next =>
      apply (h.pinMode pin modeAnalog).congr
      intro q _
      simp [takesAnalog]

/-- Any history of calls. -/
theorem BoardKept.calls {used : Nat → Bool} {b : Board} (h : BoardKept used b) (cs : List ApiCall) :
    BoardKept (fun q => used q || usedAnalog cs q) (cs.foldl Board.call b) := by
  induction cs generalizing used b with
  | nil =>
    apply h.congr
    intro q _
    simp [usedAnalog]
  | cons c cs ih =>
    apply (ih (h.call c)).congr
    intro q _
    simp [usedAnalog, Bool.or_assoc]

/-- The pads as the board constructs them, with the matrix on function 3. -/
theorem newPad_kept (others : Nat → Nat → Bool × Bool) (pin : Nat) :
    PadKept pin false (newPad others pin) where
  copied := copied_new _ _ _ _ _ _ _
  function := rfl
  modes := rfl
  anaok := rfl
  fin := by
    show 2 < ((List.range (padFunctions pin)).map _).length
    rw [List.length_map, List.length_range]
    unfold padFunctions
    split
    · decide
    · split <;> decide
  fen := by
    show 2 < ((List.range (padFunctions pin)).map _).length
    rw [List.length_map, List.length_range]
    unfold padFunctions
    split
    · decide
    · split <;> decide
  oe := by
    show (has (padInitial pin) gpiomodeOutput || has (padInitial pin) gpiomodeInout) = false
    unfold padInitial
    split
    · rfl
    · split
      · rfl
      · split <;> rfl
  forceoe := rfl

/-- After construction every output is a released GPIO. -/
theorem selected_new (pads : Nat → IoMux) (pin : Nat) :
    selected (Matrix.new pads).gpio pin = muxoutDriveZ := by
  have hbit : (Matrix.new pads).gpio.enable.data.bit pin = false := Bits.bit_zero pin
  unfold selected
  rw [hbit]
  rfl

theorem zero_applycs : Port.zero.applycs = Port.zero := by decide

/-- **The board after power-up**, with no pin used. -/
theorem kept_new (periph : Nat → Bool × Bool) (others : Nat → Nat → Bool × Bool) :
    BoardKept (fun _ => false) (new periph others) := by
  apply BoardKept.settlePads
  exact
    { synced :=
        { cur := fun pin _ => (selected_new _ pin).symm
          quiet := fun _ => rfl
          folded := GpioDev.folded_eq zero_applycs zero_applycs }
      sel := fun _ => rfl
      pinZero := Bits.bit_zero 0
      pads := fun q _ => newPad_kept others q }

/-! ## §6 — end to end -/

/-- Making the pin an output and writing it drives the pad strongly, at either level; making it an
input releases the pad, and reading it gives what an outside driver of either level puts there. -/
def Works (b : Board) (pin : Nat) : Prop :=
  (pin < 34 → ∀ val, (((b.pinMode pin modeOutput).digitalWrite pin val).m.pads pin).pad =
    GnLogic.strong val) ∧
  (((b.pinMode pin modeInput).m.pads pin).pad = .logicZ ∧
    ∀ val,
      (b.pinMode pin modeInput).digitalRead pin
        (.resolve [((b.pinMode pin modeInput).m.pads pin).pad, .strong val]) = val ∧
      (b.pinMode pin modeInput).digitalRead pin
        (.resolve [.strong val, ((b.pinMode pin modeInput).m.pads pin).pad]) = val)

/-- What a pad shows once the board has settled: what its flags make of the level and the enable its
multiplexer feeds it. -/
theorem BoardKept.shows {used : Nat → Bool} {b : Board} (h : BoardKept used b) {pin : Nat}
    (hpad : getgpio pin = true) (ha : (used pin && padAnaok pin) = false) :
    (b.settlePads.m.pads pin).pad =
      (b.m.pads pin).padValue (transfer b.periph (b.m.function pin).cur).2
        (transfer b.periph (b.m.function pin).cur).1 := by
  have hkept := h.pads pin hpad
  rw [ha] at hkept
  obtain ⟨hfed, hsettled, hlevel, henable, _, hwpu, hwpd, hod⟩ :=
    hkept.feed (transfer b.periph (b.m.function pin).cur).1 (transfer b.periph (b.m.function pin).cur).2
  show (if getgpio pin then _ else b.m.pads pin).pad = _
  rw [if_pos hpad, hfed.copied.configured hsettled]
  unfold configured
  have hen : (feedPad (transfer b.periph (b.m.function pin).cur).1
      (transfer b.periph (b.m.function pin).cur).2 (b.m.pads pin)).funcEnable =
      (transfer b.periph (b.m.function pin).cur).2 := by
    unfold funcEnable
    rw [hfed.function, hfed.forceoe]
    show (if 2 < _ then _ else false) = _
    rw [if_pos hfed.fin]
    exact henable
  have hlev : (feedPad (transfer b.periph (b.m.function pin).cur).1
      (transfer b.periph (b.m.function pin).cur).2 (b.m.pads pin)).funcLevel =
      (transfer b.periph (b.m.function pin).cur).1 := by
    unfold funcLevel
    rw [hfed.function]
    show (if 2 < _ then _ else false) = _
    rw [if_pos hfed.fin]
    exact hlevel
  rw [hen, hlev]
  exact padValue_congr (hfed.function.trans hkept.function.symm) hwpu hwpd hod _ _

/-- A pad without pulls and open drain drives strongly or not at all. -/
theorem padValue_plain {x : IoMux} (hf : x.function ≠ .analog)
    (hplain : x.wpu = false ∧ x.wpd = false ∧ x.od = false) (enable level : Bool) :
    x.padValue enable level = if enable then GnLogic.strong level else .logicZ := by
  unfold padValue
  rw [if_neg hf, hplain.1, hplain.2.1, hplain.2.2]
  cases enable <;> cases level <;> rfl

/-- Any pad whose output is not enabled. -/
theorem padValue_released (x : IoMux) (level val : Bool) :
    x.padValue false level ≠ GnLogic.strong val := by
  unfold padValue
  cases val <;> cases x.wpu <;> cases x.wpd <;> simp [GnLogic.strong] <;> split <;> simp

/-- The end of a digital mode that asks for neither pulls nor open drain. -/
def plain (pin : Nat) (b : Board) : Board :=
  (((b.onPad pin fun x => x.clrWpu.2).onPad pin fun x => x.clrWpd.2).onGpio fun d =>
    { d with padDriver := fun q => if q = pin then false else d.padDriver q }).onPad pin fun x => x.clrOd.2

theorem BoardKept.plain {used : Nat → Bool} {b : Board} (h : BoardKept used b) (pin : Nat) :
    BoardKept used (b.plain pin) :=
  (((h.onPad pin (kept_pull pin false)).onPad pin (kept_pulldown pin false)).padDriver _).onPad pin
    (kept_drain pin false)

@[simp] theorem pads_plain (pin : Nat) (b : Board) :
    (b.plain pin).m.pads pin = (b.m.pads pin).clrWpu.2.clrWpd.2.clrOd.2 := by
  simp [plain, onPad, onGpio]

theorem ie_plain (x : IoMux) : x.clrWpu.2.clrWpd.2.clrOd.2.ie = x.ie := by
  have h₁ : x.clrWpu.2.clrWpd.2.clrOd.2.ie = x.clrWpu.2.clrWpd.2.ie := by
    rcases request_cases _ _ _ _ x.clrWpu.2.clrWpd.2 with he | he <;> rw [clrOd, he]
  have h₂ : x.clrWpu.2.clrWpd.2.ie = x.clrWpu.2.ie := by
    rcases request_cases _ _ _ _ x.clrWpu.2 with he | he <;> rw [clrWpd, he]
  have h₃ : x.clrWpu.2.ie = x.ie := by
    rcases request_cases _ _ _ _ x with he | he <;> rw [clrWpu, he]
  rw [h₁, h₂, h₃]

theorem pinMode_output (b : Board) {pin : Nat} (hpad : getgpio pin = true) :
    b.pinMode pin modeOutput =
      (((b.gpioClrInput pin).gpioOutputEnable pin).plain pin).settlePads := by
  unfold Board.pinMode pinModeNodel
  rw [(valid_of_getgpio hpad).1, hpad]
  rfl

theorem pinMode_input (b : Board) {pin : Nat} (hpad : getgpio pin = true) :
    b.pinMode pin modeInput =
      (((b.gpioSetInput pin).gpioOutputDisable pin).plain pin).settlePads := by
  unfold Board.pinMode pinModeNodel
  rw [(valid_of_getgpio hpad).1, hpad]
  rfl

/-- What the multiplexer of a pin passes on when every output is selected as GPIO. -/
theorem BoardKept.transfer_eq {used : Nat → Bool} {b : Board} (h : BoardKept used b) {pin : Nat}
    (hpad : getgpio pin = true) :
    transfer b.periph (b.m.function pin).cur =
      (b.m.gpio.enable.data.bit pin && b.m.gpio.out.data.bit pin, b.m.gpio.enable.data.bit pin) := by
  rw [h.synced.cur pin ((getmux_eq_getgpio pin).trans hpad)]
  unfold selected
  rw [if_pos (h.sel pin)]
  cases b.m.gpio.enable.data.bit pin <;> cases b.m.gpio.out.data.bit pin <;> rfl

/-- The flags of a pad are the same after it has settled. -/
theorem BoardKept.flags_settlePads {used : Nat → Bool} {b : Board} (h : BoardKept used b) {pin : Nat}
    (hpad : getgpio pin = true) :
    (b.settlePads.m.pads pin).ie = (b.m.pads pin).ie ∧
      (b.settlePads.m.pads pin).wpu = (b.m.pads pin).wpu ∧
      (b.settlePads.m.pads pin).wpd = (b.m.pads pin).wpd ∧
      (b.settlePads.m.pads pin).od = (b.m.pads pin).od := by
  obtain ⟨_, _, _, _, hflags⟩ := (h.pads pin hpad).feed
    (transfer b.periph (b.m.function pin).cur).1 (transfer b.periph (b.m.function pin).cur).2
  have heq : b.settlePads.m.pads pin = feedPad (transfer b.periph (b.m.function pin).cur).1
      (transfer b.periph (b.m.function pin).cur).2 (b.m.pads pin) := if_pos hpad
  rw [heq]
  exact hflags

/-- What a pin shows after `digitalWrite`. -/
theorem BoardKept.written {used : Nat → Bool} {b : Board} (h : BoardKept used b) {pin : Nat}
    (hpad : getgpio pin = true) (ha : (used pin && padAnaok pin) = false) (hpin : pin < 34)
    (val : Bool) :
    ((b.digitalWrite pin val).m.pads pin).pad =
      (b.m.pads pin).padValue (b.m.gpio.enable.data.bit pin) (b.m.gpio.enable.data.bit pin && val) := by
  obtain ⟨w, heq, hw⟩ := digitalWrite_eq b pin val
  have hchanged := h.changeOut w
  have hbit : (w b.m.gpio.out).applycs.data.bit pin = val := by
    have hlt : pin < 40 := by omega
    rw [hw hpin]
    cases val with
    | true => exact (Port.bit_set h.synced.out_folded hlt pin).trans (if_pos rfl)
    | false => exact (Port.bit_clear h.synced.out_folded hlt pin).trans (if_pos rfl)
  rw [heq, hchanged.shows hpad ha, hchanged.transfer_eq hpad]
  show (b.m.pads pin).padValue (b.m.gpio.enable.data.bit pin)
    (b.m.gpio.enable.data.bit pin && (w b.m.gpio.out).applycs.data.bit pin) = _
  rw [hbit]

/-- **An output pin drives what is written to it**, unless it is pin 0. -/
theorem BoardKept.output_drives {used : Nat → Bool} {b : Board} (h : BoardKept used b) {pin : Nat}
    (hpad : getgpio pin = true) (ha : (used pin && padAnaok pin) = false) (hpin : pin < 34)
    (hne : pin ≠ 0) (val : Bool) :
    (((b.pinMode pin modeOutput).digitalWrite pin val).m.pads pin).pad = GnLogic.strong val := by
  have hvalid : gpioIsValidOutputGpio pin = true := by
    unfold gpioIsValidOutputGpio
    rw [(valid_of_getgpio hpad).2.2 hne, decide_eq_true hpin]
    rfl
  obtain ⟨b₁, hb₁, heq, hbit⟩ := (h.gpioClrInput pin).enabled hvalid
  rw [pinMode_output b hpad, heq]
  have hfull : BoardKept used (b₁.update .update) := hb₁.fullUpdate
  have hplain := hfull.plain pin
  have hsettled := hplain.settlePads
  -- the full update left the enable bit where the request had put it
  have henable : (((b₁.update .update).plain pin).settlePads).m.gpio.enable.data.bit pin = true := by
    show b₁.m.gpio.folded.enable.data.bit pin = true
    rw [hb₁.synced.folded]
    exact hbit
  have hflags := hplain.flags_settlePads hpad
  have hclear := (hfull.pads pin hpad).plain
  rw [hsettled.written hpad ha hpin, henable, Bool.true_and]
  apply padValue_plain
  · rw [(hsettled.pads pin hpad).function, ha]
    simp
  · rw [hflags.2.1, hflags.2.2.1, hflags.2.2.2, pads_plain]
    exact hclear

/-- **An input pin is released and reads its driver.** -/
theorem BoardKept.input_reads {used : Nat → Bool} {b : Board} (h : BoardKept used b) {pin : Nat}
    (hpad : getgpio pin = true) (ha : (used pin && padAnaok pin) = false) (hne : pin ≠ 0) :
    ((b.pinMode pin modeInput).m.pads pin).pad = .logicZ ∧
      ∀ val, (b.pinMode pin modeInput).digitalRead pin (GnLogic.strong val) = val := by
  have hvalid := (valid_of_getgpio hpad).2.2 hne
  have hin := h.gpioSetInput pin
  have hie : ((b.gpioSetInput pin).m.pads pin).ie = true := by
    unfold Board.gpioSetInput
    rw [hvalid, hpad]
    show (if pin = pin then (b.m.pads pin).setIe.2 else b.m.pads pin).ie = true
    rw [if_pos rfl]
    exact (h.pads pin hpad).setIe_ie
  have hdisabled := hin.gpioOutputDisable pin
  have hplain := hdisabled.plain pin
  have hsettled := hplain.settlePads
  rw [pinMode_input b hpad]
  have hbit : ((b.gpioSetInput pin).gpioOutputDisable pin).m.gpio.enable.data.bit pin = false := by
    rw [hin.gpioOutputDisable_eq hvalid]
    exact (Port.bit_clear hin.synced.enable_folded (valid_ne_zero hvalid).2 pin).trans (if_pos rfl)
  have hkeep : (((b.gpioSetInput pin).gpioOutputDisable pin).m.pads pin).ie = true := by
    rw [hin.gpioOutputDisable_eq hvalid]
    have hserved := hin.changeEnable (w := fun p => { p with w1tc := p.w1tc.assign pin }) (by
      show ({ (b.gpioSetInput pin).m.gpio.enable with
        w1tc := (b.gpioSetInput pin).m.gpio.enable.w1tc.assign pin } : Port).applycs.data.bit 0 = false
      rw [Port.bit_clear hin.synced.enable_folded (valid_ne_zero hvalid).2, hin.pinZero]
      split <;> rfl)
    rw [(hserved.flags_settlePads hpad).1]
    exact hie
  have hfun :
      ((((b.gpioSetInput pin).gpioOutputDisable pin).plain pin).m.pads pin).function ≠ .analog := by
    rw [(hplain.pads pin hpad).function, ha]
    simp
  constructor
  · rw [hplain.shows hpad ha, hplain.transfer_eq hpad]
    show IoMux.padValue _
      (((b.gpioSetInput pin).gpioOutputDisable pin).m.gpio.enable.data.bit pin) _ = _
    rw [hbit, padValue_plain hfun]
    · rfl
    · rw [pads_plain]
      exact (hdisabled.pads pin hpad).plain
  · intro val
    have hflag : (((((b.gpioSetInput pin).gpioOutputDisable pin).plain pin).settlePads).m.pads pin).ie
        = true := by
      rw [(hplain.flags_settlePads hpad).1, pads_plain, ie_plain]
      exact hkeep
    have hfun' : (((((b.gpioSetInput pin).gpioOutputDisable pin).plain pin).settlePads).m.pads
        pin).function ≠ .analog := by
      rw [(hsettled.pads pin hpad).function, ha]
      simp
    unfold digitalRead getVal
    rw [hpad, if_neg hfun', hflag]
    cases val <;> rfl

/-- With the matrix as the calls keep it, the pin works exactly when it is not pin 0 and its pad has
not been taken by the analog function. -/
theorem BoardKept.works_iff {used : Nat → Bool} {b : Board} (h : BoardKept used b) {pin : Nat}
    (hpad : getgpio pin = true) :
    Works b pin ↔ pin ≠ 0 ∧ (used pin && padAnaok pin) = false := by
  constructor
  · rintro ⟨hout, _, hread⟩
    have hana : (used pin && padAnaok pin) = false := by
      cases ha : (used pin && padAnaok pin) with
      | false => rfl
      | true =>
        -- the pad is still analog, and an analog pad reads low
        exfalso
        obtain ⟨hused, hok⟩ := Bool.and_eq_true_iff.mp ha
        have hfun := ((h.pinMode pin modeInput).pads pin hpad).function
        simp only [hused, hok, Bool.true_or, Bool.and_self, if_true] at hfun
        have hhigh := (hread true).1
        unfold digitalRead getVal at hhigh
        rw [hpad, if_pos hfun] at hhigh
        cases hhigh
    refine ⟨?_, hana⟩
    rintro rfl
    have hmode : BoardKept used (b.pinMode 0 modeOutput) := by
      apply (h.pinMode 0 modeOutput).congr
      intro q _
      simp [takesAnalog, modeOutput, modeAnalog]
    have hpad0 := hout (by decide) true
    rw [hmode.written hpad hana (by decide), hmode.pinZero] at hpad0
    exact padValue_released _ _ _ hpad0
  · rintro ⟨hne, ha⟩
    obtain ⟨hreleased, hread⟩ := h.input_reads hpad ha hne
    refine ⟨fun hpin val => h.output_drives hpad ha hpin hne val, hreleased, fun val => ?_⟩
    rw [hreleased, (GnLogic.resolve_released val).1, (GnLogic.resolve_released val).2]
    exact ⟨hread val, hread val⟩

/-- **The pin API end to end.** After any history of calls from power-up on, a pin with a pad works as
output and as input if and only if it is not pin 0, and is not one of the pins from 32 on that an
analog call of the history was made for. -/
theorem pin_api_works (periph : Nat → Bool × Bool) (others : Nat → Nat → Bool × Bool)
    (cs : List ApiCall) (pin : Nat) (hpad : getgpio pin = true) :
    Works (cs.foldl Board.call (new periph others)) pin ↔
      pin ≠ 0 ∧ ¬ (32 ≤ pin ∧ usedAnalog cs pin = true) := by
  rw [((kept_new periph others).calls cs).works_iff hpad]
  apply and_congr_right
  intro _
  rw [Bool.false_or, Bool.and_eq_false_iff]
  unfold padAnaok
  rw [decide_eq_false_iff_not, not_and_or, or_comm, Bool.not_eq_true]

/-- Pin 4, which has been an open-drain output with a pull-up before. -/
theorem pin_api_works_openDrain :
    Works ([ApiCall.pinMode 4 0x16, .digitalWrite 4 true, .pinMode 33 modeAnalog].foldl Board.call
      (new (fun _ => (false, false)) fun _ _ => (false, false))) 4 :=
  (pin_api_works (fun _ => (false, false)) (fun _ _ => (false, false)) _ 4 rfl).mpr
    ⟨by decide, by decide⟩

/-- Pin 0 right after power-up, and pin 32 after it has been read as analog, work neither way. -/
theorem pin_api_works_refused :
    ¬ Works (new (fun _ => (false, false)) fun _ _ => (false, false)) 0 ∧
      ¬ Works ([ApiCall.analogRead 32].foldl Board.call
        (new (fun _ => (false, false)) fun _ _ => (false, false))) 32 := by
  constructor
  · intro h
    have hhigh := h.1 (by decide) true
    revert hhigh
    decide +kernel
  · intro h
    have hhigh := h.1 (by decide) true
    revert hhigh
    decide +kernel

end Board

end Espmod.Gpio
