import PicoSoc.System.SpiMemio

set_option autoImplicit false

/-! # Bytes on the flash line

The engine and the flash on one data line exchange a byte in sixteen cycles, highest bit first:
while `clk` is low the engine takes the flash's bit, and with the rising edge the flash takes the
engine's. `Sending` says where in the byte they are, `Waiting` that there is none. -/

namespace PicoSoc.System

namespace SpiFlash

variable (memory : BitVec 24 → BitVec 8)

/-- After the byte `d`. -/
def finish (f : SpiFlash) (d : BitVec 8) : SpiFlash :=
  spiAction memory { f with buffer := d, bytecount := f.bytecount + 1 }

/-- `j` bits of the byte `d` have been shifted in. -/
def shifted (f : SpiFlash) (d : BitVec 8) (j : ℕ) : SpiFlash :=
  { f with buffer := (f.buffer ++ d).extractLsb' (8 - j) 8, bitcount := j }

/-- The flash between two bytes, not selected. -/
structure Deselected (f : SpiFlash) : Prop where
  bitcount : f.bitcount = 0
  bytecount : f.bytecount = 0
  buffer : f.buffer = 0

theorem Deselected.deselect {f : SpiFlash} (h : f.Deselected) : f.deselect = f := by
  obtain ⟨h₁, h₂, h₃⟩ := h
  cases f
  simp_all [SpiFlash.deselect]

theorem deselected_deselect (f : SpiFlash) : f.deselect.Deselected := ⟨rfl, rfl, rfl⟩

end SpiFlash

/-! ## Shift registers as windows -/

/-- Shifting in the next bit moves the window of eight bits down by one. -/
theorem window_shift (w : BitVec 16) (j : ℕ) (hj : j < 8) :
    (w.extractLsb' (8 - j) 8).extractLsb' 0 7 ++ BitVec.ofBool (w.getLsbD (7 - j))
      = w.extractLsb' (8 - (j + 1)) 8 := by
  apply BitVec.eq_of_getLsbD_eq
  intro k hk
  rw [BitVec.getLsbD_append]
  simp only [BitVec.getLsbD_extractLsb', BitVec.getLsbD_ofBool]
  by_cases hk0 : k = 0
  · subst hk0
    have hidx : 8 - (j + 1) = 7 - j := by omega
    simp [hidx]
  · have hidx : 8 - j + (k - 1) = 7 - j + k := by omega
    have hlt : k - 1 < 7 := by omega
    have hlt' : k - 1 < 8 := by omega
    simp [show ¬ k < 1 by omega, hidx, hlt, hlt', show k < 8 from hk]

theorem window_top (w : BitVec 16) (j : ℕ) :
    (w.extractLsb' (8 - j) 8).getLsbD 7 = w.getLsbD (8 - j + 7) := by
  simp

theorem append_low (a b : BitVec 8) (j : ℕ) (hj : j < 8) :
    (a ++ b).getLsbD (7 - j) = b.getLsbD (7 - j) := by
  rw [BitVec.getLsbD_append, if_pos (by omega)]

theorem append_high (a b : BitVec 8) (j : ℕ) (hj : j < 8) :
    (a ++ b).getLsbD (8 - j + 7) = a.getLsbD (7 - j) := by
  rw [BitVec.getLsbD_append, if_neg (by omega)]
  congr 1
  omega

/-! ## The engine on one line -/

namespace Xfer

/-- One data line and no dummy cycles. -/
structure OneLine (x : Xfer) : Prop where
  dummyCount : x.dummyCount = 0
  dspi : x.xferDspi = false
  qspi : x.xferQspi = false
  ddr : x.xferDdr = false
  lastFetch : x.lastFetch = true

namespace OneLine

variable {x : Xfer} (h : x.OneLine) (i : XferIn)
include h

theorem io0Oe : x.io0Oe = true := by
  simp [Xfer.io0Oe, single, h.dummyCount, h.dspi, h.qspi, h.ddr]

theorem io0Do : x.io0Do = x.obuffer.getLsbD 7 := by
  simp [Xfer.io0Do, single, h.dummyCount, h.dspi, h.qspi, h.ddr]

theorem next_low (hc : x.flashClk = false) :
    x.next i = ⟨x.obuffer, x.ibuffer.extractLsb' 0 7 ++ BitVec.ofBool i.io1, x.count,
      x.count == 0#4⟩ := by
  simp [Xfer.next, h.dummyCount, h.dspi, h.qspi, h.ddr, hc]

theorem next_high (hc : x.flashClk = true) :
    x.next i = ⟨x.obuffer.extractLsb' 0 7 ++ 0#1, x.ibuffer, countDown x.count 1#4,
      countDown x.count 1#4 == 0#4⟩ := by
  simp [Xfer.next, h.dummyCount, h.dspi, h.qspi, h.ddr, hc]

/-- While `clk` is low a bit is sampled. -/
theorem step_low (hc : x.flashClk = false) (hcsb : x.flashCsb = false) (hcount : x.count ≠ 0#4)
    (hr : i.resetn = true) :
    x.step i = { x with
      xferDdrQ := false, xferTagQ := x.xferTag, fetch := false, flashClk := true
      ibuffer := x.ibuffer.extractLsb' 0 7 ++ BitVec.ofBool i.io1 } := by
  have hn := h.next_low i hc
  have hready : x.dinReady i = false := by simp [dinReady, hn, hcount]
  simp [Xfer.step, hr, hn, h.dummyCount, h.ddr, hc, hcsb, hcount, hready, h.lastFetch]

/-- While `clk` is high the next bit is put on the line. -/
theorem step_high (hc : x.flashClk = true) (hcount : countDown x.count 1#4 ≠ 0#4)
    (hr : i.resetn = true) :
    x.step i = { x with
      xferDdrQ := false, xferTagQ := x.xferTag, fetch := false, flashClk := false
      obuffer := x.obuffer.extractLsb' 0 7 ++ 0#1, count := countDown x.count 1#4 } := by
  have hn := h.next_high i hc
  have hready : x.dinReady i = false := by simp [dinReady, hn, hcount]
  have hne : x.count ≠ 0#4 := by
    intro h0
    exact hcount (by simp [countDown, h0])
  have hnf : (countDown x.count 1#4 == 0#4) = false := by simpa using hcount
  simp [Xfer.step, hr, hn, h.dummyCount, h.ddr, hc, hne, hready, h.lastFetch, hnf]

/-- The engine asks for a byte when there is nothing left of the last one. -/
theorem next_fetch : (x.next i).fetch = true ↔
    if x.flashClk then countDown x.count 1#4 = 0#4 else x.count = 0#4 := by
  cases hc : x.flashClk
  · simp [h.next_low i hc]
  · simp [h.next_high i hc]

theorem step_take (hf : (x.next i).fetch = true) (hr : i.resetn = true) (hv : i.dinValid = true) :
    x.step i = { x with
      xferDdrQ := false, xferTagQ := x.xferTag, fetch := true
      flashCsb := false, flashClk := false, count := 8
      dummyCount := if i.dinRd then i.dinData.extractLsb' 0 4 else 0
      obuffer := i.dinData, xferTag := i.dinTag, xferCont := i.dinCont, xferDspi := i.dinDspi
      xferQspi := i.dinQspi, xferDdr := i.dinDdr, xferRd := i.dinRd } := by
  have hready : x.dinReady i = true := by simp [dinReady, hf, hr, hv]
  have hcount := (h.next_fetch i).mp hf
  cases hc : x.flashClk
  · rw [hc] at hcount
    simp only [Bool.false_eq_true, if_false] at hcount
    simp [Xfer.step, hr, hv, hf, hready, h.dummyCount, h.ddr, hcount, h.lastFetch]
  · have hn := h.next_high i hc
    by_cases h0 : x.count = 0#4
    · simp [Xfer.step, hr, hv, hf, hready, h.dummyCount, h.ddr, h0, h.lastFetch]
    · simp [Xfer.step, hr, hv, hready, h.dummyCount, h.ddr, h0, h.lastFetch, hn]
      simpa [hc] using hcount

theorem step_rest (hf : (x.next i).fetch = true) (hr : i.resetn = true) (hv : i.dinValid = false)
    (hcsb : x.count = 0#4 → x.flashClk = false) :
    ∃ ob, x.step i = { x with
      xferDdrQ := false, xferTagQ := x.xferTag, fetch := true, flashClk := false, count := 0
      obuffer := ob } := by
  have hcount := (h.next_fetch i).mp hf
  cases hc : x.flashClk
  · rw [hc] at hcount
    simp only [Bool.false_eq_true, if_false] at hcount
    exact ⟨x.obuffer, by simp [Xfer.step, hr, hv, hf, h.dummyCount, h.ddr, hcount, h.lastFetch, hc]⟩
  · have hn := h.next_high i hc
    have h0 : x.count ≠ 0#4 := by
      intro h0
      exact absurd (hcsb h0) (by simp [hc])
    rw [hc, if_pos rfl] at hcount
    refine ⟨x.obuffer.extractLsb' 0 7 ++ 0#1, ?_⟩
    simp [Xfer.step, hr, hv, h.dummyCount, h.ddr, h0, h.lastFetch, hn, hc, hcount]

end OneLine

end Xfer

/-- The controller asks for one line and no dummy cycles. -/
structure XferIn.Plain (i : XferIn) : Prop where
  dspi : i.dinDspi = false
  qspi : i.dinQspi = false
  ddr : i.dinDdr = false
  rd : i.dinRd = false

/-! ## The line -/

namespace FlashLine

variable (memory : BitVec 24 → BitVec 8)

/-- The flash after a cycle in which the engine drives the pins. -/
def flashAfter (i : XferIn) (x : Xfer) (f : SpiFlash) : SpiFlash :=
  if (x.step i).flashCsb then f.deselect
  else if !x.flashClk && (x.step i).flashClk then f.posedge memory x.io0Do
  else f

/-- Nothing is under way; `csb` tells whether the flash is selected. -/
structure Waiting (csb : Bool) (x : Xfer) (f : SpiFlash) : Prop where
  line : x.OneLine
  flashCsb : x.flashCsb = csb
  flashClk : x.flashClk = false
  count : x.count = 0
  fetch : x.fetch = true
  bitcount : f.bitcount = 0
  deselected : csb = true → f.Deselected

/-- The byte `d` with tag `tag` is under way to the flash, which was `f₀` before it: `j` bits are
    through, and one more has been sampled if `clk` is high. -/
structure Sending (d : BitVec 8) (tag : BitVec 4) (f₀ : SpiFlash) (j : ℕ) (clk : Bool) (x : Xfer)
    (f : SpiFlash) : Prop where
  bound : j < 8
  line : x.OneLine
  flashCsb : x.flashCsb = false
  flashClk : x.flashClk = clk
  count : x.count = BitVec.ofNat 4 (8 - j)
  fetch : x.fetch = (decide (j = 0) && !clk)
  ddrQ : x.xferDdrQ = false
  xferTag : x.xferTag = tag
  xferTagQ : clk = true → x.xferTagQ = tag
  obuffer : x.obuffer = (d ++ 0#8).extractLsb' (8 - j) 8
  ibuffer : ∃ b : BitVec 8, x.ibuffer = (b ++ f₀.buffer).extractLsb' (8 - (j + clk.toNat)) 8
  start : f₀.bitcount = 0
  flash : f = if j = 7 ∧ clk = true then f₀.finish memory d else f₀.shifted d (j + clk.toNat)

variable {memory} {x : Xfer} {f f₀ : SpiFlash} {i : XferIn} {d : BitVec 8} {tag : BitVec 4} {j : ℕ}

/-- The bit the engine puts on the line. -/
theorem Sending.io0Do {clk : Bool} (h : Sending memory d tag f₀ j clk x f) :
    x.io0Do = d.getLsbD (7 - j) := by
  rw [h.line.io0Do, h.obuffer, window_top, append_high _ _ _ h.bound]

/-- The bit the flash puts on the line. -/
theorem Sending.io1 (h : Sending memory d tag f₀ j false x f) :
    f.io1 = f₀.buffer.getLsbD (7 - j) := by
  rw [h.flash, if_neg (by simp)]
  simp only [SpiFlash.io1, SpiFlash.shifted, Bool.toNat_false, Nat.add_zero]
  rw [window_top, append_high _ _ _ h.bound]

theorem Sending.count_ne (h : Sending memory d tag f₀ j false x f) : x.count ≠ 0#4 := by
  have := h.bound
  rw [h.count]
  interval_cases j <;> decide

theorem posedge_shifted (hj : j < 7) :
    (f₀.shifted d j).posedge memory (d.getLsbD (7 - j)) = f₀.shifted d (j + 1) := by
  have hb := window_shift (f₀.buffer ++ d) j (by omega)
  rw [append_low _ _ _ (by omega)] at hb
  have hne : ¬ j + 1 = 8 := by omega
  simp only [SpiFlash.posedge, SpiFlash.shifted, hne, if_false]
  exact congrArg (fun b => { f₀ with buffer := b, bitcount := j + 1 }) hb

theorem posedge_last (h₀ : f₀.bitcount = 0) :
    (f₀.shifted d 7).posedge memory (d.getLsbD 0) = f₀.finish memory d := by
  have hb := window_shift (f₀.buffer ++ d) 7 (by omega)
  rw [append_low _ _ _ (by omega)] at hb
  have hlow : (f₀.buffer ++ d).extractLsb' (8 - (7 + 1)) 8 = d :=
    BitVec.extractLsb'_append_eq_right
  simp only [SpiFlash.posedge, SpiFlash.shifted, SpiFlash.finish, Nat.reduceAdd, if_true, h₀]
  exact congrArg (fun b => SpiFlash.spiAction memory
    { f₀ with buffer := b, bitcount := 0, bytecount := f₀.bytecount + 1 }) (hb.trans hlow)

theorem Sending.step_low (h : Sending memory d tag f₀ j false x f) (hr : i.resetn = true)
    (hio : i.io1 = f.io1) :
    Sending memory d tag f₀ j true (x.step i) (flashAfter memory i x f) := by
  have hstep := h.line.step_low i h.flashClk h.flashCsb h.count_ne hr
  obtain ⟨b, hb⟩ := h.ibuffer
  have hsample : x.ibuffer.extractLsb' 0 7 ++ BitVec.ofBool i.io1
      = (b ++ f₀.buffer).extractLsb' (8 - (j + 1)) 8 := by
    rw [hb, hio, h.io1, ← append_low b f₀.buffer j h.bound]
    exact window_shift _ _ h.bound
  have hflash : flashAfter memory i x f
      = if j = 7 then f₀.finish memory d else f₀.shifted d (j + 1) := by
    simp only [flashAfter, hstep, h.flashCsb, h.flashClk, Bool.not_false, Bool.and_true,
      Bool.false_eq_true, if_false, if_true]
    rw [h.io0Do, h.flash, if_neg (by simp)]
    simp only [Bool.toNat_false, Nat.add_zero]
    by_cases hj : j = 7
    · subst hj
      rw [if_pos rfl, posedge_last h.start]
    · rw [if_neg hj]
      exact posedge_shifted (by have := h.bound; omega)
  rw [hflash, hstep]
  exact { h with
    line := { h.line with }
    flashClk := rfl
    fetch := by simp
    ddrQ := rfl
    xferTagQ := fun _ => h.xferTag
    ibuffer := ⟨b, hsample⟩
    flash := by simp }

theorem Sending.step_high (h : Sending memory d tag f₀ j true x f) (hj : j < 7)
    (hr : i.resetn = true) :
    Sending memory d tag f₀ (j + 1) false (x.step i) (flashAfter memory i x f) := by
  have hcount : Xfer.countDown x.count 1#4 = BitVec.ofNat 4 (8 - (j + 1)) := by
    rw [h.count]
    interval_cases j <;> decide
  have hne : Xfer.countDown x.count 1#4 ≠ 0#4 := by
    rw [hcount]
    interval_cases j <;> decide
  have hstep := h.line.step_high i h.flashClk hne hr
  have hshift : x.obuffer.extractLsb' 0 7 ++ 0#1 = (d ++ 0#8).extractLsb' (8 - (j + 1)) 8 := by
    have hw := window_shift (d ++ 0#8) j (by omega)
    rw [append_low _ _ _ (by omega), BitVec.getLsbD_zero] at hw
    rw [h.obuffer]
    exact hw
  have hflash : flashAfter memory i x f = f₀.shifted d (j + 1) := by
    simp only [flashAfter, hstep, h.flashCsb, h.flashClk, Bool.not_true, Bool.false_and,
      Bool.false_eq_true, if_false]
    rw [h.flash, if_neg (by omega)]
    rfl
  rw [hflash, hstep]
  exact { h with
    bound := by omega
    line := { h.line with }
    flashClk := rfl
    count := hcount
    fetch := by simp
    ddrQ := rfl
    xferTagQ := fun hfalse => absurd hfalse (by simp)
    obuffer := hshift
    ibuffer := by
      obtain ⟨b, hb⟩ := h.ibuffer
      exact ⟨b, hb⟩
    flash := by simp }

/-! ### Between bytes -/

theorem Sending.next_fetch {clk : Bool} (h : Sending memory d tag f₀ j clk x f) :
    (x.next i).fetch = (decide (j = 7) && clk) := by
  have hbound := h.bound
  rw [Bool.eq_iff_iff, h.line.next_fetch, h.flashClk, h.count]
  cases clk
  · interval_cases j <;> simp
  · interval_cases j <;> simp [Xfer.countDown]

theorem Waiting.next_fetch {csb : Bool} (h : Waiting csb x f) : (x.next i).fetch = true := by
  rw [h.line.next_fetch, h.flashClk, h.count]
  rfl

theorem Sending.doutValid {clk : Bool} (h : Sending memory d tag f₀ j clk x f) :
    x.doutValid i = (decide (j = 7) && clk && i.resetn) := by
  have hbound := h.bound
  simp only [Xfer.doutValid, h.ddrQ, h.next_fetch, h.fetch, Bool.false_eq_true, if_false]
  cases clk <;> simp

theorem Waiting.doutValid {csb : Bool} (h : Waiting csb x f) : x.doutValid i = false := by
  simp [Xfer.doutValid, h.next_fetch, h.fetch, h.line.lastFetch]

/-- The byte received while one was sent is what the flash's buffer held before. -/
theorem Sending.received (h : Sending memory d tag f₀ 7 true x f) : x.ibuffer = f₀.buffer := by
  obtain ⟨b, hb⟩ := h.ibuffer
  rw [hb]
  exact BitVec.extractLsb'_append_eq_right

theorem finish_bitcount (h₀ : f₀.bitcount = 0) : (f₀.finish memory d).bitcount = 0 := by
  simp only [SpiFlash.finish, SpiFlash.spiAction]
  split_ifs <;> exact h₀

theorem Sending.sent (h : Sending memory d tag f₀ 7 true x f) : f = f₀.finish memory d := by
  rw [h.flash, if_pos ⟨rfl, rfl⟩]

theorem Sending.bitcount (h : Sending memory d tag f₀ 7 true x f) : f.bitcount = 0 := by
  rw [h.sent]
  exact finish_bitcount h.start

variable (memory)

/-- A byte is taken. -/
theorem sending_of_take (hl : x.OneLine) (hb : f.bitcount = 0) (hf : (x.next i).fetch = true)
    (hp : i.Plain) (hr : i.resetn = true) (hv : i.dinValid = true) :
    Sending memory i.dinData i.dinTag f 0 false (x.step i) (flashAfter memory i x f) := by
  have hstep := hl.step_take i hf hr hv
  have hflash : flashAfter memory i x f = f := by
    simp [flashAfter, hstep]
  rw [hflash, hstep]
  exact {
    bound := by omega
    line := ⟨by simp [hp.rd], hp.dspi, hp.qspi, hp.ddr, hl.lastFetch⟩
    flashCsb := rfl
    flashClk := rfl
    count := rfl
    fetch := rfl
    ddrQ := rfl
    xferTag := rfl
    xferTagQ := fun hfalse => absurd hfalse (by simp)
    obuffer := BitVec.extractLsb'_append_eq_left.symm
    ibuffer := ⟨x.ibuffer, BitVec.extractLsb'_append_eq_left.symm⟩
    start := hb
    flash := by
      rw [if_neg (by simp)]
      have hbuffer : (f.buffer ++ i.dinData).extractLsb' (8 - 0) 8 = f.buffer :=
        BitVec.extractLsb'_append_eq_left
      simp only [SpiFlash.shifted, Bool.toNat_false, Nat.add_zero, hbuffer]
      cases f
      simp_all }

theorem Waiting.rest {csb : Bool} (h : Waiting csb x f) (hr : i.resetn = true)
    (hv : i.dinValid = false) :
    Waiting csb (x.step i) (flashAfter memory i x f) ∧ flashAfter memory i x f = f := by
  obtain ⟨ob, hstep⟩ := h.line.step_rest i h.next_fetch hr hv fun _ => h.flashClk
  have hflash : flashAfter memory i x f = f := by
    simp only [flashAfter, hstep, h.flashCsb, h.flashClk]
    cases csb
    · simp
    · simpa using (h.deselected rfl).deselect
  rw [hflash, hstep]
  exact ⟨{ h with line := { h.line with }, flashClk := rfl, count := rfl, fetch := rfl }, rfl⟩

variable {memory} in
theorem Sending.rest (h : Sending memory d tag f₀ 7 true x f) (hr : i.resetn = true)
    (hv : i.dinValid = false) :
    Waiting false (x.step i) (flashAfter memory i x f)
      ∧ flashAfter memory i x f = f₀.finish memory d := by
  have hne : x.count ≠ 0#4 := by
    rw [h.count]
    decide
  have hfetch : (x.next i).fetch = true := by simp [h.next_fetch]
  obtain ⟨ob, hstep⟩ := h.line.step_rest i hfetch hr hv fun h0 => absurd h0 hne
  have hflash : flashAfter memory i x f = f := by
    simp [flashAfter, hstep, h.flashCsb]
  rw [hflash, hstep]
  exact ⟨{
    line := { h.line with }
    flashCsb := h.flashCsb
    flashClk := rfl
    count := rfl
    fetch := rfl
    bitcount := h.bitcount
    deselected := fun hfalse => absurd hfalse (by simp) }, h.sent⟩

theorem flashAfter_reset (x : Xfer) (f : SpiFlash) (hr : i.resetn = false) :
    flashAfter memory i x f = f.deselect := by
  simp [flashAfter, Xfer.step, hr]

/-- Reset ends the transfer at any bit. -/
theorem waiting_of_reset (x : Xfer) (f : SpiFlash) (hr : i.resetn = false) :
    Waiting true (x.step i) (flashAfter memory i x f) := by
  have hcsb : (x.step i).flashCsb = true := by simp [Xfer.step, hr]
  rw [flashAfter_reset memory x f hr]
  exact {
    line := by constructor <;> simp [Xfer.step, hr]
    flashCsb := hcsb
    flashClk := by simp [Xfer.step, hr]
    count := by simp [Xfer.step, hr]
    fetch := by simp [Xfer.step, hr]
    bitcount := rfl
    deselected := fun _ => SpiFlash.deselected_deselect f }

end FlashLine

end PicoSoc.System
