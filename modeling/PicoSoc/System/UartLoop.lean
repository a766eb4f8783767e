import PicoSoc.System.UartRx

set_option autoImplicit false

/-! # The port talking to itself

`ser_rx` is connected to `ser_tx`. Both sides count cycles on their own: a bit is on the line for
`cfg_divider + 2` cycles, and the receiver looks at it half a bit after the start bit has begun and
every `cfg_divider + 2` cycles from then on. -/

namespace PicoSoc.System

open Bytes Clocked

namespace SimpleUart

/-- A cycle with `ser_rx` connected to `ser_tx`. -/
def loopStep (defaultDiv : BitVec 32) (i : UartIn) (u : SimpleUart) : SimpleUart :=
  u.step { i with serRx := u.serTx } defaultDiv true

/-- The byte that the transmitter accepts in a cycle: a write with `reg_dat_wait` low. -/
def acceptedByte (i : UartIn) (u : SimpleUart) : List Byte :=
  if i.regDatWe && !u.regDatWait i then [i.regDatDi.extractLsb' 0 8] else []

/-- The byte that the receiver completes in a cycle. -/
def completedByte (u : SimpleUart) : List Byte := if u.completes then [u.recvPattern] else []

/-- No byte is on the line: it is high for the rest of the dummy frame or for good. -/
structure LineIdle (d : BitVec 32) (u : SimpleUart) : Prop where
  cfgDivider : u.cfgDivider = d
  sendPattern : u.sendPattern = ~~~0#10
  recvState : u.recvState = 0

/-- The port is in this state after reset, with the divider of the parameter `DEFAULT_DIV`. -/
theorem lineIdle_reset (i : UartIn) (u : SimpleUart) (d : BitVec 32) :
    LineIdle d (u.step i d false) :=
  ⟨rfl, rfl, rfl⟩

/-! ## The line -/

/-- The bit on the line `k` bit times after the beginning of the start bit. -/
def lineBit (b : Byte) (k : ℕ) : Bool := (1#1 ++ b ++ 0#1).getLsbD k || decide (10 ≤ k)

theorem lineBit_zero (b : Byte) : lineBit b 0 = false := by
  rw [lineBit, BitVec.getLsbD_append]
  rfl

theorem lineBit_data (b : Byte) {k : ℕ} (hk : k < 8) : lineBit b (k + 1) = b.getLsbD k := by
  rw [lineBit, BitVec.getLsbD_append, BitVec.getLsbD_append, if_neg (by omega), Nat.add_sub_cancel,
    if_pos hk, decide_eq_false (by omega), Bool.or_false]

theorem lineBit_stop (b : Byte) {k : ℕ} (hk : 9 ≤ k) : lineBit b k = true := by
  rcases Nat.eq_or_lt_of_le hk with rfl | hk
  · rw [lineBit, BitVec.getLsbD_append, BitVec.getLsbD_append]
    rfl
  · rw [lineBit, decide_eq_true (by omega), Bool.or_true]

/-- `send_pattern` after a shift. -/
theorem getLsbD_shifted (p : BitVec 10) {j : ℕ} (hj : j < 10) :
    (1#1 ++ p.extractLsb' 1 9).getLsbD j = (p.getLsbD (j + 1) || decide (10 ≤ j + 1)) := by
  rw [BitVec.getLsbD_append]
  split
  · next h =>
    rw [BitVec.getLsbD_extractLsb', decide_eq_true h, Bool.true_and, Nat.add_comm 1,
      decide_eq_false (by omega), Bool.or_false]
  · next h =>
    obtain rfl : j = 9 := by omega
    simp

/-! ## The transmitter in a frame -/

/-- The byte `b` is on its way: bit `k` of its frame has been on the line for `r` cycles. -/
structure Sends (b : Byte) (k r : ℕ) (u : SimpleUart) : Prop where
  sendPattern : ∀ j < 10, u.sendPattern.getLsbD j = lineBit b (k + j)
  sendBitcnt : u.sendBitcnt = BitVec.ofNat 4 (10 - k)
  sendDivcnt : u.sendDivcnt = BitVec.ofNat 32 r
  sendDummy : u.sendDummy = false
  bit : k < 10
  cycle : r ≤ u.cfgDivider.toNat + 1

theorem Sends.serTx {b : Byte} {k r : ℕ} {u : SimpleUart} (h : Sends b k r u) :
    u.serTx = lineBit b k := h.sendPattern 0 (by omega)

theorem Sends.busy {b : Byte} {k r : ℕ} {u : SimpleUart} (h : Sends b k r u) :
    u.sendBitcnt ≠ 0 := by
  rw [h.sendBitcnt]
  have hbit := h.bit
  have hne : ∀ k < 10, BitVec.ofNat 4 (10 - k) ≠ 0 := by decide
  exact hne k hbit

theorem Sends.sending {b : Byte} {k r : ℕ} {u : SimpleUart} (h : Sends b k r u) :
    u.sending = true := by
  rw [SimpleUart.sending, Bool.or_eq_true, bne_iff_ne]
  exact .inl h.busy

/-- `send_divcnt > cfg_divider` without wrapping. -/
theorem late_of_toNat {d : BitVec 32} {r : ℕ} (hd : d.toNat ≤ 2 ^ 32 - 3) (hr : r ≤ d.toNat + 1) :
    d.ult (BitVec.ofNat 32 r) = decide (r = d.toNat + 1) := by
  rw [BitVec.ult_eq_decide, decide_eq_decide, BitVec.toNat_ofNat, Nat.mod_eq_of_lt (by omega)]
  omega

section

variable {d : BitVec 32} {i : UartIn} {u : SimpleUart} (dd : BitVec 32)

theorem loopStep_cfgDivider (hdiv : i.regDivWe = 0) :
    (u.loopStep dd i).cfgDivider = u.cfgDivider :=
  cfgDividerNext_of_no_write u _ hdiv

theorem loopStep_sendDummy (hdiv : i.regDivWe = 0) (h : u.sendDummy = false) :
    (u.loopStep dd i).sendDummy = false := by
  show (u.sendStep _).sendDummy = false
  unfold sendStep
  dsimp only
  rw [hdiv, h]
  split
  · rfl
  · split
    · exact h
    · split
      · exact h
      · exact h

theorem loopStep_sendDivcnt (h : u.sendDummy = false) :
    (u.loopStep dd i).sendDivcnt =
      if i.regDatWe && u.sendBitcnt == 0 then 0 else if u.shifts then 0 else u.sendDivcnt + 1 := by
  show (u.sendStep _).sendDivcnt = _
  unfold sendStep
  dsimp only
  rw [h, Bool.false_and, if_neg (by simp)]
  split
  · rfl
  · split
    · rfl
    · rfl

theorem Sends.shifts {b : Byte} {k r : ℕ} (h : Sends b k r u)
    (hd : u.cfgDivider.toNat ≤ 2 ^ 32 - 3) :
    u.shifts = decide (r = u.cfgDivider.toNat + 1) := by
  rw [SimpleUart.shifts, h.sendDivcnt, late_of_toNat hd h.cycle, bne_iff_ne.2 h.busy, Bool.and_true]

/-- Within a bit only the counter moves. -/
theorem Sends.hold {b : Byte} {k r : ℕ} (h : Sends b k r u) (hdiv : i.regDivWe = 0)
    (hd : u.cfgDivider.toNat ≤ 2 ^ 32 - 3) (hr : r < u.cfgDivider.toNat + 1) :
    Sends b k (r + 1) (u.loopStep dd i) := by
  have hbusy : (u.sendBitcnt == 0) = false := beq_false_of_ne h.busy
  have hshifts : u.shifts = false := by
    rw [h.shifts hd]
    exact decide_eq_false (by omega)
  obtain ⟨hpattern, hbitcnt⟩ := u.send_step { i with serRx := u.serTx } dd
  simp only [hbusy, hshifts, Bool.and_false, Bool.false_eq_true, if_false] at hpattern hbitcnt
  refine ⟨?_, hbitcnt.trans h.sendBitcnt, ?_, loopStep_sendDummy dd hdiv h.sendDummy, h.bit, ?_⟩
  · intro j hj
    rw [← h.sendPattern j hj]
    exact congrArg (fun p : BitVec 10 => p.getLsbD j) hpattern
  · rw [loopStep_sendDivcnt dd h.sendDummy, hbusy, hshifts, h.sendDivcnt, Bool.and_false,
      if_neg (by simp), if_neg (by simp), BitVec.ofNat_add]
    rfl
  · rw [loopStep_cfgDivider dd hdiv]
    omega

/-- The shift at the end of a bit. -/
theorem Sends.shift_pattern {b : Byte} {k : ℕ} (h : Sends b k (u.cfgDivider.toNat + 1) u)
    (hd : u.cfgDivider.toNat ≤ 2 ^ 32 - 3) :
    (∀ j < 10, (u.loopStep dd i).sendPattern.getLsbD j = lineBit b (k + 1 + j))
      ∧ (u.loopStep dd i).sendBitcnt = BitVec.ofNat 4 (10 - (k + 1)) := by
  have hbusy : (u.sendBitcnt == 0) = false := beq_false_of_ne h.busy
  have hshifts : u.shifts = true := by
    rw [h.shifts hd]
    exact decide_eq_true rfl
  obtain ⟨hpattern, hbitcnt⟩ := u.send_step { i with serRx := u.serTx } dd
  simp only [hbusy, hshifts, Bool.and_false, Bool.false_eq_true, if_false, if_true]
    at hpattern hbitcnt
  constructor
  · intro j hj
    refine (congrArg (fun p : BitVec 10 => p.getLsbD j) hpattern).trans ?_
    rw [getLsbD_shifted _ hj]
    by_cases hj' : j + 1 < 10
    · rw [h.sendPattern _ hj', decide_eq_false (by omega), Bool.or_false]
      congr 1
      omega
    · rw [decide_eq_true (by omega), Bool.or_true, lineBit_stop b (by omega)]
  · refine hbitcnt.trans ?_
    rw [h.sendBitcnt]
    have hdec : ∀ k < 10, BitVec.ofNat 4 (10 - k) - 1 = BitVec.ofNat 4 (10 - (k + 1)) := by decide
    exact hdec k h.bit

theorem Sends.shift {b : Byte} {k : ℕ} (h : Sends b k (u.cfgDivider.toNat + 1) u)
    (hdiv : i.regDivWe = 0) (hd : u.cfgDivider.toNat ≤ 2 ^ 32 - 3) (hk : k + 1 < 10) :
    Sends b (k + 1) 0 (u.loopStep dd i) := by
  obtain ⟨hpattern, hbitcnt⟩ := h.shift_pattern (i := i) dd hd
  have hshifts : u.shifts = true := by
    rw [h.shifts hd]
    exact decide_eq_true rfl
  refine ⟨hpattern, hbitcnt, ?_, loopStep_sendDummy dd hdiv h.sendDummy, hk, by omega⟩
  rw [loopStep_sendDivcnt dd h.sendDummy, hshifts, if_pos rfl, ite_self]
  rfl

/-- After the stop bit the transmitter is free and the line high. -/
theorem Sends.finish {b : Byte} (h : Sends b 9 (u.cfgDivider.toNat + 1) u)
    (hdiv : i.regDivWe = 0) (hd : u.cfgDivider.toNat ≤ 2 ^ 32 - 3) :
    (u.loopStep dd i).sendPattern = ~~~0#10 ∧ (u.loopStep dd i).sending = false := by
  obtain ⟨hpattern, hbitcnt⟩ := h.shift_pattern (i := i) dd hd
  constructor
  · apply BitVec.eq_of_getLsbD_eq
    intro j hj
    have hones : ∀ j < 10, (~~~0#10).getLsbD j = true := by decide
    rw [hpattern j hj, lineBit_stop b (by omega), hones j hj]
  · rw [SimpleUart.sending, hbitcnt, loopStep_sendDummy dd hdiv h.sendDummy]
    rfl

/-- A byte is accepted. -/
theorem sends_of_accept (hdiv : i.regDivWe = 0) (hwe : i.regDatWe = true)
    (hfree : u.sending = false) : Sends (i.regDatDi.extractLsb' 0 8) 0 0 (u.loopStep dd i) := by
  simp only [sending, Bool.or_eq_false_iff, bne_eq_false_iff_eq] at hfree
  obtain ⟨hidle, hdummy⟩ := hfree
  obtain ⟨hpattern, hbitcnt⟩ := u.send_step { i with serRx := u.serTx } dd
  have hload : (i.regDatWe && u.sendBitcnt == 0) = true := by
    rw [hwe, hidle]
    rfl
  rw [hdummy, Bool.false_and, if_neg (by simp), if_pos hload] at hpattern hbitcnt
  refine ⟨?_, hbitcnt, ?_, loopStep_sendDummy dd hdiv hdummy, by omega, by omega⟩
  · intro j hj
    refine (congrArg (fun p : BitVec 10 => p.getLsbD j) hpattern).trans ?_
    rw [lineBit, Nat.zero_add, decide_eq_false (by omega), Bool.or_false]
  · rw [loopStep_sendDivcnt dd hdummy, if_pos hload]
    rfl

theorem recvState_of_high (h : u.recvState = 0) (hserTx : u.serTx = true) :
    (u.loopStep dd i).recvState = 0 := by
  show (u.recvStep _).recvState = 0
  unfold recvStep
  dsimp only
  rw [if_pos h, hserTx, ← h]
  simp only [Bool.not_true, Bool.false_eq_true, if_false]
  split <;> rfl

/-- As long as no byte is accepted, the line stays high. -/
theorem LineIdle.hold (h : LineIdle d u) (hdiv : i.regDivWe = 0)
    (hnone : u.acceptedByte i = []) : LineIdle d (u.loopStep dd i) := by
  obtain ⟨hpattern, -⟩ := u.send_step { i with serRx := u.serTx } dd
  have hserTx : u.serTx = true := by
    rw [serTx, h.sendPattern]
    rfl
  refine ⟨(loopStep_cfgDivider dd hdiv).trans h.cfgDivider, hpattern.trans ?_, ?_⟩
  · rw [h.sendPattern]
    split
    · rfl
    · next hdummy =>
      rw [if_neg]
      · split
        · decide
        · rfl
      · rintro hload
        simp only [Bool.and_eq_true, beq_iff_eq] at hload hdummy
        have hsending : u.sending = false := by
          simp only [sending, Bool.or_eq_false_iff, bne_eq_false_iff_eq]
          exact ⟨hload.2, by simpa [hload.2] using hdummy⟩
        simp [acceptedByte, regDatWait, hsending, hload.1] at hnone
  · exact recvState_of_high dd h.recvState hserTx

end

/-! ## The receiver in a frame -/

/-- The receiver `t` cycles after the beginning of the start bit of the byte `b`. -/
inductive Receives (b : Byte) (u : SimpleUart) : ℕ → Prop
  | start (hstate : u.recvState = 0) : Receives b u 0
  | half {r : ℕ} (hr : r ≤ u.cfgDivider.toNat / 2 + 1) (hstate : u.recvState = 1)
      (hdivcnt : u.recvDivcnt = BitVec.ofNat 32 r) : Receives b u (1 + r)
  | bits {k r : ℕ} (hk : k ≤ 8) (hr : r ≤ u.cfgDivider.toNat + 1)
      (hstate : u.recvState = BitVec.ofNat 4 (2 + k)) (hdivcnt : u.recvDivcnt = BitVec.ofNat 32 r)
      (hpattern : ∀ j < k, u.recvPattern.getLsbD (8 - k + j) = b.getLsbD j) :
      Receives b u (u.cfgDivider.toNat / 2 + 3 + k * (u.cfgDivider.toNat + 2) + r)
  | done {t : ℕ} (ht : u.cfgDivider.toNat / 2 + 3 + 9 * (u.cfgDivider.toNat + 2) ≤ t)
      (hstate : u.recvState = 0) : Receives b u t

/-- The cycle of a frame in which the receiver completes the byte. -/
def completion (d : BitVec 32) : ℕ := d.toNat / 2 + 2 + 9 * (d.toNat + 2)

/-- `2*recv_divcnt > cfg_divider` without wrapping. -/
theorem half_of_toNat {d : BitVec 32} {r : ℕ} (hd : d.toNat ≤ 2 ^ 32 - 3)
    (hr : r ≤ d.toNat / 2 + 1) :
    d.ult (2 * BitVec.ofNat 32 r) = decide (r = d.toNat / 2 + 1) := by
  rw [BitVec.ult_eq_decide, decide_eq_decide, BitVec.toNat_mul, BitVec.toNat_ofNat,
    Nat.mod_eq_of_lt (a := r) (by omega)]
  show d.toNat < 2 * r % 2 ^ 32 ↔ _
  rw [Nat.mod_eq_of_lt (by omega)]
  omega

/-- `recv_pattern` moves when the receiver takes a data bit. -/
theorem recvPattern_step (i : UartIn) (u : SimpleUart) :
    (u.recvStep i).recvPattern =
      if u.recvState ≠ 0 ∧ u.recvState ≠ 1 ∧ u.recvState ≠ 10
          ∧ u.cfgDivider.ult u.recvDivcnt = true then
        BitVec.ofBool i.serRx ++ u.recvPattern.extractLsb' 1 7
      else u.recvPattern := by
  have hread : (if i.regDatRe then
      { u with recvDivcnt := u.recvDivcnt + 1, recvBufValid := false }
      else { u with recvDivcnt := u.recvDivcnt + 1 } : SimpleUart).recvPattern = u.recvPattern := by
    cases i.regDatRe <;> rfl
  have hkept : ∀ r : SimpleUart, r.recvPattern = u.recvPattern →
      (¬(u.recvState ≠ 0 ∧ u.recvState ≠ 1 ∧ u.recvState ≠ 10
        ∧ u.cfgDivider.ult u.recvDivcnt = true)) →
      r.recvPattern = if u.recvState ≠ 0 ∧ u.recvState ≠ 1 ∧ u.recvState ≠ 10
          ∧ u.cfgDivider.ult u.recvDivcnt = true then
        BitVec.ofBool i.serRx ++ u.recvPattern.extractLsb' 1 7
      else u.recvPattern := by
    intro r hr hnot
    rw [if_neg hnot, hr]
  unfold recvStep
  by_cases h₀ : u.recvState = 0
  · rw [if_pos h₀]
    exact hkept _ hread fun h => h.1 h₀
  by_cases h₁ : u.recvState = 1
  · rw [if_neg h₀, if_pos h₁]
    refine hkept _ ?_ fun h => h.2.1 h₁
    split <;> exact hread
  by_cases h₁₀ : u.recvState = 10
  · rw [if_neg h₀, if_neg h₁, if_pos h₁₀]
    refine hkept _ ?_ fun h => h.2.2.1 h₁₀
    split <;> exact hread
  by_cases hlate : u.cfgDivider.ult u.recvDivcnt = true
  · rw [if_neg h₀, if_neg h₁, if_neg h₁₀, if_pos hlate]
    exact (if_pos ⟨h₀, h₁, h₁₀, hlate⟩).symm
  · rw [if_neg h₀, if_neg h₁, if_neg h₁₀, if_neg hlate]
    exact hkept _ hread fun h => hlate h.2.2.2

/-- The received bits after one more. -/
theorem getLsbD_received {b : Byte} {p : BitVec 8} {k : ℕ} (hk : k < 8)
    (hp : ∀ j < k, p.getLsbD (8 - k + j) = b.getLsbD j) :
    ∀ j < k + 1, (BitVec.ofBool (b.getLsbD k) ++ p.extractLsb' 1 7).getLsbD (8 - (k + 1) + j)
      = b.getLsbD j := by
  intro j hj
  rw [BitVec.getLsbD_append]
  rcases Nat.lt_or_eq_of_le (Nat.le_of_lt_succ hj) with hj' | rfl
  · rw [if_pos (by omega), BitVec.getLsbD_extractLsb', decide_eq_true (by omega), Bool.true_and,
      show 1 + (8 - (k + 1) + j) = 8 - k + j by omega, hp j hj']
  · rw [if_neg (by omega), show 8 - (j + 1) + j - 7 = 0 by omega, BitVec.getLsbD_ofBool]
    rfl

section

variable {b : Byte} {t : ℕ} {i : UartIn} {u : SimpleUart} (dd : BitVec 32)

/-- The state in which the receiver waits for the middle of bit `k`, the stop bit being bit 8. -/
theorem bits_state {k : ℕ} (hk : k ≤ 8) :
    BitVec.ofNat 4 (2 + k) ≠ 0 ∧ BitVec.ofNat 4 (2 + k) ≠ 1
      ∧ (BitVec.ofNat 4 (2 + k) = 10 ↔ k = 8)
      ∧ BitVec.ofNat 4 (2 + k) + 1 = BitVec.ofNat 4 (2 + (k + 1)) := by
  have hdec : ∀ k < 9, BitVec.ofNat 4 (2 + k) ≠ 0 ∧ BitVec.ofNat 4 (2 + k) ≠ 1
      ∧ (BitVec.ofNat 4 (2 + k) = 10 ↔ k = 8)
      ∧ BitVec.ofNat 4 (2 + k) + 1 = BitVec.ofNat 4 (2 + (k + 1)) := by
    decide
  exact hdec k (by omega)

theorem Receives.next (h : Receives b u t)
    (hline : u.serTx = lineBit b (t / (u.cfgDivider.toNat + 2))) (hdiv : i.regDivWe = 0)
    (hd : 1 ≤ u.cfgDivider.toNat) (hd' : u.cfgDivider.toNat ≤ 2 ^ 32 - 3) :
    Receives b (u.loopStep dd i) (t + 1) := by
  have hcfg : (u.loopStep dd i).cfgDivider = u.cfgDivider := loopStep_cfgDivider dd hdiv
  have hpat : (u.loopStep dd i).recvPattern =
      if u.recvState ≠ 0 ∧ u.recvState ≠ 1 ∧ u.recvState ≠ 10
          ∧ u.cfgDivider.ult u.recvDivcnt = true then
        BitVec.ofBool u.serTx ++ u.recvPattern.extractLsb' 1 7
      else u.recvPattern := recvPattern_step _ u
  cases h with
  | start hstate =>
      -- the start bit pulls the line down
      rw [Nat.zero_div, lineBit_zero] at hline
      refine .half (r := 0) (Nat.zero_le _) ?_ ?_
      · show (u.recvStep _).recvState = 1
        unfold recvStep
        rw [if_pos hstate, hline]
        rfl
      · show (u.recvStep _).recvDivcnt = 0
        unfold recvStep
        rw [if_pos hstate]
  | @half r hr hstate hdivcnt =>
      have hlate := half_of_toNat hd' hr
      -- half a bit later, in the middle of the start bit, the bits begin
      by_cases hlast : r = u.cfgDivider.toNat / 2 + 1
      · obtain ⟨hstate', hdivcnt'⟩ := recv_bit { i with serRx := u.serTx } u (by rw [hstate]; decide)
          (by rw [hstate]; decide)
          (by rw [if_pos hstate, hdivcnt, hlate]; exact decide_eq_true hlast)
        have h := Receives.bits (b := b) (u := u.loopStep dd i) (k := 0) (r := 0) (by omega)
          (by omega) (hstate'.trans (by rw [hstate]; rfl)) hdivcnt' (by omega)
        rw [hcfg] at h
        rwa [hlast, show 1 + (u.cfgDivider.toNat / 2 + 1) + 1
          = u.cfgDivider.toNat / 2 + 3 + 0 * (u.cfgDivider.toNat + 2) + 0 by omega]
      · obtain ⟨hstate', hdivcnt'⟩ := recv_wait { i with serRx := u.serTx } u (by rw [hstate]; decide)
          (by rw [if_pos hstate, hdivcnt, hlate]; exact decide_eq_false hlast)
        refine .half (r := r + 1) (by rw [hcfg]; omega) (hstate'.trans hstate) (hdivcnt'.trans ?_)
        rw [hdivcnt, BitVec.ofNat_add]
        rfl
  | @bits k r hk hr hstate hdivcnt hpattern =>
      obtain ⟨h₀, h₁, h₁₀, hnext⟩ := bits_state hk
      rw [← hstate] at h₀ h₁ h₁₀ hnext
      have hlate := late_of_toNat hd' hr
      rw [← hdivcnt] at hlate
      by_cases hlast : r = u.cfgDivider.toNat + 1
      · rw [decide_eq_true hlast] at hlate
        -- the stop bit ends the frame
        by_cases hk8 : k = 8
        · refine .done ?_ ?_
          · rw [hcfg, hk8]
            omega
          · refine (u.recv_step { i with serRx := u.serTx } dd).2.2 ?_
            rw [completes, h₁₀.2 hk8, hlate]
            rfl
        · -- the sample falls into data bit `k`, which is bit `k + 1` of the frame
          obtain ⟨hstate', hdivcnt'⟩ := recv_bit { i with serRx := u.serTx } u h₀
            (fun h => hk8 (h₁₀.1 h)) (by rwa [if_neg h₁])
          have hbit : (u.cfgDivider.toNat / 2 + 3 + k * (u.cfgDivider.toNat + 2) + r)
              / (u.cfgDivider.toNat + 2) = k + 1 := by
            rw [show u.cfgDivider.toNat / 2 + 3 + k * (u.cfgDivider.toNat + 2) + r
              = u.cfgDivider.toNat / 2 + 2 + (u.cfgDivider.toNat + 2) * (k + 1) by rw [hlast]; ring,
              Nat.add_mul_div_left _ _ (by omega), Nat.div_eq_of_lt (by omega), Nat.zero_add]
          rw [hbit, lineBit_data b (by omega)] at hline
          rw [if_pos ⟨h₀, h₁, fun h => hk8 (h₁₀.1 h), hlate⟩, hline] at hpat
          have h := Receives.bits (b := b) (u := u.loopStep dd i) (k := k + 1) (r := 0) (by omega)
            (by omega) (hstate'.trans hnext) hdivcnt' (by
              intro j hj
              exact (congrArg (fun p : BitVec 8 => p.getLsbD _) hpat).trans
                (getLsbD_received (by omega) hpattern j hj))
          rw [hcfg] at h
          rwa [hlast, show u.cfgDivider.toNat / 2 + 3 + k * (u.cfgDivider.toNat + 2)
            + (u.cfgDivider.toNat + 1) + 1
            = u.cfgDivider.toNat / 2 + 3 + (k + 1) * (u.cfgDivider.toNat + 2) + 0 by ring]
      · rw [decide_eq_false hlast] at hlate
        obtain ⟨hstate', hdivcnt'⟩ := recv_wait { i with serRx := u.serTx } u h₀ (by rwa [if_neg h₁])
        rw [if_neg (by rw [hlate]; simp)] at hpat
        have h := Receives.bits (b := b) (u := u.loopStep dd i) (k := k) (r := r + 1) hk
          (by rw [hcfg]; omega) (hstate'.trans hstate)
          (hdivcnt'.trans (by rw [hdivcnt, BitVec.ofNat_add]; rfl)) (by
            intro j hj
            exact (congrArg (fun p : BitVec 8 => p.getLsbD _) hpat).trans (hpattern j hj))
        rwa [hcfg] at h
  | done ht hstate =>
      have hhigh : 9 ≤ t / (u.cfgDivider.toNat + 2) := by
        rw [Nat.le_div_iff_mul_le (by omega)]
        omega
      rw [lineBit_stop b hhigh] at hline
      exact .done (by rw [hcfg]; omega) (recvState_of_high dd hstate hline)

/-- In a frame the receiver completes one byte, the one that is sent, in one cycle. -/
theorem Receives.completedByte (h : Receives b u t) (hd' : u.cfgDivider.toNat ≤ 2 ^ 32 - 3) :
    u.completedByte = if t = completion u.cfgDivider then [b] else [] := by
  unfold SimpleUart.completedByte completion completes
  cases h with
  | start hstate =>
      rw [hstate, if_neg (by simp), if_neg (by omega)]
  | half hr hstate hdivcnt =>
      rw [hstate, if_neg (by simp), if_neg (by omega)]
  | @bits k r hk hr hstate hdivcnt hpattern =>
      obtain ⟨-, -, h₁₀, -⟩ := bits_state hk
      rw [← hstate] at h₁₀
      by_cases hk8 : k = 8
      · subst hk8
        have hlate := late_of_toNat hd' hr
        rw [← hdivcnt] at hlate
        rw [h₁₀.2 rfl, hlate]
        by_cases hlast : r = u.cfgDivider.toNat + 1
        · have hbyte : u.recvPattern = b := by
            apply BitVec.eq_of_getLsbD_eq
            intro j hj
            have hbit := hpattern j hj
            rwa [show 8 - 8 + j = j by omega] at hbit
          rw [decide_eq_true hlast, hbyte]
          exact (if_pos (by omega)).symm
        · rw [decide_eq_false hlast]
          exact (if_neg (by omega)).symm
      · have hne : (u.recvState == 10) = false := beq_false_of_ne fun h => hk8 (h₁₀.1 h)
        have hle : k * (u.cfgDivider.toNat + 2) ≤ 7 * (u.cfgDivider.toNat + 2) :=
          Nat.mul_le_mul_right _ (by omega)
        rw [hne, Bool.false_and, if_neg (by simp), if_neg (by omega)]
  | done ht hstate =>
      rw [hstate, if_neg (by simp), if_neg (by omega)]

end

/-! ## Frames -/

/-- The byte `b` has been on its way for `t` cycles. -/
structure InFrame (d : BitVec 32) (b : Byte) (t : ℕ) (u : SimpleUart) : Prop where
  cfgDivider : u.cfgDivider = d
  sends : ∃ k r, t = k * (d.toNat + 2) + r ∧ Sends b k r u
  receives : Receives b u t

section

variable {d : BitVec 32} {b : Byte} {t : ℕ} {i : UartIn} {u : SimpleUart} (dd : BitVec 32)

theorem InFrame.sending (h : InFrame d b t u) : u.sending = true := by
  obtain ⟨k, r, -, hsends⟩ := h.sends
  exact hsends.sending

theorem InFrame.completedByte (h : InFrame d b t u) (hd : d.toNat ≤ 2 ^ 32 - 3) :
    u.completedByte = if t = completion d then [b] else [] := by
  rw [h.receives.completedByte (by rwa [h.cfgDivider]), h.cfgDivider]

theorem InFrame.next_receives (h : InFrame d b t u) (hdiv : i.regDivWe = 0) (hd : 1 ≤ d.toNat)
    (hd' : d.toNat ≤ 2 ^ 32 - 3) : Receives b (u.loopStep dd i) (t + 1) := by
  obtain ⟨k, r, ht, hsends⟩ := h.sends
  have hcycle := hsends.cycle
  rw [← h.cfgDivider] at ht hd hd'
  refine h.receives.next dd ?_ hdiv hd hd'
  rw [hsends.serTx, ht, Nat.mul_comm, Nat.mul_add_div (by omega), Nat.div_eq_of_lt (by omega),
    Nat.add_zero]

/-- Inside a frame. -/
theorem InFrame.next (h : InFrame d b t u) (hdiv : i.regDivWe = 0) (hd : 1 ≤ d.toNat)
    (hd' : d.toNat ≤ 2 ^ 32 - 3) (ht : t + 1 < 10 * (d.toNat + 2)) :
    InFrame d b (t + 1) (u.loopStep dd i) := by
  obtain ⟨k, r, htime, hsends⟩ := h.sends
  have hcfg := h.cfgDivider
  have hcycle := hsends.cycle
  refine ⟨(loopStep_cfgDivider dd hdiv).trans hcfg, ?_, h.next_receives dd hdiv hd hd'⟩
  rw [← hcfg] at hd' ht htime ⊢
  by_cases hr : r < u.cfgDivider.toNat + 1
  · exact ⟨k, r + 1, by omega, hsends.hold dd hdiv hd' hr⟩
  · obtain rfl : r = u.cfgDivider.toNat + 1 := by omega
    have hend : t + 1 = (k + 1) * (u.cfgDivider.toNat + 2) := by
      rw [htime]
      ring
    have hk : k + 1 < 10 := by
      rw [hend] at ht
      exact Nat.lt_of_mul_lt_mul_right ht
    exact ⟨k + 1, 0, by omega, hsends.shift dd hdiv hd' hk⟩

/-- The last cycle of a frame. -/
theorem InFrame.finish (h : InFrame d b t u) (hdiv : i.regDivWe = 0) (hd : 1 ≤ d.toNat)
    (hd' : d.toNat ≤ 2 ^ 32 - 3) (ht : t + 1 = 10 * (d.toNat + 2)) :
    LineIdle d (u.loopStep dd i) ∧ (u.loopStep dd i).sending = false := by
  obtain ⟨k, r, htime, hsends⟩ := h.sends
  have hcfg := h.cfgDivider
  have hcfg' := (loopStep_cfgDivider dd hdiv).trans hcfg
  have hreceives := h.next_receives dd hdiv hd hd'
  have hcycle := hsends.cycle
  have hbit := hsends.bit
  have hlast : k = 9 ∧ r = u.cfgDivider.toNat + 1 := by
    rw [← hcfg] at ht htime
    have hk : 9 ≤ k := by
      by_contra hk
      have hle : k * (u.cfgDivider.toNat + 2) ≤ 8 * (u.cfgDivider.toNat + 2) :=
        Nat.mul_le_mul_right _ (by omega)
      omega
    obtain rfl : k = 9 := by omega
    exact ⟨rfl, by omega⟩
  obtain ⟨rfl, rfl⟩ := hlast
  obtain ⟨hpattern, hfree⟩ := hsends.finish (i := i) dd hdiv (by rwa [hcfg])
  -- by then the receiver has been through with the byte for half a bit
  have hstate : (u.loopStep dd i).recvState = 0 := by
    generalize hn : t + 1 = n at hreceives ht
    cases hreceives with
    | start hstate => exact hstate
    | half hr =>
        rw [hcfg'] at hr
        omega
    | @bits k r hk hr =>
        rw [hcfg'] at ht hr
        have hle : k * (d.toNat + 2) ≤ 8 * (d.toNat + 2) := Nat.mul_le_mul_right _ hk
        omega
    | done _ hstate => exact hstate
  exact ⟨⟨hcfg', hpattern, hstate⟩, hfree⟩

theorem acceptedByte_of_sending (h : u.sending = true) : u.acceptedByte i = [] := by
  rw [acceptedByte, regDatWait, h]
  cases i.regDatWe <;> rfl

theorem acceptedByte_eq (h : u.acceptedByte i ≠ []) :
    i.regDatWe = true ∧ u.sending = false ∧ u.acceptedByte i = [i.regDatDi.extractLsb' 0 8] := by
  unfold acceptedByte at h ⊢
  split
  · next hwe =>
    simp only [regDatWait, Bool.and_eq_true, Bool.not_eq_true'] at hwe
    exact ⟨hwe.1, by simpa [hwe.1] using hwe.2, rfl⟩
  · next hwe => exact absurd (if_neg hwe) h

/-- A frame begins. -/
theorem LineIdle.accept (h : LineIdle d u) (hdiv : i.regDivWe = 0)
    (haccept : u.acceptedByte i = [b]) : InFrame d b 0 (u.loopStep dd i) := by
  obtain ⟨hwe, hfree, hbyte⟩ := acceptedByte_eq (u := u) (i := i) (by simp [haccept])
  obtain rfl : b = i.regDatDi.extractLsb' 0 8 := by simpa [haccept] using hbyte
  refine ⟨(loopStep_cfgDivider dd hdiv).trans h.cfgDivider,
    ⟨0, 0, by omega, sends_of_accept dd hdiv hwe hfree⟩, .start ?_⟩
  have hserTx : u.serTx = true := by
    rw [serTx, h.sendPattern]
    rfl
  exact recvState_of_high dd h.recvState hserTx

end

/-! ## Runs -/

section

variable (d dd : BitVec 32) (u₀ : SimpleUart) (env : ℕ → UartIn)

/-- The port in cycle `n`. -/
def loopRun (n : ℕ) : SimpleUart := run (loopStep dd) env u₀ n

/-- The bytes accepted before cycle `n`. -/
def acceptedBytes (n : ℕ) : List Byte :=
  (List.range n).flatMap fun k => (loopRun dd u₀ env k).acceptedByte (env k)

/-- The bytes completed before cycle `n`. -/
def completedBytes (n : ℕ) : List Byte :=
  (List.range n).flatMap fun k => (loopRun dd u₀ env k).completedByte

/-- The receiver completes the accepted bytes. -/
structure Echoes : Prop where
  inOrder : ∀ n, completedBytes dd u₀ env n <+: acceptedBytes dd u₀ env n
  complete : ∀ n, (loopRun dd u₀ env n).sending = false →
    completedBytes dd u₀ env n = acceptedBytes dd u₀ env n
  /-- In the ten bit times after a byte is accepted the receiver completes this byte in one cycle. -/
  onePerFrame : ∀ n b, (loopRun dd u₀ env n).acceptedByte (env n) = [b] →
    (loopRun dd u₀ env (n + 1 + 10 * (d.toNat + 2))).sending = false
      ∧ ∃ m < 10 * (d.toNat + 2), ∀ t < 10 * (d.toNat + 2),
        (loopRun dd u₀ env (n + 1 + t)).sending = true
          ∧ (loopRun dd u₀ env (n + 1 + t)).completedByte = if t = m then [b] else []

/-- Between frames all accepted bytes are completed; in a frame the last one is from its completion
    on. -/
def Phase (n : ℕ) : Prop :=
  (LineIdle d (loopRun dd u₀ env n)
      ∧ completedBytes dd u₀ env n = acceptedBytes dd u₀ env n)
    ∨ ∃ b t l, t < 10 * (d.toNat + 2) ∧ InFrame d b t (loopRun dd u₀ env n)
      ∧ acceptedBytes dd u₀ env n = l ++ [b]
      ∧ completedBytes dd u₀ env n = if t ≤ completion d then l else l ++ [b]

variable {d dd u₀ env}

theorem loopRun_succ (n : ℕ) :
    loopRun dd u₀ env (n + 1) = (loopRun dd u₀ env n).loopStep dd (env n) := rfl

theorem completedByte_of_lineIdle {u : SimpleUart} (h : LineIdle d u) : u.completedByte = [] := by
  rw [completedByte, not_completes_of_start u h.recvState]
  rfl

theorem Phase.succ (hdiv : ∀ n, (env n).regDivWe = 0) (hd : 1 ≤ d.toNat)
    (hd' : d.toNat ≤ 2 ^ 32 - 3) {n : ℕ} (h : Phase d dd u₀ env n) : Phase d dd u₀ env (n + 1) := by
  have hcompleted : completedBytes dd u₀ env (n + 1)
      = completedBytes dd u₀ env n ++ (loopRun dd u₀ env n).completedByte :=
    flatMap_range_succ _ n
  have haccepted : acceptedBytes dd u₀ env (n + 1)
      = acceptedBytes dd u₀ env n ++ (loopRun dd u₀ env n).acceptedByte (env n) :=
    flatMap_range_succ _ n
  rcases h with ⟨hidle, heq⟩ | ⟨b, t, l, ht, hframe, hacc, hcomp⟩
  · rw [completedByte_of_lineIdle hidle, List.append_nil] at hcompleted
    by_cases hnone : (loopRun dd u₀ env n).acceptedByte (env n) = []
    · refine .inl ⟨hidle.hold dd (hdiv n) hnone, ?_⟩
      rw [hcompleted, haccepted, hnone, List.append_nil, heq]
    · obtain ⟨-, -, hbyte⟩ := acceptedByte_eq hnone
      refine .inr ⟨_, 0, acceptedBytes dd u₀ env n, by omega, hidle.accept dd (hdiv n) hbyte, ?_, ?_⟩
      · rw [haccepted, hbyte]
      · rw [hcompleted, heq, if_pos (Nat.zero_le _)]
  · rw [acceptedByte_of_sending hframe.sending, List.append_nil] at haccepted
    rw [hframe.completedByte hd', hcomp] at hcompleted
    have hnow : completedBytes dd u₀ env (n + 1)
        = if t + 1 ≤ completion d then l else l ++ [b] := by
      rw [hcompleted]
      rcases Nat.lt_trichotomy t (completion d) with h | h | h
      · rw [if_pos h.le, if_neg h.ne, if_pos (by omega), List.append_nil]
      · rw [if_pos h.le, if_pos h, if_neg (by omega)]
      · rw [if_neg (by omega), if_neg h.ne', if_neg (by omega), List.append_nil]
    by_cases hlast : t + 1 < 10 * (d.toNat + 2)
    · exact .inr ⟨b, t + 1, l, hlast, hframe.next dd (hdiv n) hd hd' hlast, haccepted.trans hacc,
        hnow⟩
    · refine .inl ⟨(hframe.finish dd (hdiv n) hd hd' (by omega)).1, ?_⟩
      rw [hnow, haccepted, hacc, if_neg (by unfold completion; omega)]

theorem phase (dd : BitVec 32) (h₀ : LineIdle d u₀) (hdiv : ∀ n, (env n).regDivWe = 0)
    (hd : 1 ≤ d.toNat) (hd' : d.toNat ≤ 2 ^ 32 - 3) (n : ℕ) : Phase d dd u₀ env n := by
  induction n with
  | zero => exact .inl ⟨h₀, rfl⟩
  | succ n ih => exact ih.succ hdiv hd hd'

/-- The receiver completes the bytes that the transmitter accepts, in order and one in each frame,
    for every divider for which the counters do not wrap. -/
theorem echoes (d dd : BitVec 32) (u₀ : SimpleUart) (env : ℕ → UartIn) (h₀ : LineIdle d u₀)
    (hdiv : ∀ n, (env n).regDivWe = 0) (hd : 1 ≤ d.toNat) (hd' : d.toNat ≤ 2 ^ 32 - 3) :
    Echoes d dd u₀ env := by
  refine ⟨fun n => ?_, fun n hfree => ?_, fun n b haccept => ?_⟩
  · rcases phase dd h₀ hdiv hd hd' n with ⟨-, heq⟩ | ⟨b, t, l, -, -, hacc, hcomp⟩
    · rw [heq]
    · rw [hacc, hcomp]
      split
      · exact List.prefix_append l [b]
      · exact List.prefix_rfl
  · rcases phase dd h₀ hdiv hd hd' n with ⟨-, heq⟩ | ⟨b, t, l, -, hframe, -⟩
    · exact heq
    · rw [hframe.sending] at hfree
      cases hfree
  · have hidle : LineIdle d (loopRun dd u₀ env n) := by
      rcases phase dd h₀ hdiv hd hd' n with ⟨hidle, -⟩ | ⟨b', t, l, -, hframe, -⟩
      · exact hidle
      · rw [acceptedByte_of_sending hframe.sending] at haccept
        cases haccept
    have hframe : ∀ t < 10 * (d.toNat + 2), InFrame d b t (loopRun dd u₀ env (n + 1 + t)) := by
      intro t ht
      induction t with
      | zero => exact hidle.accept dd (hdiv n) haccept
      | succ t ih => exact (ih (by omega)).next dd (hdiv _) hd hd' ht
    constructor
    · have hlast := hframe (10 * (d.toNat + 2) - 1) (by omega)
      have hend := (hlast.finish (i := env (n + 1 + (10 * (d.toNat + 2) - 1))) dd (hdiv _) hd hd'
        (by omega)).2
      rwa [← loopRun_succ, show n + 1 + (10 * (d.toNat + 2) - 1) + 1 = n + 1 + 10 * (d.toNat + 2)
        by omega] at hend
    · refine ⟨completion d, by unfold completion; omega, fun t ht => ?_⟩
      exact ⟨(hframe t ht).sending, (hframe t ht).completedByte hd'⟩

/-- A byte on offer in every cycle. -/
def offered (n : ℕ) : UartIn :=
  { serRx := true, regDivWe := 0, regDivDi := 0, regDatWe := true, regDatRe := false,
    regDatDi := BitVec.ofNat 32 n }

/-- From reset with the smallest divider: frames follow each other from the end of the dummy frame
    on. -/
theorem echoes_offered :
    Echoes 1 1 ((default : SimpleUart).step (offered 0) 1 false) offered
      ∧ acceptedBytes 1 ((default : SimpleUart).step (offered 0) 1 false) offered 110
        = [46, 77, 108] :=
  ⟨echoes 1 1 _ offered (lineIdle_reset (offered 0) default 1) (fun _ => rfl) (by decide) (by decide),
    by decide +kernel⟩

end

end SimpleUart

end PicoSoc.System
