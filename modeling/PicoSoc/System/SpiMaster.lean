import PicoSoc.Library.Bytes
import PicoSoc.Library.Clocked

set_option autoImplicit false

/-! # The SPI master (`simple_spi_master.v`)

Mode 0, most significant bit first. A transfer is sixteen half periods of `clkdiv + 1` cycles; the
even ones have the clock low and end with a sample of `miso`. -/

namespace PicoSoc.System

open Bytes Clocked

/-! ## The module -/

/-- The inputs of `spi_master`. -/
structure SpiIn where
  start : Bool
  txData : BitVec 8
  clkdiv : BitVec 16
  csN : Bool
  spiMiso : Bool

/-- The registers of `spi_master`. -/
structure SpiMaster where
  divcnt : BitVec 16
  bitpos : BitVec 3
  sckReg : Bool
  mosiReg : Bool
  txLatch : BitVec 8
  rxShift : BitVec 8
  rxData : BitVec 8
  busy : Bool
  done : Bool
  deriving Inhabited

namespace SpiMaster

/-- The master after reset. -/
def reset : SpiMaster where
  divcnt := 0
  bitpos := 0
  sckReg := false
  mosiReg := true
  txLatch := 0xFF
  rxShift := 0x00
  rxData := 0xFF
  busy := false
  done := false

/-- The clock line. -/
def spiSck (s : SpiMaster) : Bool := if s.busy then s.sckReg else false

/-- The data line to the card. -/
def spiMosi (s : SpiMaster) : Bool := s.mosiReg

/-- The chip select line. -/
def spiCsN (i : SpiIn) : Bool := i.csN

/-- `x[pos] <= b` -/
def putBit (x : BitVec 8) (pos : BitVec 3) (b : Bool) : BitVec 8 :=
  ofBitsLE 8 fun k => if k = pos.toNat then b else x.getLsbD k

/-- The clock edge with `resetn` high. -/
def step (i : SpiIn) (s : SpiMaster) : SpiMaster :=
  let t := { s with done := false }
  if i.start && !s.busy then
    { t with
      busy := true
      sckReg := false
      divcnt := i.clkdiv
      bitpos := 7
      txLatch := i.txData
      rxShift := 0x00
      mosiReg := i.txData.getLsbD 7 }
  else if s.busy then
    if s.divcnt ≠ 0 then { t with divcnt := s.divcnt - 1 }
    else
      let t := { t with divcnt := i.clkdiv }
      if !s.sckReg then
        { t with sckReg := true, rxShift := putBit s.rxShift s.bitpos i.spiMiso }
      else
        let t := { t with sckReg := false }
        if s.bitpos = 0 then
          { t with busy := false, done := true, rxData := s.rxShift, mosiReg := true }
        else
          { t with
            bitpos := s.bitpos - 1
            mosiReg := s.txLatch.getLsbD (s.bitpos - 1).toNat }
  else t

end SpiMaster

/-! ## A transfer -/

namespace SpiMaster

/-- Cycle `j` of half period `h` of a transfer of `tx`; `bit i` is what the `i`-th rise sampled. -/
structure At (tx : BitVec 8) (d : BitVec 16) (bit : ℕ → Bool) (h j : ℕ) (s : SpiMaster) : Prop where
  busy : s.busy = true
  done : s.done = false
  sckReg : s.sckReg = decide (h % 2 = 1)
  divcnt : s.divcnt = d - BitVec.ofNat 16 j
  bitpos : s.bitpos = BitVec.ofNat 3 (7 - h / 2)
  txLatch : s.txLatch = tx
  mosiReg : s.mosiReg = tx.getLsbD (7 - h / 2)
  rxShift : ∀ k, 2 * k + 1 ≤ h → s.rxShift.getLsbD (7 - k) = bit k

variable {tx : BitVec 8} {d : BitVec 16} {bit : ℕ → Bool} {h j : ℕ} {s : SpiMaster} {i : SpiIn}

theorem At.step_start (hbusy : s.busy = false) (hstart : i.start = true) (hclk : i.clkdiv = d) :
    At i.txData d bit 0 0 (step i s) := by
  have hstep : step i s =
      { s with
        done := false, busy := true, sckReg := false, divcnt := i.clkdiv, bitpos := 7
        txLatch := i.txData, rxShift := 0x00, mosiReg := i.txData.getLsbD 7 } := by
    rw [step, hbusy, hstart]
    rfl
  rw [hstep]
  refine ⟨rfl, rfl, rfl, ?_, rfl, rfl, rfl, fun k hk => absurd hk (by omega)⟩
  exact hclk.trans (BitVec.sub_zero d).symm

/-- Inside a half period only the divider moves. -/
theorem At.step_count (hs : At tx d bit h j s) (hj : j < d.toNat) : At tx d bit h (j + 1) (step i s) := by
  have hne : ¬ s.divcnt = 0 := by
    rw [hs.divcnt]
    intro heq
    have hzero : (d - BitVec.ofNat 16 j).toNat = 0 := congrArg BitVec.toNat heq
    rw [BitVec.toNat_sub, BitVec.toNat_ofNat] at hzero
    have := d.isLt
    omega
  have hstep : step i s = { s with done := false, divcnt := s.divcnt - 1 } := by
    rw [step, hs.busy, Bool.not_true, Bool.and_false, if_neg Bool.false_ne_true, if_pos rfl,
      if_pos hne]
  rw [hstep]
  refine ⟨hs.busy, rfl, hs.sckReg, ?_, hs.bitpos, hs.txLatch, hs.mosiReg, hs.rxShift⟩
  show s.divcnt - 1 = d - BitVec.ofNat 16 (j + 1)
  rw [hs.divcnt, BitVec.ofNat_add, BitVec.sub_sub]
  rfl

theorem At.divcnt_zero (hs : At tx d bit h d.toNat s) : s.divcnt = 0 := by
  rw [hs.divcnt, BitVec.ofNat_toNat, BitVec.setWidth_eq, BitVec.sub_self]
  rfl

theorem getLsbD_putBit (x : BitVec 8) {p k : ℕ} (hp : p < 8) (hk : k < 8) (b : Bool) :
    (putBit x (BitVec.ofNat 3 p) b).getLsbD k = if k = p then b else x.getLsbD k := by
  rw [putBit, getLsbD_ofBitsLE _ hk, BitVec.toNat_ofNat, Nat.mod_eq_of_lt hp]

/-- A low half ends with the rise of the clock and a sample. -/
theorem At.step_rise (hs : At tx d bit h d.toNat s) (heven : h % 2 = 0) (hh : h < 16)
    (hclk : i.clkdiv = d) (hmiso : i.spiMiso = bit (h / 2)) : At tx d bit (h + 1) 0 (step i s) := by
  have hlow : s.sckReg = false := by rw [hs.sckReg, heven]; rfl
  have hstep : step i s =
      { s with
        done := false, divcnt := i.clkdiv, sckReg := true
        rxShift := putBit s.rxShift s.bitpos i.spiMiso } := by
    rw [step, hs.busy, Bool.not_true, Bool.and_false, if_neg Bool.false_ne_true, if_pos rfl,
      if_neg (not_not.2 hs.divcnt_zero), hlow]
    rfl
  rw [hstep]
  have hhalf : (h + 1) / 2 = h / 2 := by omega
  refine ⟨hs.busy, rfl, ?_, ?_, ?_, hs.txLatch, ?_, ?_⟩
  · exact (decide_eq_true (by omega)).symm
  · exact hclk.trans (BitVec.sub_zero d).symm
  · rw [hhalf]
    exact hs.bitpos
  · rw [hhalf]
    exact hs.mosiReg
  · intro k hk
    show (putBit s.rxShift s.bitpos i.spiMiso).getLsbD (7 - k) = bit k
    rw [hs.bitpos, getLsbD_putBit _ (by omega) (by omega)]
    by_cases hlast : k = h / 2
    · rw [if_pos (by omega), hmiso, hlast]
    · rw [if_neg (by omega)]
      exact hs.rxShift k (by omega)

/-- A high half before the last ends with the fall of the clock and the next bit. -/
theorem At.step_fall (hs : At tx d bit h d.toNat s) (hodd : h % 2 = 1) (hh : h < 15)
    (hclk : i.clkdiv = d) : At tx d bit (h + 1) 0 (step i s) := by
  have hhigh : s.sckReg = true := by rw [hs.sckReg, hodd]; rfl
  have hprev : BitVec.ofNat 3 (7 - h / 2) - 1 = BitVec.ofNat 3 (7 - (h + 1) / 2) := by
    apply BitVec.eq_of_toNat_eq
    rw [BitVec.toNat_sub, BitVec.toNat_ofNat, BitVec.toNat_ofNat]
    show (2 ^ 3 - 1 + _) % 2 ^ 3 = _
    omega
  have hne : ¬ s.bitpos = 0 := by
    rw [hs.bitpos]
    intro heq
    have hzero : (BitVec.ofNat 3 (7 - h / 2)).toNat = 0 := congrArg BitVec.toNat heq
    rw [BitVec.toNat_ofNat] at hzero
    omega
  have hstep : step i s =
      { s with
        done := false, divcnt := i.clkdiv, sckReg := false, bitpos := s.bitpos - 1
        mosiReg := s.txLatch.getLsbD (s.bitpos - 1).toNat } := by
    rw [step, hs.busy, Bool.not_true, Bool.and_false, if_neg Bool.false_ne_true, if_pos rfl,
      if_neg (not_not.2 hs.divcnt_zero), hhigh, Bool.not_true, if_neg Bool.false_ne_true,
      if_neg hne]
  rw [hstep]
  refine ⟨hs.busy, rfl, ?_, ?_, ?_, hs.txLatch, ?_, fun k hk => hs.rxShift k (by omega)⟩
  · exact (decide_eq_false (by omega)).symm
  · exact hclk.trans (BitVec.sub_zero d).symm
  · show s.bitpos - 1 = _
    rw [hs.bitpos, hprev]
  · show s.txLatch.getLsbD (s.bitpos - 1).toNat = _
    rw [hs.bitpos, hprev, hs.txLatch, BitVec.toNat_ofNat, Nat.mod_eq_of_lt (by omega)]

/-- The last high half ends the transfer. -/
theorem At.step_last (hs : At tx d bit 15 d.toNat s) :
    (step i s).busy = false ∧ (step i s).done = true ∧
      ∀ k < 8, (step i s).rxData.getLsbD (7 - k) = bit k := by
  have hhigh : s.sckReg = true := hs.sckReg
  have hlast : s.bitpos = 0 := hs.bitpos
  have hstep : step i s =
      { s with
        divcnt := i.clkdiv, sckReg := false, busy := false, done := true, rxData := s.rxShift
        mosiReg := true } := by
    rw [step, hs.busy, Bool.not_true, Bool.and_false, if_neg Bool.false_ne_true, if_pos rfl,
      if_neg (not_not.2 hs.divcnt_zero), hhigh, Bool.not_true, if_neg Bool.false_ne_true,
      if_pos hlast]
  rw [hstep]
  exact ⟨rfl, rfl, fun k hk => hs.rxShift k (by omega)⟩

/-! ## The waveform -/

/-- The cycles of a half period. -/
def half (d : BitVec 16) : ℕ := d.toNat + 1

theorem run_at (hbusy : s.busy = false) {env : ℕ → SpiIn} (hstart : (env 0).start = true)
    (hh : h < 16) (hj : j < half d) (hclk : ∀ n ≤ h * half d + j, (env n).clkdiv = d) :
    At (env 0).txData d (fun k => (env ((2 * k + 1) * half d)).spiMiso) h j
      (run step env s (1 + h * half d + j)) := by
  induction h generalizing j with
  | zero =>
      induction j with
      | zero =>
          rw [Nat.zero_mul]
          exact At.step_start hbusy hstart (hclk 0 (Nat.zero_le _))
      | succ j ih =>
          have hlt : j < d.toNat := Nat.lt_of_succ_lt_succ hj
          exact (ih (by omega) fun n hn => hclk n (by omega)).step_count hlt
  | succ h ihh =>
      have hcount : (h + 1) * half d = h * half d + half d := Nat.succ_mul h (half d)
      induction j with
      | zero =>
          have hindex : 1 + h * half d + d.toNat = (h + 1) * half d := by
            rw [hcount, half]
            omega
          have hprev := ihh (by omega) (show d.toNat < half d from Nat.lt_succ_self _)
            fun n hn => hclk n (by omega)
          rw [hindex] at hprev
          have hnow := hclk ((h + 1) * half d) le_rfl
          rw [Nat.add_zero, Nat.add_comm 1, run_succ]
          rcases Nat.mod_two_eq_zero_or_one h with heven | hodd
          · refine hprev.step_rise heven (by omega) hnow ?_
            show _ = (env ((2 * (h / 2) + 1) * half d)).spiMiso
            rw [show 2 * (h / 2) + 1 = h + 1 by omega]
          · exact hprev.step_fall hodd (by omega) hnow
      | succ j ih =>
          have hlt : j < d.toNat := Nat.lt_of_succ_lt_succ hj
          exact (ih (by omega) fun n hn => hclk n (by omega)).step_count hlt

/-- A transfer has not ended in the cycles before its last one. -/
theorem run_busy (hbusy : s.busy = false) {env : ℕ → SpiIn} (hstart : (env 0).start = true) {n : ℕ}
    (hn : n < 16 * half d) (hclk : ∀ k ≤ n, (env k).clkdiv = d) :
    (run step env s (1 + n)).busy = true ∧ (run step env s (1 + n)).done = false := by
  have hpos : 0 < half d := Nat.succ_pos _
  have hat := run_at hbusy hstart (h := n / half d) (j := n % half d)
    (Nat.div_lt_of_lt_mul (by rwa [Nat.mul_comm] at hn)) (Nat.mod_lt n hpos)
    fun k hk => hclk k (by rwa [Nat.div_add_mod'] at hk)
  rw [Nat.add_assoc, Nat.div_add_mod'] at hat
  exact ⟨hat.busy, hat.done⟩

theorem run_last (hbusy : s.busy = false) {env : ℕ → SpiIn} (hstart : (env 0).start = true)
    (hclk : ∀ n ≤ 16 * half d, (env n).clkdiv = d) :
    (run step env s (1 + 16 * half d)).busy = false
      ∧ (run step env s (1 + 16 * half d)).done = true
      ∧ ∀ k < 8, (run step env s (1 + 16 * half d)).rxData.getLsbD (7 - k) =
          (env ((2 * k + 1) * half d)).spiMiso := by
  have hindex : 1 + 15 * half d + d.toNat = 16 * half d := by
    rw [half]
    omega
  have hlast := run_at hbusy hstart (h := 15) (by omega) (Nat.lt_succ_self d.toNat)
    fun n hn => hclk n (by omega)
  rw [hindex] at hlast
  rw [Nat.add_comm, run_succ]
  exact hlast.step_last

theorem step_done_of_idle (hbusy : s.busy = false) : (step i s).done = false := by
  rw [step, hbusy]
  cases i.start <;> rfl

theorem step_idle (hbusy : s.busy = false) (hstart : i.start = false) :
    step i s = { s with done := false } := by
  rw [step, hbusy, hstart]
  rfl

/-! ## The end of a transfer -/

/-- A bound on the cycles up to the end of the transfer, whatever the divider will be. -/
def left (s : SpiMaster) : ℕ :=
  if s.busy then (2 * s.bitpos.toNat + if s.sckReg then 0 else 1) * 2 ^ 16 + s.divcnt.toNat + 1
  else 0

theorem left_le (s : SpiMaster) : s.left ≤ 2 ^ 20 := by
  have hpos := s.bitpos.isLt
  have hcnt := s.divcnt.isLt
  rw [left]
  split_ifs <;> omega

theorem busy_of_left (h : s.left = 0) : s.busy = false := by
  rw [left] at h
  by_contra hbusy
  rw [if_pos (by simpa using hbusy)] at h
  omega

/-- A transfer ends without a divider that stays as it is. -/
theorem left_step (hstart : i.start = false) : (step i s).left ≤ s.left - 1 := by
  have hclk := i.clkdiv.isLt
  cases hbusy : s.busy with
  | false =>
      rw [step_idle hbusy hstart, left]
      show (if s.busy then _ else _) ≤ _
      rw [hbusy, if_neg Bool.false_ne_true]
      exact Nat.zero_le _
  | true =>
      have hleft : s.left =
          (2 * s.bitpos.toNat + if s.sckReg then 0 else 1) * 2 ^ 16 + s.divcnt.toNat + 1 := by
        rw [left, hbusy, if_pos rfl]
      rw [hleft, step, hbusy, hstart]
      simp only [Bool.false_and, Bool.false_eq_true, if_false, if_true]
      by_cases hcnt : s.divcnt = 0
      · rw [if_neg (not_not.2 hcnt)]
        cases hsck : s.sckReg with
        | false =>
            simp only [left, Bool.not_false, if_true, Bool.false_eq_true, if_false]
            omega
        | true =>
            simp only [Bool.not_true, Bool.false_eq_true, if_false]
            by_cases hpos : s.bitpos = 0
            · rw [if_pos hpos]
              simp [left]
            · have hne : s.bitpos.toNat ≠ 0 := by bv_omega
              have hprev : (s.bitpos - 1).toNat = s.bitpos.toNat - 1 := by bv_omega
              rw [if_neg hpos]
              simp only [left, if_true, Bool.false_eq_true, if_false, hprev]
              omega
      · have hne : s.divcnt.toNat ≠ 0 := by bv_omega
        have hprev : (s.divcnt - 1).toNat = s.divcnt.toNat - 1 := by bv_omega
        rw [if_pos hcnt]
        simp only [left, if_true, hprev]
        omega

/-- A start pulse in a cycle without transfer begins sixteen half periods of `clkdiv + 1` cycles,
    low and high in turn. Bit `7 - i` of the byte is on `mosi` in the `i`-th low and high half; the
    edge that raises the clock the `i`-th time samples bit `7 - i` of `rx_data`, which is shown with
    one cycle of `done` after the last fall. The inputs after the start pulse have no other part in
    it. -/
theorem exchanges_byte (s : SpiMaster) (env : ℕ → SpiIn) (d : BitVec 16) (hbusy : s.busy = false)
    (hstart : (env 0).start = true) (hclk : ∀ n ≤ 16 * (d.toNat + 1), (env n).clkdiv = d) :
    (∀ h < 16, ∀ j ≤ d.toNat,
        (run step env s (1 + h * (d.toNat + 1) + j)).busy = true
          ∧ (run step env s (1 + h * (d.toNat + 1) + j)).done = false
          ∧ (run step env s (1 + h * (d.toNat + 1) + j)).spiSck = decide (h % 2 = 1)
          ∧ (run step env s (1 + h * (d.toNat + 1) + j)).spiMosi =
            (env 0).txData.getLsbD (7 - h / 2))
      ∧ (run step env s (1 + 16 * (d.toNat + 1))).busy = false
      ∧ (run step env s (1 + 16 * (d.toNat + 1))).spiSck = false
      ∧ (run step env s (1 + 16 * (d.toNat + 1))).done = true
      ∧ (∀ k < 8, (run step env s (1 + 16 * (d.toNat + 1))).rxData.getLsbD (7 - k) =
          (env ((2 * k + 1) * (d.toNat + 1))).spiMiso)
      ∧ (run step env s (2 + 16 * (d.toNat + 1))).done = false := by
  have hat : ∀ h < 16, ∀ j ≤ d.toNat, At (env 0).txData d
      (fun k => (env ((2 * k + 1) * half d)).spiMiso) h j (run step env s (1 + h * half d + j)) :=
    fun h hh j hj => by
      refine run_at hbusy hstart hh (Nat.lt_succ_of_le hj) fun n hn => hclk n ?_
      have : h * half d ≤ 15 * half d := Nat.mul_le_mul_right _ (by omega)
      show n ≤ 16 * half d
      rw [half] at *
      omega
  obtain ⟨hidle, hdone, hrx⟩ := run_last hbusy hstart hclk
  refine ⟨?_, hidle, ?_, hdone, hrx, ?_⟩
  · intro h hh j hj
    have hs := hat h hh j hj
    refine ⟨hs.busy, hs.done, ?_, hs.mosiReg⟩
    show (if (run step env s (1 + h * half d + j)).busy then _ else _) = _
    rw [hs.busy, if_pos rfl]
    exact hs.sckReg
  · show (if (run step env s (1 + 16 * half d)).busy then _ else _) = _
    rw [hidle, if_neg Bool.false_ne_true]
  · rw [show 2 + 16 * (d.toNat + 1) = 1 + 16 * half d + 1 by rw [half]; omega, run_succ]
    exact step_done_of_idle hidle

/-- The fastest clock, `miso` high. -/
theorem exchanges_byte_fastest :
    (run step (fun n => ⟨n == 0, 0xA5, 0, false, true⟩) reset 17).rxData = 0xFF := by
  have h := (exchanges_byte reset (fun n => ⟨n == 0, 0xA5, 0, false, true⟩) 0 rfl rfl
    fun _ _ => rfl).2.2.2.2.1
  apply BitVec.eq_of_getLsbD_eq
  intro k hk
  have hbit := h (7 - k) (by omega)
  rw [show 7 - (7 - k) = k by omega] at hbit
  refine hbit.trans ?_
  interval_cases k <;> rfl

end SpiMaster

end PicoSoc.System
