import PicoSoc.Cpu.Decoder
import PicoSoc.Library.Arithmetic
import PicoSoc.Library.Request
import PicoSoc.Library.Rv32m

set_option autoImplicit false

/-! # The divider (`picorv32_pcpi_div`)

The macro `RISCV_FORMAL_ALTOPS` is not defined. -/

namespace PicoSoc.Picorv32

open Clocked Arithmetic Rv32m

/-! ## The co-processor interface -/

/-- The inputs of a co-processor in a cycle. -/
structure PcpiIn where
  pcpiValid : Bool
  pcpiInsn : BitVec 32
  pcpiRs1 : BitVec 32
  pcpiRs2 : BitVec 32
  deriving DecidableEq, Inhabited

/-- Its outputs; `none` stands for `'bx`. -/
structure PcpiOut where
  pcpiWr : Bool
  pcpiRd : Option (BitVec 32)
  pcpiWait : Bool
  pcpiReady : Bool

/-- The opcode and `funct7` of the M extension. -/
def isMulDiv (w : BitVec 32) : Bool := opcode w == 0b0110011 && funct7 w == 0b0000001

/-- The multiplication of an instruction word, if it is one. -/
def mulOf (w : BitVec 32) : Option MulOp :=
  if isMulDiv w then [(0b000, .mul), (0b001, .mulh), (0b010, .mulhsu), (0b011, .mulhu)].lookup (funct3 w)
  else none

/-- The division of an instruction word, if it is one. -/
def divOf (w : BitVec 32) : Option DivOp :=
  if isMulDiv w then [(0b100, .div), (0b101, .divu), (0b110, .rem), (0b111, .remu)].lookup (funct3 w)
  else none

/-- The requests and answers of a co-processor: the answer to a request comes with `pcpi_wr` and is
    the `result` of the request. -/
def pcpiPort {σ : Type} (out : σ → PcpiOut) (result : PcpiIn → Option (BitVec 32)) :
    Port σ PcpiIn where
  valid i := i.pcpiValid
  ready s := (out s).pcpiReady
  good i s := (out s).pcpiWr = true ∧ (out s).pcpiRd = result i

/-! ## The registers -/

/-- The registers of `picorv32_pcpi_div`. -/
structure PcpiDiv where
  instrDiv : Bool
  instrDivu : Bool
  instrRem : Bool
  instrRemu : Bool
  pcpiWr : Bool
  pcpiRd : Option (BitVec 32)
  pcpiWait : Bool
  pcpiReady : Bool
  pcpiWaitQ : Bool
  dividend : BitVec 32
  divisor : BitVec 63
  quotient : BitVec 32
  quotientMsk : BitVec 32
  running : Bool
  outsign : Bool
  deriving Inhabited

namespace PcpiDiv

variable (i : PcpiIn) (u : PcpiDiv)

/-- The outputs to the core. -/
def out : PcpiOut where
  pcpiWr := u.pcpiWr
  pcpiRd := u.pcpiRd
  pcpiWait := u.pcpiWait
  pcpiReady := u.pcpiReady

/-- A division or a remainder has been asked for. -/
def instrAnyDivRem : Bool := u.instrDiv || u.instrDivu || u.instrRem || u.instrRemu

/-- The first cycle of a request. -/
def start : Bool := u.pcpiWait && !u.pcpiWaitQ

/-- The operation latch and the wait signals. -/
def decodeStep (resetn : Bool) : PcpiDiv :=
  let valid := resetn && i.pcpiValid && !u.pcpiReady && isMulDiv i.pcpiInsn
  { u with
    instrDiv := valid && funct3 i.pcpiInsn == 0b100
    instrDivu := valid && funct3 i.pcpiInsn == 0b101
    instrRem := valid && funct3 i.pcpiInsn == 0b110
    instrRemu := valid && funct3 i.pcpiInsn == 0b111
    pcpiWait := u.instrAnyDivRem && resetn
    pcpiWaitQ := u.pcpiWait && resetn }

/-- The first operand is negative. -/
def negate1 : Bool := (u.instrDiv || u.instrRem) && i.pcpiRs1.msb

/-- The second operand is negative. -/
def negate2 : Bool := (u.instrDiv || u.instrRem) && i.pcpiRs2.msb

/-- The divider itself. The divisor is negated and shifted in 63 bits. -/
def divideStep (resetn : Bool) : PcpiDiv :=
  let t := { u with pcpiReady := false, pcpiWr := false, pcpiRd := none }
  if !resetn then { t with running := false }
  else if u.start then
    { t with
      running := true
      dividend := if u.negate1 i then -i.pcpiRs1 else i.pcpiRs1
      divisor := (if u.negate2 i then -i.pcpiRs2.setWidth 63 else i.pcpiRs2.setWidth 63) <<< 31
      outsign := (u.instrDiv && i.pcpiRs1.msb != i.pcpiRs2.msb && i.pcpiRs2 != 0)
        || (u.instrRem && i.pcpiRs1.msb)
      quotient := 0
      quotientMsk := 1#32 <<< 31 }
  else if u.quotientMsk == 0 && u.running then
    { t with
      running := false
      pcpiReady := true
      pcpiWr := true
      pcpiRd :=
        if u.instrDiv || u.instrDivu then some (if u.outsign then -u.quotient else u.quotient)
        else some (if u.outsign then -u.dividend else u.dividend) }
  else
    let t :=
      if u.divisor ≤ u.dividend.setWidth 63 then
        { t with
          dividend := (u.dividend.setWidth 63 - u.divisor).setWidth 32
          quotient := u.quotient ||| u.quotientMsk }
      else t
    { t with divisor := u.divisor >>> 1, quotientMsk := u.quotientMsk >>> 1 }

/-- The clock edge. -/
def step (resetn : Bool) : PcpiDiv :=
  let d := u.decodeStep i resetn
  { u.divideStep i resetn with
    instrDiv := d.instrDiv
    instrDivu := d.instrDivu
    instrRem := d.instrRem
    instrRemu := d.instrRemu
    pcpiWait := d.pcpiWait
    pcpiWaitQ := d.pcpiWaitQ }

/-! ## The operation -/

/-- The operation in the latch. -/
structure Latched (op : DivOp) (u : PcpiDiv) : Prop where
  instrDiv : u.instrDiv = decide (op = .div)
  instrDivu : u.instrDivu = decide (op = .divu)
  instrRem : u.instrRem = decide (op = .rem)
  instrRemu : u.instrRemu = decide (op = .remu)

/-- No request is being served. -/
structure Rests (u : PcpiDiv) : Prop where
  latch : u.instrAnyDivRem = false
  pcpiWait : u.pcpiWait = false
  running : u.running = false
  pcpiReady : u.pcpiReady = false

variable {i u} {op : DivOp}

theorem divOf_eq_some {w : BitVec 32} (h : divOf w = some op) :
    isMulDiv w = true ∧ (funct3 w == 0b100) = decide (op = .div)
      ∧ (funct3 w == 0b101) = decide (op = .divu) ∧ (funct3 w == 0b110) = decide (op = .rem)
      ∧ (funct3 w == 0b111) = decide (op = .remu) := by
  have hfunct : ∀ (f : BitVec 3) (op : DivOp),
      [(0b100#3, DivOp.div), (0b101#3, .divu), (0b110#3, .rem), (0b111#3, .remu)].lookup f
        = some op →
      (f == 0b100) = decide (op = .div) ∧ (f == 0b101) = decide (op = .divu)
        ∧ (f == 0b110) = decide (op = .rem) ∧ (f == 0b111) = decide (op = .remu) := by
    intro f op
    cases op <;> revert f <;> decide
  unfold divOf at h
  split at h
  · next hw => exact ⟨hw, hfunct _ _ h⟩
  · cases h

theorem latched_step (hop : divOf i.pcpiInsn = some op) (hvalid : i.pcpiValid = true)
    (hready : u.pcpiReady = false) : Latched op (u.step i true) := by
  obtain ⟨hw, h₁, h₂, h₃, h₄⟩ := divOf_eq_some hop
  have hissue : (true && i.pcpiValid && !u.pcpiReady && isMulDiv i.pcpiInsn) = true := by
    rw [hvalid, hready, hw]
    rfl
  have hlatch : ∀ b : Bool, (true && i.pcpiValid && !u.pcpiReady && isMulDiv i.pcpiInsn && b) = b := by
    rw [hissue]
    exact Bool.true_and
  exact ⟨(hlatch _).trans h₁, (hlatch _).trans h₂, (hlatch _).trans h₃, (hlatch _).trans h₄⟩

/-- Without a request, or in the cycle of an answer, nothing is latched. -/
theorem not_latched_step (h : i.pcpiValid = false ∨ u.pcpiReady = true) :
    (u.step i true).instrAnyDivRem = false := by
  have hissue : (true && i.pcpiValid && !u.pcpiReady && isMulDiv i.pcpiInsn) = false := by
    rcases h with h | h <;> simp [h]
  show ((_ && _) || (_ && _) || (_ && _) || (_ && _)) = false
  rw [hissue]
  rfl

theorem Latched.instrAnyDivRem (h : Latched op u) : u.instrAnyDivRem = true := by
  rw [PcpiDiv.instrAnyDivRem, h.instrDiv, h.instrDivu, h.instrRem, h.instrRemu]
  cases op <;> rfl

@[simp] theorem step_pcpiWait : (u.step i true).pcpiWait = u.instrAnyDivRem := Bool.and_true _

@[simp] theorem step_pcpiWaitQ : (u.step i true).pcpiWaitQ = u.pcpiWait := Bool.and_true _

/-! ## The divider -/

theorem divideStep_start (h : u.start = true) :
    u.divideStep i true =
      { u with
        pcpiReady := false
        pcpiWr := false
        pcpiRd := none
        running := true
        dividend := if u.negate1 i then -i.pcpiRs1 else i.pcpiRs1
        divisor := (if u.negate2 i then -i.pcpiRs2.setWidth 63 else i.pcpiRs2.setWidth 63) <<< 31
        outsign := (u.instrDiv && i.pcpiRs1.msb != i.pcpiRs2.msb && i.pcpiRs2 != 0)
          || (u.instrRem && i.pcpiRs1.msb)
        quotient := 0
        quotientMsk := 1#32 <<< 31 } := by
  rw [divideStep, if_neg (by simp), if_pos h]

theorem divideStep_finish (h : u.start = false) (hmsk : u.quotientMsk = 0) (hrun : u.running = true) :
    u.divideStep i true =
      { u with
        running := false
        pcpiReady := true
        pcpiWr := true
        pcpiRd :=
          if u.instrDiv || u.instrDivu then some (if u.outsign then -u.quotient else u.quotient)
          else some (if u.outsign then -u.dividend else u.dividend) } := by
  rw [divideStep, if_neg (by simp), if_neg (by simp [h]), if_pos (by simp [hmsk, hrun])]

/-- A step of the division, or of the idle divider. -/
theorem divideStep_shift (h : u.start = false) (hbusy : u.quotientMsk ≠ 0 ∨ u.running = false) :
    (u.divideStep i true).running = u.running ∧ (u.divideStep i true).pcpiReady = false
      ∧ (u.divideStep i true).outsign = u.outsign
      ∧ (u.divideStep i true).divisor = u.divisor >>> 1
      ∧ (u.divideStep i true).quotientMsk = u.quotientMsk >>> 1
      ∧ (u.divideStep i true).dividend =
        (if u.divisor ≤ u.dividend.setWidth 63 then
          (u.dividend.setWidth 63 - u.divisor).setWidth 32 else u.dividend)
      ∧ (u.divideStep i true).quotient =
        (if u.divisor ≤ u.dividend.setWidth 63 then u.quotient ||| u.quotientMsk
        else u.quotient) := by
  have hnot : ¬(u.quotientMsk == 0 && u.running) = true := by
    rcases hbusy with h | h
    · rw [beq_false_of_ne h]
      simp
    · rw [h]
      simp
  rw [divideStep, if_neg (by simp), if_neg (by simp [h]), if_neg hnot]
  dsimp only
  split <;> exact ⟨rfl, rfl, rfl, rfl, rfl, rfl, rfl⟩

theorem Rests.next (h : Rests u) (hvalid : i.pcpiValid = false) : Rests (u.step i true) := by
  have hstart : u.start = false := by rw [start, h.pcpiWait]; rfl
  obtain ⟨hrun, hready, -⟩ := divideStep_shift (i := i) hstart (.inr h.running)
  exact ⟨not_latched_step (.inl hvalid), by rw [step_pcpiWait, h.latch], hrun.trans h.running, hready⟩

/-- The signs of the operands matter for DIV and REM. -/
def signedOp (op : DivOp) : Bool := op = .div || op = .rem

/-- The sign of the result. -/
def signOf (op : DivOp) (x y : BitVec 32) : Bool :=
  (decide (op = .div) && x.msb != y.msb && y != 0) || (decide (op = .rem) && x.msb)

/-- What has been done `k` cycles after the request. -/
inductive Serving (op : DivOp) (i : PcpiIn) (u : PcpiDiv) : ℕ → Prop
  | rest (hrests : Rests u) : Serving op i u 0
  | latched (hlatched : Latched op u) (hwait : u.pcpiWait = false) (hrunning : u.running = false)
      (hready : u.pcpiReady = false) : Serving op i u 1
  | waiting (hlatched : Latched op u) (hwait : u.pcpiWait = true) (hwaitq : u.pcpiWaitQ = false)
      (hready : u.pcpiReady = false) : Serving op i u 2
  | dividing {k : ℕ} (hlatched : Latched op u) (hwait : u.pcpiWait = true)
      (hwaitq : u.pcpiWaitQ = true) (hready : u.pcpiReady = false) (hrunning : u.running = true)
      (houtsign : u.outsign = signOf op i.pcpiRs1 i.pcpiRs2)
      (hmsk : u.quotientMsk = (1#32 <<< 31) >>> k)
      (hdivisor : k < 32 →
        u.divisor.toNat = (magnitude (signedOp op) i.pcpiRs2).toNat * 2 ^ (32 - (k + 1)))
      (hdivided : Divided 32 (magnitude (signedOp op) i.pcpiRs1).toNat
        (magnitude (signedOp op) i.pcpiRs2).toNat k u.quotient.toNat u.dividend.toNat) :
      Serving op i u (3 + k)

theorem Serving.pcpiReady {k : ℕ} (h : Serving op i u k) : u.pcpiReady = false := by
  cases h with
  | rest hrests => exact hrests.pcpiReady
  | latched _ _ _ hready => exact hready
  | waiting _ _ _ hready => exact hready
  | dividing _ _ _ hready => exact hready

/-- The divisor register holds the magnitude of the divisor, shifted by 31 bits. -/
theorem toNat_divisor (signed : Bool) (y : BitVec 32) :
    ((if signed && y.msb then -y.setWidth 63 else y.setWidth 63) <<< 31 : BitVec 63).toNat
      = (magnitude signed y).toNat * 2 ^ 31 := by
  have hy := y.isLt
  rw [magnitude]
  split
  · rw [BitVec.toNat_shiftLeft, BitVec.toNat_neg, BitVec.toNat_setWidth, BitVec.toNat_neg,
      Nat.shiftLeft_eq]
    omega
  · rw [BitVec.toNat_shiftLeft, BitVec.toNat_setWidth, Nat.shiftLeft_eq]
    omega

theorem negate_of_latched (h : Latched op u) :
    u.negate1 i = (signedOp op && i.pcpiRs1.msb) ∧ u.negate2 i = (signedOp op && i.pcpiRs2.msb) := by
  rw [negate1, negate2, h.instrDiv, h.instrRem]
  exact ⟨rfl, rfl⟩

theorem Latched.step (hlatched : Latched op u) (hop : divOf i.pcpiInsn = some op)
    (hvalid : i.pcpiValid = true) (hready : u.pcpiReady = false) :
    Latched op (u.step i true) ∧ (u.step i true).pcpiWait = true :=
  ⟨latched_step hop hvalid hready, by rw [step_pcpiWait, hlatched.instrAnyDivRem]⟩

/-- The operands are loaded. -/
theorem dividing_zero (hop : divOf i.pcpiInsn = some op) (hvalid : i.pcpiValid = true)
    (hlatched : Latched op u) (hwait : u.pcpiWait = true) (hwaitq : u.pcpiWaitQ = false)
    (hready : u.pcpiReady = false) : Serving op i (u.step i true) (3 + 0) := by
  have hstart : u.start = true := by rw [start, hwait, hwaitq]; rfl
  have hload := divideStep_start (i := i) hstart
  obtain ⟨hlatched', hwait'⟩ := hlatched.step hop hvalid hready
  obtain ⟨hneg₁, hneg₂⟩ := negate_of_latched (i := i) hlatched
  have hfield {α : Type} (f : PcpiDiv → α) {r : PcpiDiv} (h : u.divideStep i true = r) :
      f (u.divideStep i true) = f r := by rw [h]
  refine .dividing hlatched' hwait' (by rw [step_pcpiWaitQ, hwait]) (hfield (·.pcpiReady) hload)
    (hfield (·.running) hload) ?_ (hfield (·.quotientMsk) hload) (fun _ => ?_) ?_
  · refine (hfield (·.outsign) hload).trans ?_
    dsimp only
    rw [hlatched.instrDiv, hlatched.instrRem, signOf]
  · refine (congrArg BitVec.toNat (hfield (·.divisor) hload)).trans ?_
    dsimp only
    rw [hneg₂]
    exact toNat_divisor _ _
  · have hdividend : (u.step i true).dividend = magnitude (signedOp op) i.pcpiRs1 := by
      refine (hfield (·.dividend) hload).trans ?_
      dsimp only
      rw [hneg₁, magnitude]
    have hquotient : (u.step i true).quotient = 0 := hfield (·.quotient) hload
    rw [hdividend, hquotient]
    exact Divided.start _ (BitVec.isLt _)

/-- The mask before the last bit has been found. -/
theorem toNat_msk {k : ℕ} (hk : k < 32) :
    ((1#32 <<< 31) >>> k).toNat = 2 ^ (32 - (k + 1)) := by
  rw [BitVec.toNat_ushiftRight, Nat.shiftRight_eq_div_pow]
  show 2 ^ 31 / 2 ^ k = _
  rw [Nat.pow_div (by omega) (by omega), show 32 - (k + 1) = 31 - k by omega]

/-- One bit of the quotient. -/
theorem dividing_succ (hop : divOf i.pcpiInsn = some op) (hvalid : i.pcpiValid = true) {k : ℕ}
    (hk : k < 32) (hlatched : Latched op u) (hwait : u.pcpiWait = true)
    (hwaitq : u.pcpiWaitQ = true) (hready : u.pcpiReady = false) (hrunning : u.running = true)
    (houtsign : u.outsign = signOf op i.pcpiRs1 i.pcpiRs2)
    (hmsk : u.quotientMsk = (1#32 <<< 31) >>> k)
    (hdivisor : u.divisor.toNat
      = (magnitude (signedOp op) i.pcpiRs2).toNat * 2 ^ (32 - (k + 1)))
    (hdivided : Divided 32 (magnitude (signedOp op) i.pcpiRs1).toNat
      (magnitude (signedOp op) i.pcpiRs2).toNat k u.quotient.toNat u.dividend.toNat) :
    Serving op i (u.step i true) (3 + (k + 1)) := by
  have hstart : u.start = false := by rw [start, hwait, hwaitq]; rfl
  have hmsk' := toNat_msk hk
  rw [← hmsk] at hmsk'
  have hbusy : u.quotientMsk ≠ 0 := by
    intro hzero
    rw [hzero] at hmsk'
    exact absurd hmsk'.symm (by simp)
  obtain ⟨hrunning', hready', houtsign', hdivisor', hmask, hdividend, hquotient⟩ :=
    divideStep_shift (i := i) hstart (.inl hbusy)
  obtain ⟨hlatched', hwait'⟩ := hlatched.step hop hvalid hready
  refine .dividing hlatched' hwait' (by rw [step_pcpiWaitQ, hwait]) hready'
    (hrunning'.trans hrunning) (houtsign'.trans houtsign) ?_ (fun hk' => ?_) ?_
  · refine hmask.trans ?_
    rw [hmsk, BitVec.shiftRight_add]
  · refine (congrArg BitVec.toNat hdivisor').trans ?_
    rw [BitVec.toNat_ushiftRight, hdivisor, Nat.shiftRight_eq_div_pow, two_pow_pred hk',
      Nat.mul_left_comm, Nat.pow_one, Nat.mul_div_cancel_left _ (by omega)]
  · have hquotient' : (u.step i true).quotient = _ := hquotient
    have hdividend' : (u.step i true).dividend = _ := hdividend
    have hle : u.divisor ≤ u.dividend.setWidth 63 ↔ u.divisor.toNat ≤ u.dividend.toNat := by
      rw [BitVec.le_def, BitVec.toNat_setWidth, Nat.mod_eq_of_lt (by have := u.dividend.isLt; omega)]
    -- the divisor is subtracted when it fits, with a bit of the quotient
    by_cases hfit : u.divisor.toNat ≤ u.dividend.toNat
    · have hsub := hdivided.subtract hk (by rwa [← hdivisor])
      rw [if_pos (hle.2 hfit)] at hquotient' hdividend'
      have hrest : (u.step i true).dividend.toNat = u.dividend.toNat - u.divisor.toNat := by
        have hlt := u.dividend.isLt
        rw [hdividend', BitVec.toNat_setWidth, BitVec.toNat_sub_of_le (hle.2 hfit),
          BitVec.toNat_setWidth, Nat.mod_eq_of_lt (by omega), Nat.mod_eq_of_lt (by omega)]
      rwa [hrest, hdivisor, hquotient', BitVec.toNat_or, hmsk', hdivided.or_eq_add hk]
    · rw [if_neg (fun h => hfit (hle.1 h))] at hquotient' hdividend'
      rw [hquotient', hdividend']
      exact hdivided.skip hk (by rw [← hdivisor]; omega)

/-- A cycle of an operation before the last. -/
theorem Serving.next (hop : divOf i.pcpiInsn = some op) (hvalid : i.pcpiValid = true) {n : ℕ}
    (h : Serving op i u n) (hn : n < 35) : Serving op i (u.step i true) (n + 1) := by
  cases h with
  | rest hrests =>
      have hstart : u.start = false := by rw [start, hrests.pcpiWait]; rfl
      obtain ⟨hrunning, hready, -⟩ := divideStep_shift (i := i) hstart (.inr hrests.running)
      exact .latched (latched_step hop hvalid hrests.pcpiReady)
        (by rw [step_pcpiWait, hrests.latch]) (hrunning.trans hrests.running) hready
  | latched hlatched hwait hrunning hready =>
      have hstart : u.start = false := by rw [start, hwait]; rfl
      obtain ⟨-, hready', -⟩ := divideStep_shift (i := i) hstart (.inr hrunning)
      obtain ⟨hlatched', hwait'⟩ := hlatched.step hop hvalid hready
      exact .waiting hlatched' hwait' (by rw [step_pcpiWaitQ, hwait]) hready'
  | waiting hlatched hwait hwaitq hready =>
      exact dividing_zero hop hvalid hlatched hwait hwaitq hready
  | @dividing k hlatched hwait hwaitq hready hrunning houtsign hmsk hdivisor hdivided =>
      exact dividing_succ hop hvalid (by omega) hlatched hwait hwaitq hready hrunning houtsign hmsk
        (hdivisor (by omega)) hdivided

/-- The quotient and the remainder of the magnitudes. -/
theorem quotient_eq {x y q r : BitVec 32}
    (h : Divided 32 x.toNat y.toNat 32 q.toNat r.toNat) :
    q = (if y = 0 then BitVec.allOnes 32 else x / y) ∧ r = (if y = 0 then x else x % y) := by
  by_cases hy : y = 0
  · rw [if_pos hy, if_pos hy]
    rw [hy] at h
    obtain ⟨hq, hr⟩ := h.done_zero
    refine ⟨BitVec.eq_of_toNat_eq ?_, BitVec.eq_of_toNat_eq hr⟩
    rw [BitVec.toNat_allOnes]
    omega
  · rw [if_neg hy, if_neg hy]
    have hpos : 0 < y.toNat := Nat.pos_of_ne_zero fun h => hy (BitVec.eq_of_toNat_eq h)
    obtain ⟨hq, hr⟩ := h.done hpos
    exact ⟨BitVec.eq_of_toNat_eq (hq.trans BitVec.toNat_udiv.symm),
      BitVec.eq_of_toNat_eq (hr.trans BitVec.toNat_umod.symm)⟩

theorem magnitude_eq_zero {signed : Bool} {y : BitVec 32} : magnitude signed y = 0 ↔ y = 0 := by
  rw [magnitude]
  split
  · exact BitVec.neg_eq_zero_iff
  · exact Iff.rfl

/-- With its sign the result is the one of the operation. -/
theorem result_eq {x y q r : BitVec 32}
    (h : Divided 32 (magnitude (signedOp op) x).toNat (magnitude (signedOp op) y).toNat 32
      q.toNat r.toNat) :
    (if decide (op = .div) || decide (op = .divu) then if signOf op x y then -q else q
      else if signOf op x y then -r else r) = op.eval x y := by
  obtain ⟨hq, hr⟩ := quotient_eq h
  simp only [magnitude_eq_zero] at hq hr
  -- division by zero keeps its dividend as the remainder and has no sign
  by_cases hy : y = 0
  · rw [if_pos hy] at hq hr
    subst hy hq hr
    cases op with
    | rem =>
        show (if x.msb then -magnitude true x else magnitude true x) = x
        rw [magnitude]
        cases x.msb
        · rfl
        · exact BitVec.neg_neg
    | div =>
        show (if (true && x.msb != false && false) || (false && x.msb) then _ else _) = _
        rw [Bool.and_false, Bool.false_and]
        rfl
    | divu => rfl
    | remu => rfl
  · rw [if_neg hy] at hq hr
    have hne : (y != 0) = true := bne_iff_ne.2 hy
    subst hq hr
    cases op with
    | div =>
        rw [DivOp.div_eq hy]
        show (if (true && x.msb != y.msb && y != 0) || (false && x.msb) then _ else _) = _
        rw [hne]
        cases x.msb <;> cases y.msb <;> rfl
    | divu =>
        rw [DivOp.eval, if_neg hy]
        exact BitVec.eq_of_toNat_eq (by
          rw [BitVec.toNat_ofNat, ← BitVec.toNat_udiv, Nat.mod_eq_of_lt (BitVec.isLt _)]
          rfl)
    | rem => rw [DivOp.rem_eq hy]; rfl
    | remu =>
        rw [DivOp.eval, if_neg hy]
        exact BitVec.eq_of_toNat_eq (by
          rw [BitVec.toNat_ofNat, ← BitVec.toNat_umod, Nat.mod_eq_of_lt (BitVec.isLt _)]
          rfl)

/-- The state in the cycle of the answer. -/
structure Answering (op : DivOp) (i : PcpiIn) (u : PcpiDiv) : Prop where
  pcpiReady : u.pcpiReady = true
  pcpiWr : u.pcpiWr = true
  pcpiRd : u.pcpiRd = some (op.eval i.pcpiRs1 i.pcpiRs2)
  running : u.running = false
  pcpiWait : u.pcpiWait = true
  pcpiWaitQ : u.pcpiWaitQ = true

theorem Serving.answer (hop : divOf i.pcpiInsn = some op) (hvalid : i.pcpiValid = true) {n : ℕ}
    (h : Serving op i u n) (hn : n = 35) : Answering op i (u.step i true) := by
  cases h with
  | @dividing k hlatched hwait hwaitq hready hrunning houtsign hmsk hdivisor hdivided =>
      obtain rfl : k = 32 := by omega
      have hstart : u.start = false := by rw [start, hwait, hwaitq]; rfl
      have hdone := divideStep_finish (i := i) hstart hmsk hrunning
      have hfield {α : Type} (f : PcpiDiv → α) {r : PcpiDiv} (h : u.divideStep i true = r) :
          f (u.divideStep i true) = f r := by rw [h]
      refine ⟨hfield (·.pcpiReady) hdone, hfield (·.pcpiWr) hdone, ?_, hfield (·.running) hdone,
        (hlatched.step hop hvalid hready).2, by rw [step_pcpiWaitQ, hwait]⟩
      refine (hfield (·.pcpiRd) hdone).trans ?_
      dsimp only
      rw [hlatched.instrDiv, hlatched.instrDivu, houtsign, ← result_eq hdivided]
      split <;> rfl
  | _ => omega

/-- The cycle of the answer and the one after it. -/
theorem Answering.after (h : Answering op i u) {j : PcpiIn} (hj : j.pcpiValid = false) :
    (u.step i true).pcpiReady = false ∧ Rests ((u.step i true).step j true) := by
  have hstart : u.start = false := by rw [start, h.pcpiWait, h.pcpiWaitQ]; rfl
  obtain ⟨hrunning, hready, -⟩ := divideStep_shift (i := i) hstart (.inr h.running)
  have hrunning' : (u.step i true).running = false := hrunning.trans h.running
  have hlatch : (u.step i true).instrAnyDivRem = false := not_latched_step (.inr h.pcpiReady)
  have hstart' : (u.step i true).start = false := by
    rw [start, step_pcpiWaitQ, h.pcpiWait, Bool.not_true, Bool.and_false]
  obtain ⟨hrunning'', hready', -⟩ := divideStep_shift (i := j) hstart' (.inr hrunning')
  exact ⟨hready, not_latched_step (.inl hj), by rw [step_pcpiWait, hlatch],
    hrunning''.trans hrunning', hready'⟩

/-! ## Runs -/

/-- The requests of the divider and their results. -/
def port : Port PcpiDiv PcpiIn :=
  pcpiPort out fun i => (divOf i.pcpiInsn).map fun op => op.eval i.pcpiRs1 i.pcpiRs2

theorem server : port.Server (fun i u => u.step i true)
    (fun i => i.pcpiValid = true ∧ (divOf i.pcpiInsn).isSome = true) Rests := by
  refine ⟨fun s h => h.pcpiReady, fun s i h hvalid => h.next hvalid, ?_⟩
  rintro s i hrests ⟨hvalid, hop⟩
  obtain ⟨op, hop⟩ := Option.isSome_iff_exists.1 hop
  have hserving : ∀ k ≤ 35, Serving op i ((fun u : PcpiDiv => u.step i true)^[k] s) k := by
    intro k hk
    induction k with
    | zero => exact .rest hrests
    | succ k ih =>
        rw [Function.iterate_succ_apply']
        exact (ih (by omega)).next hop hvalid (by omega)
  have hanswer : Answering op i ((fun u : PcpiDiv => u.step i true)^[36] s) := by
    rw [Function.iterate_succ_apply']
    exact (hserving 35 le_rfl).answer hop hvalid rfl
  refine ⟨36, fun k hk => (hserving k (by omega)).pcpiReady, hanswer.pcpiReady,
    ⟨hanswer.pcpiWr, ?_⟩,
    (hanswer.after (j := { i with pcpiValid := false }) rfl).1, fun j hj => (hanswer.after hj).2⟩
  · refine hanswer.pcpiRd.trans ?_
    dsimp only
    rw [hop, Option.map_some]

/-- After a cycle of reset the divider rests from the next cycle on. -/
theorem rests_reset (u : PcpiDiv) (i : PcpiIn) : Rests (u.step i false) :=
  ⟨rfl, Bool.and_false _, rfl, rfl⟩

/-- From reset, every request for a quotient or a remainder is answered once and with the result of
    the instruction. -/
theorem div_answers_once (u : PcpiDiv) (i₀ : PcpiIn) (env : ℕ → PcpiIn)
    (hop : ∀ n, (env n).pcpiValid = true → (divOf (env n).pcpiInsn).isSome = true)
    (hheld : port.Held (fun i u => u.step i true) env (u.step i₀ false)) :
    port.AnsweredOnce (fun i u => u.step i true) env (u.step i₀ false) :=
  server.answeredOnce hheld (fun n hn => ⟨hn, hop n hn⟩) (rests_reset u i₀)

/-- `div a0, a0, a1` with the smallest number and -1, until its answer in cycle 36. -/
def overflowing (n : ℕ) : PcpiIn where
  pcpiValid := decide (n ≤ 36)
  pcpiInsn := 0x02b54533
  pcpiRs1 := 0x80000000
  pcpiRs2 := 0xFFFFFFFF

theorem div_answers_once_overflowing :
    port.AnsweredOnce (fun i u => u.step i true) overflowing
        ((default : PcpiDiv).step default false)
      ∧ (run (fun i u => u.step i true) overflowing ((default : PcpiDiv).step default false) 36).pcpiRd
        = some 0x80000000 := by
  refine ⟨div_answers_once default default overflowing (fun n _ => ?_) fun n hn => ?_,
    by decide +kernel⟩
  · show (divOf 0x02b54533).isSome = true
    decide
  · have hcycles : ∀ n < 37,
        if port.ready (run (fun i u => u.step i true) overflowing
          ((default : PcpiDiv).step default false) n) then
          port.valid (overflowing (n + 1)) = false
        else overflowing (n + 1) = overflowing n := by
      decide +kernel
    exact hcycles n (Nat.lt_succ_of_le (of_decide_eq_true hn))

end PcpiDiv

end PicoSoc.Picorv32
