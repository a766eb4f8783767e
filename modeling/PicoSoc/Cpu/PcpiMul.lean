import PicoSoc.Cpu.CarrySave
import PicoSoc.Cpu.PcpiDiv

set_option autoImplicit false

/-! # The sequential multiplier (`picorv32_pcpi_mul`)

The macro `RISCV_FORMAL_ALTOPS` is not defined. -/

namespace PicoSoc.Picorv32

open Clocked Rv32m

/-- An operand, extended with or without its sign. -/
def extend (w : ℕ) (signed : Bool) (x : BitVec 32) : BitVec w :=
  if signed then x.signExtend w else x.setWidth w

/-! ## Operations -/

/-- The high half of the product is wanted. -/
def highHalf (op : MulOp) : Bool := op ≠ .mul

/-- The operands that are taken as signed; the low half is the same for both. -/
def rs1Signed (op : MulOp) : Bool := op = .mulh || op = .mulhsu

/-- The second operand is signed. -/
def rs2Signed (op : MulOp) : Bool := op = .mulh

theorem mulOf_eq_some {w : BitVec 32} {op : MulOp} (h : mulOf w = some op) :
    isMulDiv w = true ∧ (funct3 w == 0b000) = decide (op = .mul)
      ∧ (funct3 w == 0b001) = decide (op = .mulh) ∧ (funct3 w == 0b010) = decide (op = .mulhsu)
      ∧ (funct3 w == 0b011) = decide (op = .mulhu) := by
  have hfunct : ∀ (f : BitVec 3) (op : MulOp),
      [(0b000#3, MulOp.mul), (0b001#3, .mulh), (0b010#3, .mulhsu), (0b011#3, .mulhu)].lookup f
        = some op →
      (f == 0b000) = decide (op = .mul) ∧ (f == 0b001) = decide (op = .mulh)
        ∧ (f == 0b010) = decide (op = .mulhsu) ∧ (f == 0b011) = decide (op = .mulhu) := by
    intro f op
    cases op <;> revert f <;> decide
  unfold mulOf at h
  split at h
  · next hw => exact ⟨hw, hfunct _ _ h⟩
  · cases h

theorem ofInt_operand (signed : Bool) (x : BitVec 32) :
    BitVec.ofInt 64 (operand signed x) = extend 64 signed x := by
  cases signed
  · rw [operand, extend, if_neg (by simp), if_neg (by simp), BitVec.ofInt_natCast,
      BitVec.ofNat_toNat]
  · rfl

theorem extend_low (signed : Bool) (x : BitVec 32) : (extend 64 signed x).setWidth 32 = x := by
  rw [extend]
  split
  · apply BitVec.eq_of_getLsbD_eq
    intro k hk
    rw [BitVec.getLsbD_setWidth, BitVec.getLsbD_signExtend, if_pos hk, decide_eq_true hk,
      decide_eq_true (by omega)]
    rfl
  · rw [BitVec.setWidth_setWidth_of_le _ (by omega), BitVec.setWidth_eq]

/-- The result of an operation from a register with the product, of which a MUL needs only the low
    half. -/
theorem mul_result (op : MulOp) (x y : BitVec 32) {rd : BitVec 64}
    (hlow : rd.extractLsb' 0 32
      = (extend 64 (rs1Signed op) x * extend 64 (rs2Signed op) y).extractLsb' 0 32)
    (hhigh : highHalf op = true → rd = extend 64 (rs1Signed op) x * extend 64 (rs2Signed op) y) :
    (if highHalf op then (rd >>> 32).setWidth 32 else rd.setWidth 32) = op.eval x y := by
  have hproduct : op.product x y = extend 64 op.signed₁ x * extend 64 op.signed₂ y := by
    rw [MulOp.product, BitVec.ofInt_mul, ofInt_operand, ofInt_operand]
  have hshift : (rd >>> 32).setWidth 32 = rd.extractLsb' 32 32 := rfl
  have hmask : rd.setWidth 32 = rd.extractLsb' 0 32 := BitVec.setWidth_eq_extractLsb' (by omega)
  have hlow32 : ∀ s₁ s₂, (extend 64 s₁ x * extend 64 s₂ y).extractLsb' 0 32 = x * y := by
    intro s₁ s₂
    rw [← BitVec.setWidth_eq_extractLsb' (by omega), BitVec.setWidth_mul _ _ (by omega), extend_low,
      extend_low]
  rw [MulOp.eval.eq_def, hproduct, hshift, hmask]
  cases op with
  | mul =>
      show rd.extractLsb' 0 32 = _
      rw [hlow, hlow32, hlow32]
  | mulh => exact congrArg (BitVec.extractLsb' 32 32) (hhigh rfl)
  | mulhsu => exact congrArg (BitVec.extractLsb' 32 32) (hhigh rfl)
  | mulhu => exact congrArg (BitVec.extractLsb' 32 32) (hhigh rfl)

/-! ## The registers -/

/-- The parameters `STEPS_AT_ONCE` and `CARRY_CHAIN`. -/
structure MulParams where
  stepsAtOnce : ℕ
  carryChain : ℕ

/-- The registers of `picorv32_pcpi_mul`. -/
structure PcpiMul extends Accumulator where
  instrMul : Bool
  instrMulh : Bool
  instrMulhsu : Bool
  instrMulhu : Bool
  pcpiWr : Bool
  pcpiRd : BitVec 32
  pcpiWait : Bool
  pcpiReady : Bool
  pcpiWaitQ : Bool
  mulCounter : BitVec 7
  mulWaiting : Bool
  mulFinish : Bool
  deriving Inhabited

namespace PcpiMul

variable (p : MulParams) (i : PcpiIn) (u : PcpiMul)

/-- The outputs to the core. -/
def out : PcpiOut where
  pcpiWr := u.pcpiWr
  pcpiRd := some u.pcpiRd
  pcpiWait := u.pcpiWait
  pcpiReady := u.pcpiReady

/-- A multiplication has been asked for. -/
def instrAnyMul : Bool := u.instrMul || u.instrMulh || u.instrMulhsu || u.instrMulhu

/-- The upper half of the product has been asked for. -/
def instrAnyMulh : Bool := u.instrMulh || u.instrMulhsu || u.instrMulhu

/-- The first operand of the request is signed. -/
def instrRs1Signed : Bool := u.instrMulh || u.instrMulhsu

/-- The second operand of the request is signed. -/
def instrRs2Signed : Bool := u.instrMulh

/-- `mul_start`: the first cycle of a request. -/
def mulStart : Bool := u.pcpiWait && !u.pcpiWaitQ

/-- The registers that the multiplication moves. -/
def multiplyStep (resetn : Bool) : PcpiMul :=
  let t := { u with mulFinish := false }
  if !resetn then { t with mulWaiting := true }
  else if u.mulWaiting then
    { t with
      rs1 := extend 64 u.instrRs1Signed i.pcpiRs1
      rs2 := extend 64 u.instrRs2Signed i.pcpiRs2
      rd := 0
      rdx := 0
      mulCounter :=
        BitVec.ofInt 7 (if u.instrAnyMulh then 63 - p.stepsAtOnce else 31 - p.stepsAtOnce)
      mulWaiting := !u.mulStart }
  else
    { t with
      toAccumulator := (Accumulator.add p.carryChain)^[p.stepsAtOnce] u.toAccumulator
      mulCounter := u.mulCounter - BitVec.ofNat 7 p.stepsAtOnce
      mulFinish := u.mulCounter.msb
      mulWaiting := u.mulCounter.msb }

/-- The clock edge. -/
def step (resetn : Bool) : PcpiMul :=
  let valid := resetn && i.pcpiValid && isMulDiv i.pcpiInsn
  { u.multiplyStep p i resetn with
    instrMul := valid && funct3 i.pcpiInsn == 0b000
    instrMulh := valid && funct3 i.pcpiInsn == 0b001
    instrMulhsu := valid && funct3 i.pcpiInsn == 0b010
    instrMulhu := valid && funct3 i.pcpiInsn == 0b011
    pcpiWait := u.instrAnyMul
    pcpiWaitQ := u.pcpiWait
    pcpiWr := u.mulFinish && resetn
    pcpiReady := u.mulFinish && resetn
    pcpiRd :=
      if u.mulFinish && resetn then
        if u.instrAnyMulh then (u.rd >>> 32).setWidth 32 else u.rd.setWidth 32
      else u.pcpiRd }

/-! ## The phases of a request -/

/-- The operation in the latch. -/
structure Latched (op : MulOp) (u : PcpiMul) : Prop where
  instrMul : u.instrMul = decide (op = .mul)
  instrMulh : u.instrMulh = decide (op = .mulh)
  instrMulhsu : u.instrMulhsu = decide (op = .mulhsu)
  instrMulhu : u.instrMulhu = decide (op = .mulhu)

/-- No request is being served. The wait signal of the last one may still be high. -/
structure Rests (u : PcpiMul) : Prop where
  latch : u.instrAnyMul = false
  mulStart : u.mulStart = false
  mulWaiting : u.mulWaiting = true
  mulFinish : u.mulFinish = false
  pcpiReady : u.pcpiReady = false

variable {p i u} {op : MulOp}

theorem Latched.instrAnyMul (h : Latched op u) : u.instrAnyMul = true := by
  rw [PcpiMul.instrAnyMul, h.instrMul, h.instrMulh, h.instrMulhsu, h.instrMulhu]
  cases op <;> rfl

theorem Latched.instrAnyMulh (h : Latched op u) : u.instrAnyMulh = highHalf op := by
  rw [PcpiMul.instrAnyMulh, h.instrMulh, h.instrMulhsu, h.instrMulhu]
  cases op <;> rfl

theorem Latched.signs (h : Latched op u) :
    u.instrRs1Signed = rs1Signed op ∧ u.instrRs2Signed = rs2Signed op := by
  rw [instrRs1Signed, instrRs2Signed, h.instrMulh, h.instrMulhsu]
  exact ⟨rfl, rfl⟩

theorem latched_step (hop : mulOf i.pcpiInsn = some op) (hvalid : i.pcpiValid = true) :
    Latched op (u.step p i true) := by
  obtain ⟨hw, h₁, h₂, h₃, h₄⟩ := mulOf_eq_some hop
  have hlatch : ∀ b : Bool, (true && i.pcpiValid && isMulDiv i.pcpiInsn && b) = b := by
    rw [hvalid, hw]
    exact Bool.true_and
  exact ⟨(hlatch _).trans h₁, (hlatch _).trans h₂, (hlatch _).trans h₃, (hlatch _).trans h₄⟩

theorem not_latched_step (h : i.pcpiValid = false) : (u.step p i true).instrAnyMul = false := by
  show ((_ && _) || (_ && _) || (_ && _) || (_ && _)) = false
  rw [h]
  rfl

theorem step_pcpiReady : (u.step p i true).pcpiReady = u.mulFinish := Bool.and_true _

theorem step_mulStart : (u.step p i true).mulStart = (u.instrAnyMul && !u.pcpiWait) := rfl

/-- Before a multiplication the operands are loaded in every cycle. -/
theorem multiplyStep_waiting (h : u.mulWaiting = true) :
    u.multiplyStep p i true =
      { u with
        mulFinish := false
        rs1 := extend 64 u.instrRs1Signed i.pcpiRs1
        rs2 := extend 64 u.instrRs2Signed i.pcpiRs2
        rd := 0
        rdx := 0
        mulCounter :=
          BitVec.ofInt 7 (if u.instrAnyMulh then 63 - p.stepsAtOnce else 31 - p.stepsAtOnce)
        mulWaiting := !u.mulStart } := by
  rw [multiplyStep, if_neg (by simp), if_pos h]

theorem multiplyStep_running (h : u.mulWaiting = false) :
    u.multiplyStep p i true =
      { u with
        toAccumulator := (Accumulator.add p.carryChain)^[p.stepsAtOnce] u.toAccumulator
        mulCounter := u.mulCounter - BitVec.ofNat 7 p.stepsAtOnce
        mulFinish := u.mulCounter.msb
        mulWaiting := u.mulCounter.msb } := by
  rw [multiplyStep, if_neg (by simp), if_neg (by simp [h])]

theorem step_waiting (h : u.mulWaiting = true) :
    (u.step p i true).mulWaiting = !u.mulStart ∧ (u.step p i true).mulFinish = false := by
  have hfield {α : Type} (f : PcpiMul → α) {r : PcpiMul} (h : u.multiplyStep p i true = r) :
      f (u.multiplyStep p i true) = f r := by rw [h]
  exact ⟨hfield (·.mulWaiting) (multiplyStep_waiting h),
    hfield (·.mulFinish) (multiplyStep_waiting h)⟩

theorem Rests.next (h : Rests u) (hvalid : i.pcpiValid = false) : Rests (u.step p i true) := by
  obtain ⟨hwaiting, hfinish⟩ := step_waiting (p := p) (i := i) h.mulWaiting
  refine ⟨not_latched_step hvalid, ?_, ?_, hfinish, ?_⟩
  · rw [step_mulStart, h.latch, Bool.false_and]
  · rw [hwaiting, h.mulStart]
    rfl
  · rw [step_pcpiReady, h.mulFinish]

/-- The number of bits of `rs1` that the result depends on. -/
def bits (op : MulOp) : ℕ := if highHalf op then 64 else 32

/-- The number of cycles with `STEPS_AT_ONCE` steps each. -/
def cycles (p : MulParams) (op : MulOp) : ℕ := (bits op + p.stepsAtOnce - 1) / p.stepsAtOnce

theorem lt_cycles_iff (op : MulOp) (hsteps : 1 ≤ p.stepsAtOnce) {m : ℕ} :
    m < cycles p op ↔ m * p.stepsAtOnce < bits op := by
  rw [cycles, Nat.lt_iff_add_one_le, Nat.le_div_iff_mul_le hsteps, Nat.succ_mul]
  omega

/-- What has been done `k` cycles after the request. -/
inductive Serving (p : MulParams) (op : MulOp) (i : PcpiIn) (u : PcpiMul) : ℕ → Prop
  | rest (hrests : Rests u) : Serving p op i u 0
  | latched (hlatched : Latched op u) (hwait : u.pcpiWait = false)
      (hwaiting : u.mulWaiting = true) (hfinish : u.mulFinish = false)
      (hready : u.pcpiReady = false) : Serving p op i u 1
  | waiting (hlatched : Latched op u) (hwait : u.pcpiWait = true) (hwaitq : u.pcpiWaitQ = false)
      (hwaiting : u.mulWaiting = true) (hfinish : u.mulFinish = false)
      (hready : u.pcpiReady = false) : Serving p op i u 2
  | multiplying {m : ℕ} (hlatched : Latched op u) (hwait : u.pcpiWait = true)
      (hwaitq : u.pcpiWaitQ = true) (hwaiting : u.mulWaiting = false)
      (hfinish : u.mulFinish = false) (hready : u.pcpiReady = false) (hm : m < cycles p op)
      (hcounter : u.mulCounter = BitVec.ofInt 7 (bits op - 1 - (m + 1) * p.stepsAtOnce))
      (hrows : Accumulator.Partial p.carryChain (extend 64 (rs1Signed op) i.pcpiRs1)
        (extend 64 (rs2Signed op) i.pcpiRs2) (m * p.stepsAtOnce) u.toAccumulator) :
      Serving p op i u (3 + m)
  | finished (hlatched : Latched op u) (hwait : u.pcpiWait = true)
      (hwaitq : u.pcpiWaitQ = true) (hwaiting : u.mulWaiting = true)
      (hfinish : u.mulFinish = true) (hready : u.pcpiReady = false)
      (hrows : Accumulator.Partial p.carryChain (extend 64 (rs1Signed op) i.pcpiRs1)
        (extend 64 (rs2Signed op) i.pcpiRs2) (cycles p op * p.stepsAtOnce) u.toAccumulator) :
      Serving p op i u (3 + cycles p op)

theorem Serving.pcpiReady {k : ℕ} (h : Serving p op i u k) : u.pcpiReady = false := by
  cases h with
  | rest hrests => exact hrests.pcpiReady
  | latched _ _ _ _ hready => exact hready
  | waiting _ _ _ _ _ hready => exact hready
  | multiplying _ _ _ _ _ hready => exact hready
  | finished _ _ _ _ _ hready => exact hready

theorem partial_iterate {c t : ℕ} {x y : BitVec 64} {a : Accumulator}
    (h : Accumulator.Partial c x y t a) (hc : c = 0 ∨ c ∣ 64) (n : ℕ) :
    Accumulator.Partial c x y (t + n) ((Accumulator.add c)^[n] a) := by
  induction n with
  | zero => exact h
  | succ n ih =>
      rw [Function.iterate_succ_apply']
      exact ih.add hc

/-- `mul_counter` is negative, that is `mul_counter[6]`, when the last cycle has come. -/
theorem counter_msb (hsteps : 1 ≤ p.stepsAtOnce) (hsteps' : p.stepsAtOnce ≤ 31) {m : ℕ}
    (hm : m < cycles p op) :
    (BitVec.ofInt 7 (bits op - 1 - (m + 1) * p.stepsAtOnce)).msb
      = decide (m + 1 = cycles p op) := by
  have hlt := (lt_cycles_iff op hsteps).1 hm
  have hnext := lt_cycles_iff op hsteps (m := m + 1)
  have hbits : bits op ≤ 64 := by
    unfold bits
    split <;> omega
  rw [Nat.succ_mul] at hnext
  have hcast : ((m : ℤ) + 1) * p.stepsAtOnce = ((m * p.stepsAtOnce + p.stepsAtOnce : ℕ) : ℤ) := by
    push_cast
    ring
  rw [BitVec.msb_eq_toInt, BitVec.toInt_ofInt, hcast, Int.bmod_eq_of_le (by omega) (by omega),
    decide_eq_decide]
  omega

theorem Latched.step (hlatched : Latched op u) (hop : mulOf i.pcpiInsn = some op)
    (hvalid : i.pcpiValid = true) :
    Latched op (u.step p i true) ∧ (u.step p i true).pcpiWait = true :=
  ⟨latched_step hop hvalid, hlatched.instrAnyMul⟩

/-- The multiplication starts with the operands that are at the inputs. -/
theorem multiplying_zero (hsteps : 1 ≤ p.stepsAtOnce) (hop : mulOf i.pcpiInsn = some op)
    (hvalid : i.pcpiValid = true) (hlatched : Latched op u) (hwait : u.pcpiWait = true)
    (hwaitq : u.pcpiWaitQ = false) (hwaiting : u.mulWaiting = true) (hfinish : u.mulFinish = false) :
    Serving p op i (u.step p i true) (3 + 0) := by
  have hload := multiplyStep_waiting (p := p) (i := i) hwaiting
  have hfield {α : Type} (f : PcpiMul → α) {r : PcpiMul} (h : u.multiplyStep p i true = r) :
      f (u.multiplyStep p i true) = f r := by rw [h]
  obtain ⟨hlatched', hwait'⟩ := hlatched.step (p := p) hop hvalid
  have hstart : u.mulStart = true := by rw [mulStart, hwait, hwaitq]; rfl
  have hpos : 0 < bits op := by
    unfold bits
    split <;> omega
  refine .multiplying hlatched' hwait' hwait ?_ (hfield (·.mulFinish) hload)
    (step_pcpiReady.trans hfinish) ((lt_cycles_iff op hsteps).2 (by omega)) ?_ ?_
  · refine (hfield (·.mulWaiting) hload).trans ?_
    dsimp only
    rw [hstart]
    rfl
  · refine (hfield (·.mulCounter) hload).trans ?_
    dsimp only
    rw [hlatched.instrAnyMulh, bits]
    split <;> simp
  · have hacc : (u.step p i true).toAccumulator = _ := hfield (·.toAccumulator) hload
    obtain ⟨hsigned₁, hsigned₂⟩ := hlatched.signs
    rw [hacc, hsigned₁, hsigned₂, Nat.zero_mul]
    exact .zero _ _ _

/-- A cycle of the multiplication. -/
theorem multiplying_succ (hsteps : 1 ≤ p.stepsAtOnce) (hsteps' : p.stepsAtOnce ≤ 31)
    (hchain : p.carryChain = 0 ∨ p.carryChain ∣ 64) (hop : mulOf i.pcpiInsn = some op)
    (hvalid : i.pcpiValid = true) {m : ℕ} (hlatched : Latched op u) (hwait : u.pcpiWait = true)
    (hwaiting : u.mulWaiting = false) (hfinish : u.mulFinish = false) (hm : m < cycles p op)
    (hcounter : u.mulCounter = BitVec.ofInt 7 (bits op - 1 - (m + 1) * p.stepsAtOnce))
    (hrows : Accumulator.Partial p.carryChain (extend 64 (rs1Signed op) i.pcpiRs1)
      (extend 64 (rs2Signed op) i.pcpiRs2) (m * p.stepsAtOnce) u.toAccumulator) :
    Serving p op i (u.step p i true) (3 + (m + 1)) := by
  have hrun := multiplyStep_running (p := p) (i := i) hwaiting
  have hfield {α : Type} (f : PcpiMul → α) {r : PcpiMul} (h : u.multiplyStep p i true = r) :
      f (u.multiplyStep p i true) = f r := by rw [h]
  obtain ⟨hlatched', hwait'⟩ := hlatched.step (p := p) hop hvalid
  have hmsb := counter_msb hsteps hsteps' hm
  rw [← hcounter] at hmsb
  have hwaiting' : (u.step p i true).mulWaiting = u.mulCounter.msb := hfield (·.mulWaiting) hrun
  have hfinish' : (u.step p i true).mulFinish = u.mulCounter.msb := hfield (·.mulFinish) hrun
  have hrows' := partial_iterate hrows hchain p.stepsAtOnce
  rw [← Nat.succ_mul] at hrows'
  have hacc : (u.step p i true).toAccumulator = _ := hfield (·.toAccumulator) hrun
  dsimp only at hacc
  rw [← hacc] at hrows'
  rw [hmsb] at hwaiting' hfinish'
  by_cases hlast : m + 1 = cycles p op
  · rw [decide_eq_true hlast] at hwaiting' hfinish'
    rw [Nat.succ_eq_add_one, hlast] at hrows'
    rw [hlast]
    exact .finished hlatched' hwait' hwait hwaiting' hfinish' (step_pcpiReady.trans hfinish) hrows'
  · rw [decide_eq_false hlast] at hwaiting' hfinish'
    refine .multiplying hlatched' hwait' hwait hwaiting' hfinish' (step_pcpiReady.trans hfinish)
      (by omega) ?_ hrows'
    refine (hfield (·.mulCounter) hrun).trans ?_
    dsimp only
    rw [hcounter, ← BitVec.ofInt_natCast, BitVec.sub_eq_add_neg, ← BitVec.ofInt_neg,
      ← BitVec.ofInt_add]
    congr 1
    push_cast
    ring

/-- A cycle of an operation before its result is complete. -/
theorem Serving.next (hsteps : 1 ≤ p.stepsAtOnce) (hsteps' : p.stepsAtOnce ≤ 31)
    (hchain : p.carryChain = 0 ∨ p.carryChain ∣ 64) (hop : mulOf i.pcpiInsn = some op)
    (hvalid : i.pcpiValid = true) {n : ℕ} (h : Serving p op i u n) (hn : n < 3 + cycles p op) :
    Serving p op i (u.step p i true) (n + 1) := by
  cases h with
  | rest hrests =>
      obtain ⟨hwaiting, hfinish⟩ := step_waiting (p := p) (i := i) hrests.mulWaiting
      rw [hrests.mulStart] at hwaiting
      exact .latched (latched_step hop hvalid) hrests.latch hwaiting hfinish
        (step_pcpiReady.trans hrests.mulFinish)
  | latched hlatched hwait hwaiting hfinish hready =>
      obtain ⟨hwaiting', hfinish'⟩ := step_waiting (p := p) (i := i) hwaiting
      rw [mulStart, hwait] at hwaiting'
      obtain ⟨hlatched', hwait'⟩ := hlatched.step (p := p) hop hvalid
      exact .waiting hlatched' hwait' hwait hwaiting' hfinish' (step_pcpiReady.trans hfinish)
  | waiting hlatched hwait hwaitq hwaiting hfinish hready =>
      exact multiplying_zero hsteps hop hvalid hlatched hwait hwaitq hwaiting hfinish
  | multiplying hlatched hwait hwaitq hwaiting hfinish hready hm hcounter hrows =>
      exact multiplying_succ hsteps hsteps' hchain hop hvalid hlatched hwait hwaiting hfinish hm
        hcounter hrows
  | finished => omega

/-- The state in the cycle of the answer. -/
structure Answering (op : MulOp) (i : PcpiIn) (u : PcpiMul) : Prop where
  latched : Latched op u
  pcpiReady : u.pcpiReady = true
  pcpiWr : u.pcpiWr = true
  pcpiRd : u.pcpiRd = op.eval i.pcpiRs1 i.pcpiRs2
  mulWaiting : u.mulWaiting = true
  mulFinish : u.mulFinish = false
  pcpiWait : u.pcpiWait = true
  pcpiWaitQ : u.pcpiWaitQ = true

theorem toNat_extend_lt {x : BitVec 32} : (extend 64 false x).toNat < 2 ^ 32 := by
  rw [extend, if_neg (by simp), BitVec.toNat_setWidth]
  have := x.isLt
  omega

/-- The pending carries have left the bits that are returned. -/
theorem finished_result (hsteps : 1 ≤ p.stepsAtOnce)
    (hrows : Accumulator.Partial p.carryChain (extend 64 (rs1Signed op) i.pcpiRs1)
      (extend 64 (rs2Signed op) i.pcpiRs2) (cycles p op * p.stepsAtOnce) u.toAccumulator) :
    (if highHalf op then (u.rd >>> 32).setWidth 32 else u.rd.setWidth 32)
      = op.eval i.pcpiRs1 i.pcpiRs2 := by
  have hle : bits op ≤ cycles p op * p.stepsAtOnce :=
    Nat.le_of_not_lt fun h => absurd ((lt_cycles_iff op hsteps).2 h) (lt_irrefl _)
  rw [bits] at hle
  by_cases hhigh : highHalf op = true
  · rw [if_pos hhigh] at hle
    have hrd := hrows.rd_of_64 hle
    exact mul_result op _ _ (congrArg _ hrd) fun _ => hrd
  · rw [if_neg hhigh] at hle
    obtain rfl : op = .mul := by
      cases op
      · rfl
      all_goals exact absurd rfl hhigh
    exact mul_result .mul _ _ (hrows.rd_low hle toNat_extend_lt) fun h => absurd h (by decide)

theorem Serving.answer (hsteps : 1 ≤ p.stepsAtOnce) (hop : mulOf i.pcpiInsn = some op)
    (hvalid : i.pcpiValid = true) {n : ℕ} (h : Serving p op i u n) (hn : n = 3 + cycles p op) :
    Answering op i (u.step p i true) := by
  have hpos : 0 < cycles p op := (lt_cycles_iff op hsteps).2 (by unfold bits; split <;> omega)
  cases h with
  | rest => omega
  | latched => omega
  | waiting => omega
  | multiplying _ _ _ _ _ _ hm => omega
  | finished hlatched hwait hwaitq hwaiting hfinish hready hrows =>
      obtain ⟨hlatched', hwait'⟩ := hlatched.step (p := p) hop hvalid
      obtain ⟨hwaiting', hfinish'⟩ := step_waiting (p := p) (i := i) hwaiting
      rw [mulStart, hwait, hwaitq] at hwaiting'
      have hanswer : (u.mulFinish && true) = true := by rw [hfinish]; rfl
      refine ⟨hlatched', hanswer, hanswer, ?_, hwaiting', hfinish', hwait', hwait⟩
      show (if u.mulFinish && true then _ else _) = _
      rw [if_pos hanswer, hlatched.instrAnyMulh]
      exact finished_result hsteps hrows

/-- The cycle of the answer and the one after it. -/
theorem Answering.after (h : Answering op i u) {j : PcpiIn} (hj : j.pcpiValid = false) :
    (u.step p i true).pcpiReady = false ∧ Rests ((u.step p i true).step p j true) := by
  obtain ⟨hwaiting, hfinish⟩ := step_waiting (p := p) (i := i) h.mulWaiting
  rw [mulStart, h.pcpiWait, h.pcpiWaitQ] at hwaiting
  obtain ⟨hwaiting', hfinish'⟩ := step_waiting (p := p) (i := j) hwaiting
  have hwait : (u.step p i true).pcpiWait = true := h.latched.instrAnyMul
  have hready : (u.step p i true).pcpiReady = false := step_pcpiReady.trans h.mulFinish
  have hstart : (u.step p i true).mulStart = false := by
    rw [step_mulStart, h.pcpiWait, Bool.not_true, Bool.and_false]
  refine ⟨hready, not_latched_step hj, ?_, ?_, hfinish', step_pcpiReady.trans hfinish⟩
  · rw [step_mulStart, hwait, Bool.not_true, Bool.and_false]
  · rw [hwaiting', hstart]
    rfl

/-! ## Runs -/

/-- The requests of a multiplier and their results. -/
def mulPort {σ : Type} (out : σ → PcpiOut) : Port σ PcpiIn :=
  pcpiPort out fun i => (mulOf i.pcpiInsn).map fun op => op.eval i.pcpiRs1 i.pcpiRs2

theorem server (hsteps : 1 ≤ p.stepsAtOnce) (hsteps' : p.stepsAtOnce ≤ 31)
    (hchain : p.carryChain = 0 ∨ p.carryChain ∣ 64) :
    (mulPort out).Server (fun i u => u.step p i true)
      (fun i => i.pcpiValid = true ∧ (mulOf i.pcpiInsn).isSome = true) Rests := by
  refine ⟨fun s h => h.pcpiReady, fun s i h hvalid => h.next hvalid, ?_⟩
  rintro s i hrests ⟨hvalid, hop⟩
  obtain ⟨op, hop⟩ := Option.isSome_iff_exists.1 hop
  have hserving : ∀ k ≤ 3 + cycles p op,
      Serving p op i ((fun u : PcpiMul => u.step p i true)^[k] s) k := by
    intro k hk
    induction k with
    | zero => exact .rest hrests
    | succ k ih =>
        rw [Function.iterate_succ_apply']
        exact (ih (by omega)).next hsteps hsteps' hchain hop hvalid (by omega)
  have hanswer : Answering op i ((fun u : PcpiMul => u.step p i true)^[3 + cycles p op + 1] s) := by
    rw [Function.iterate_succ_apply']
    exact (hserving _ le_rfl).answer hsteps hop hvalid rfl
  refine ⟨3 + cycles p op + 1, fun k hk => (hserving k (by omega)).pcpiReady, hanswer.pcpiReady,
    ⟨hanswer.pcpiWr, ?_⟩, (hanswer.after (p := p) (j := { i with pcpiValid := false }) rfl).1,
    fun j hj => (hanswer.after hj).2⟩
  refine (congrArg some hanswer.pcpiRd).trans ?_
  dsimp only
  rw [hop, Option.map_some]

/-- The wait signal follows the latch by a cycle, so a reset takes two. -/
theorem rests_reset (u : PcpiMul) (i₀ i₁ : PcpiIn) :
    Rests ((u.step p i₀ false).step p i₁ false) := by
  have hlatch : (u.step p i₀ false).instrAnyMul = false := rfl
  refine ⟨rfl, ?_, rfl, rfl, rfl⟩
  show ((u.step p i₀ false).instrAnyMul && _) = false
  rw [hlatch, Bool.false_and]

end PcpiMul

end PicoSoc.Picorv32
