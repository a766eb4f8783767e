import PicoSoc.Cpu.PcpiMul

set_option autoImplicit false

/-! # The pipelined multiplier (`picorv32_pcpi_fast_mul`)

The macro `RISCV_FORMAL_ALTOPS` is not defined. -/

namespace PicoSoc.Picorv32

open Clocked Rv32m

/-- The parameters `EXTRA_MUL_FFS`, `EXTRA_INSN_FFS` and `MUL_CLKGATE`. -/
structure FastMulParams where
  extraMulFfs : Bool := false
  extraInsnFfs : Bool := false
  mulClkgate : Bool := false

/-- The registers of `picorv32_pcpi_fast_mul`. -/
structure PcpiFastMul where
  shiftOut : Bool
  active : BitVec 4
  rs1 : BitVec 33
  rs2 : BitVec 33
  rs1Q : BitVec 33
  rs2Q : BitVec 33
  rd : BitVec 64
  rdQ : BitVec 64
  pcpiInsnValidQ : Bool
  deriving Inhabited

namespace PcpiFastMul

variable (p : FastMulParams) (i : PcpiIn) (u : PcpiFastMul) (resetn : Bool)

/-- A request for an instruction of the M extension. -/
def pcpiInsnValid : Bool := i.pcpiValid && isMulDiv i.pcpiInsn

/-- The operation at the inputs has the given `funct3`. -/
def instr (f : BitVec 3) : Bool :=
  resetn && (if p.extraInsnFfs then u.pcpiInsnValidQ else pcpiInsnValid i) && funct3 i.pcpiInsn == f

/-- The request is a MUL. -/
def instrMul : Bool := instr p i u resetn 0b000

/-- The request is a MULH. -/
def instrMulh : Bool := instr p i u resetn 0b001

/-- The request is a MULHSU. -/
def instrMulhsu : Bool := instr p i u resetn 0b010

/-- The request is a MULHU. -/
def instrMulhu : Bool := instr p i u resetn 0b011

/-- The request is a multiplication. -/
def instrAnyMul : Bool :=
  instrMul p i u resetn || instrMulh p i u resetn || instrMulhsu p i u resetn
    || instrMulhu p i u resetn

/-- The request asks for the upper half of the product. -/
def instrAnyMulh : Bool :=
  instrMulh p i u resetn || instrMulhsu p i u resetn || instrMulhu p i u resetn

/-- The first operand is signed. -/
def instrRs1Signed : Bool := instrMulh p i u resetn || instrMulhsu p i u resetn

/-- The second operand is signed. -/
def instrRs2Signed : Bool := instrMulh p i u resetn

/-- The operands are taken. -/
def accepts : Bool :=
  instrAnyMul p i u resetn
    && (if p.extraMulFfs then u.active == 0 else u.active.extractLsb' 0 2 == 0)

/-- The clock edge. -/
def step : PcpiFastMul where
  pcpiInsnValidQ := pcpiInsnValid i
  rs1Q := if !p.mulClkgate || u.active.getLsbD 0 then u.rs1 else u.rs1Q
  rs2Q := if !p.mulClkgate || u.active.getLsbD 0 then u.rs2 else u.rs2Q
  rd :=
    if !p.mulClkgate || u.active.getLsbD 1 then
      (if p.extraMulFfs then u.rs1Q else u.rs1).signExtend 64
        * (if p.extraMulFfs then u.rs2Q else u.rs2).signExtend 64
    else u.rd
  rdQ := if !p.mulClkgate || u.active.getLsbD 2 then u.rd else u.rdQ
  rs1 :=
    if accepts p i u resetn then extend 33 (instrRs1Signed p i u resetn) i.pcpiRs1 else u.rs1
  rs2 :=
    if accepts p i u resetn then extend 33 (instrRs2Signed p i u resetn) i.pcpiRs2 else u.rs2
  active :=
    if !resetn then 0 else u.active.extractLsb' 0 3 ++ BitVec.ofBool (accepts p i u resetn)
  shiftOut := instrAnyMulh p i u resetn

/-- The outputs to the core. -/
def out : PcpiOut where
  pcpiWr := u.active.getLsbD (if p.extraMulFfs then 3 else 1)
  pcpiRd :=
    let rd := if p.extraMulFfs then u.rdQ else u.rd
    some (if u.shiftOut then (rd >>> 32).setWidth 32 else rd.setWidth 32)
  pcpiWait := false
  pcpiReady := u.active.getLsbD (if p.extraMulFfs then 3 else 1)

/-! ## The pipeline -/

/-- No request is in the stages that hold a new one back. -/
def Rests (u : PcpiFastMul) : Prop :=
  if p.extraMulFfs then u.active = 0 else u.active.extractLsb' 0 2 = 0

variable {i u} {op : MulOp}

section

variable (extra : Bool)

theorem instr_eq (hop : mulOf i.pcpiInsn = some op) (hvalid : i.pcpiValid = true) :
    instrAnyMul { extraMulFfs := extra } i u true = true
      ∧ instrAnyMulh { extraMulFfs := extra } i u true = highHalf op
      ∧ instrRs1Signed { extraMulFfs := extra } i u true = rs1Signed op
      ∧ instrRs2Signed { extraMulFfs := extra } i u true = rs2Signed op := by
  obtain ⟨hw, h₁, h₂, h₃, h₄⟩ := mulOf_eq_some hop
  have hinstr : ∀ f, instr { extraMulFfs := extra } i u true f = (funct3 i.pcpiInsn == f) := by
    intro f
    show (true && (i.pcpiValid && isMulDiv i.pcpiInsn) && _) = _
    rw [hvalid, hw]
    exact Bool.true_and _
  unfold instrAnyMul instrAnyMulh instrRs1Signed instrRs2Signed instrMul instrMulh instrMulhsu
    instrMulhu
  simp only [hinstr, h₁, h₂, h₃, h₄]
  cases op <;> exact ⟨rfl, rfl, rfl, rfl⟩

theorem accepts_of_not_valid (hvalid : i.pcpiValid = false) :
    accepts { extraMulFfs := extra } i u true = false := by
  have hinstr : ∀ f, instr { extraMulFfs := extra } i u true f = false := by
    intro f
    show (true && (i.pcpiValid && isMulDiv i.pcpiInsn) && _) = _
    rw [hvalid]
    rfl
  unfold accepts instrAnyMul instrMul instrMulh instrMulhsu instrMulhu
  simp only [hinstr]
  rfl

theorem signExtend_extend (signed : Bool) (x : BitVec 32) :
    (extend 33 signed x).signExtend 64 = extend 64 signed x := by
  have htop : (extend 33 signed x).msb = (signed && x.msb) := by
    rw [BitVec.msb_eq_getLsbD_last, extend]
    cases signed
    · simp
    · rw [if_pos rfl, BitVec.getLsbD_signExtend]
      rfl
  apply BitVec.eq_of_getLsbD_eq
  intro k hk
  rw [BitVec.getLsbD_signExtend, htop, extend, extend]
  cases signed
  · simp only [Bool.false_eq_true, if_false, BitVec.getLsbD_setWidth, Bool.false_and]
    by_cases hk' : k < 33
    · rw [if_pos hk', decide_eq_true hk', Bool.true_and]
    · rw [if_neg hk', BitVec.getLsbD_of_ge x k (by omega), Bool.and_false]
  · simp only [if_true, BitVec.getLsbD_signExtend, Bool.true_and]
    by_cases hk' : k < 33
    · rw [if_pos hk', decide_eq_true hk', Bool.true_and]
    · rw [if_neg hk', if_neg (by omega)]

theorem step_active :
    (u.step { extraMulFfs := extra } i true).active =
      u.active.extractLsb' 0 3 ++ BitVec.ofBool (accepts { extraMulFfs := extra } i u true) := rfl

theorem accepts_eq (hop : mulOf i.pcpiInsn = some op) (hvalid : i.pcpiValid = true) :
    accepts { extraMulFfs := extra } i u true
      = if extra then u.active == 0 else u.active.extractLsb' 0 2 == 0 := by
  rw [accepts, (instr_eq extra hop hvalid).1, Bool.true_and]

/-- The operands are taken. -/
theorem step_accept (hop : mulOf i.pcpiInsn = some op) (hvalid : i.pcpiValid = true)
    (h : accepts { extraMulFfs := extra } i u true = true) :
    (u.step { extraMulFfs := extra } i true).rs1 = extend 33 (rs1Signed op) i.pcpiRs1
      ∧ (u.step { extraMulFfs := extra } i true).rs2 = extend 33 (rs2Signed op) i.pcpiRs2 := by
  obtain ⟨-, -, hsigned₁, hsigned₂⟩ := instr_eq (u := u) extra hop hvalid
  show (if accepts _ i u true then _ else _) = _ ∧ (if accepts _ i u true then _ else _) = _
  rw [if_pos h, if_pos h, hsigned₁, hsigned₂]
  exact ⟨rfl, rfl⟩

theorem step_rests (h : Rests { extraMulFfs := extra } u) (hvalid : i.pcpiValid = false) :
    Rests { extraMulFfs := extra } (u.step { extraMulFfs := extra } i true) := by
  have hnone : accepts { extraMulFfs := extra } i u true = false := accepts_of_not_valid extra hvalid
  unfold Rests at h ⊢
  rw [step_active, hnone]
  cases extra
  · have hshift : ∀ a : BitVec 4, a.extractLsb' 0 2 = 0 →
        (a.extractLsb' 0 3 ++ BitVec.ofBool false).extractLsb' 0 2 = 0 := by
      decide
    exact hshift _ h
  · rw [if_pos rfl] at h ⊢
    rw [h]
    rfl

end

/-- The result at the outputs. -/
theorem out_pcpiRd (extra : Bool) (hshift : u.shiftOut = highHalf op)
    (hrd : (if extra then u.rdQ else u.rd)
      = extend 64 (rs1Signed op) i.pcpiRs1 * extend 64 (rs2Signed op) i.pcpiRs2) :
    (u.out { extraMulFfs := extra }).pcpiRd = some (op.eval i.pcpiRs1 i.pcpiRs2) := by
  show some (if u.shiftOut then ((if extra then u.rdQ else u.rd) >>> 32).setWidth 32
    else (if extra then u.rdQ else u.rd).setWidth 32) = _
  rw [hshift, hrd]
  exact congrArg some (mul_result op _ _ rfl fun _ => rfl)

/-- Without the extra registers the answer comes after two cycles. -/
theorem serve_plain {s : PcpiFastMul} (hrests : Rests {} s)
    (hop : mulOf i.pcpiInsn = some op) (hvalid : i.pcpiValid = true) :
    (s.step {} i true).active.extractLsb' 0 2 = 1
      ∧ ((s.step {} i true).step {} i true).active.extractLsb' 0 2 = 2
      ∧ (((s.step {} i true).step {} i true).step {} i true).active.extractLsb' 0 2 = 0
      ∧ (((s.step {} i true).step {} i true).out {}).pcpiRd
        = some (op.eval i.pcpiRs1 i.pcpiRs2) := by
  have hshift : ∀ (a : BitVec 4) (b : Bool), (a.extractLsb' 0 3 ++ BitVec.ofBool b).extractLsb' 0 2
      = (a.extractLsb' 0 2).extractLsb' 0 1 ++ BitVec.ofBool b := by
    decide
  have hrests : s.active.extractLsb' 0 2 = 0 := hrests
  have haccept : accepts {} i s true = true := by
    refine (accepts_eq false hop hvalid).trans ?_
    rw [if_neg (by simp), hrests]
    rfl
  obtain ⟨hrs1, hrs2⟩ := step_accept false hop hvalid haccept
  have h₁ : (s.step {} i true).active.extractLsb' 0 2 = 1 := by
    rw [step_active, hshift, hrests, haccept]
    rfl
  have haccept₁ : accepts {} i (s.step {} i true) true = false := by
    refine (accepts_eq false hop hvalid).trans ?_
    rw [if_neg (by simp), h₁]
    rfl
  have h₂ : ((s.step {} i true).step {} i true).active.extractLsb' 0 2 = 2 := by
    rw [step_active, hshift, h₁, haccept₁]
    rfl
  have haccept₂ : accepts {} i ((s.step {} i true).step {} i true) true = false := by
    refine (accepts_eq false hop hvalid).trans ?_
    rw [if_neg (by simp), h₂]
    rfl
  refine ⟨h₁, h₂, ?_, out_pcpiRd false (instr_eq false hop hvalid).2.1 ?_⟩
  · rw [step_active, hshift, h₂, haccept₂]
    rfl
  · show (s.step {} i true).rs1.signExtend 64 * (s.step {} i true).rs2.signExtend 64 = _
    rw [hrs1, hrs2, signExtend_extend, signExtend_extend]

/-- With them it comes after four. -/
theorem serve_extra {s : PcpiFastMul} (hrests : Rests { extraMulFfs := true } s)
    (hop : mulOf i.pcpiInsn = some op) (hvalid : i.pcpiValid = true) :
    let s₁ := s.step { extraMulFfs := true } i true
    let s₂ := s₁.step { extraMulFfs := true } i true
    let s₃ := s₂.step { extraMulFfs := true } i true
    let s₄ := s₃.step { extraMulFfs := true } i true
    s₁.active = 1 ∧ s₂.active = 2 ∧ s₃.active = 4 ∧ s₄.active = 8
      ∧ (s₄.step { extraMulFfs := true } i true).active = 0
      ∧ (s₄.out { extraMulFfs := true }).pcpiRd = some (op.eval i.pcpiRs1 i.pcpiRs2) := by
  intro s₁ s₂ s₃ s₄
  have hbusy : ∀ {u : PcpiFastMul}, u.active ≠ 0 →
      (u.step { extraMulFfs := true } i true).active = u.active.extractLsb' 0 3 ++ 0#1
        ∧ (u.step { extraMulFfs := true } i true).rs1 = u.rs1
        ∧ (u.step { extraMulFfs := true } i true).rs2 = u.rs2 := by
    intro u hu
    have hnone : accepts { extraMulFfs := true } i u true = false := by
      rw [accepts_eq true hop hvalid, if_pos rfl]
      exact beq_false_of_ne hu
    refine ⟨?_, ?_, ?_⟩
    · rw [step_active, hnone]
      rfl
    · show (if accepts _ i u true then _ else _) = _
      rw [hnone, if_neg (by simp)]
    · show (if accepts _ i u true then _ else _) = _
      rw [hnone, if_neg (by simp)]
  have hrests : s.active = 0 := hrests
  have haccept : accepts { extraMulFfs := true } i s true = true := by
    rw [accepts_eq true hop hvalid, if_pos rfl, hrests]
    rfl
  obtain ⟨hrs1, hrs2⟩ := step_accept true hop hvalid haccept
  have h₁ : s₁.active = 1 := by
    show (s.step { extraMulFfs := true } i true).active = 1
    rw [step_active, hrests, haccept]
    rfl
  have h₂ : s₂.active = 2 := (hbusy (by rw [h₁]; decide)).1.trans (by rw [h₁]; rfl)
  have h₃ : s₃.active = 4 := (hbusy (by rw [h₂]; decide)).1.trans (by rw [h₂]; rfl)
  have h₄ : s₄.active = 8 := (hbusy (by rw [h₃]; decide)).1.trans (by rw [h₃]; rfl)
  refine ⟨h₁, h₂, h₃, h₄, (hbusy (by rw [h₄]; decide)).1.trans (by rw [h₄]; rfl),
    out_pcpiRd true (instr_eq true hop hvalid).2.1 ?_⟩
  show s₁.rs1.signExtend 64 * s₁.rs2.signExtend 64 = _
  rw [hrs1, hrs2, signExtend_extend, signExtend_extend]

/-! ## Runs -/

open PcpiMul (mulPort)

theorem pcpiReady_of_low {active : BitVec 2} (h : u.active.extractLsb' 0 2 = active) :
    (u.out {}).pcpiReady = active.getLsbD 1 ∧ (u.out {}).pcpiWr = active.getLsbD 1 := by
  have hbit : u.active.getLsbD 1 = active.getLsbD 1 := by
    rw [← h, BitVec.getLsbD_extractLsb']
    rfl
  exact ⟨hbit, hbit⟩

theorem pcpiReady_of_active {active : BitVec 4} (h : u.active = active) :
    (u.out { extraMulFfs := true }).pcpiReady = active.getLsbD 3
      ∧ (u.out { extraMulFfs := true }).pcpiWr = active.getLsbD 3 := by
  subst h
  exact ⟨rfl, rfl⟩

theorem server (extra : Bool) :
    (mulPort (out { extraMulFfs := extra })).Server
      (fun i u => u.step { extraMulFfs := extra } i true)
      (fun i => i.pcpiValid = true ∧ (mulOf i.pcpiInsn).isSome = true)
      (Rests { extraMulFfs := extra }) := by
  refine ⟨fun s h => ?_, fun s i h hvalid => step_rests extra h hvalid, ?_⟩
  · cases extra
    · exact (pcpiReady_of_low h).1
    · exact (pcpiReady_of_active h).1
  rintro s i hrests ⟨hvalid, hop⟩
  obtain ⟨op, hop⟩ := Option.isSome_iff_exists.1 hop
  have hresult : (mulOf i.pcpiInsn).map (fun op => op.eval i.pcpiRs1 i.pcpiRs2)
      = some (op.eval i.pcpiRs1 i.pcpiRs2) := by
    rw [hop, Option.map_some]
  cases extra
  · obtain ⟨h₁, h₂, h₃, hrd⟩ := serve_plain hrests hop hvalid
    refine ⟨2, fun k hk => ?_, (pcpiReady_of_low h₂).1,
      ⟨(pcpiReady_of_low h₂).2, hrd.trans hresult.symm⟩, (pcpiReady_of_low h₃).1,
      fun j hj => step_rests false h₃ hj⟩
    interval_cases k
    · exact (pcpiReady_of_low hrests).1
    · exact (pcpiReady_of_low h₁).1
  · obtain ⟨h₁, h₂, h₃, h₄, h₅, hrd⟩ := serve_extra hrests hop hvalid
    refine ⟨4, fun k hk => ?_, (pcpiReady_of_active h₄).1,
      ⟨(pcpiReady_of_active h₄).2, hrd.trans hresult.symm⟩, (pcpiReady_of_active h₅).1,
      fun j hj => step_rests true h₅ hj⟩
    interval_cases k
    · exact (pcpiReady_of_active hrests).1
    · exact (pcpiReady_of_active h₁).1
    · exact (pcpiReady_of_active h₂).1
    · exact (pcpiReady_of_active h₃).1

/-- One cycle of reset empties the pipeline. -/
theorem rests_reset (extra : Bool) (u : PcpiFastMul) (i : PcpiIn) :
    Rests { extraMulFfs := extra } (u.step { extraMulFfs := extra } i false) := by
  cases extra <;> rfl

end PcpiFastMul

/-- Both multipliers answer every request once, with the half of the product that the instruction
    asks for. -/
theorem multipliers_answer (p : MulParams) (extra : Bool) (hsteps : 1 ≤ p.stepsAtOnce)
    (hsteps' : p.stepsAtOnce ≤ 31) (hchain : p.carryChain = 0 ∨ p.carryChain ∣ 64) :
    (∀ (u : PcpiMul) (i₀ i₁ : PcpiIn) (env : ℕ → PcpiIn),
      (∀ n, (env n).pcpiValid = true → (mulOf (env n).pcpiInsn).isSome = true) →
      (PcpiMul.mulPort PcpiMul.out).Held (fun i u => u.step p i true) env
        ((u.step p i₀ false).step p i₁ false) →
      (PcpiMul.mulPort PcpiMul.out).AnsweredOnce (fun i u => u.step p i true) env
        ((u.step p i₀ false).step p i₁ false))
    ∧ ∀ (u : PcpiFastMul) (i₀ : PcpiIn) (env : ℕ → PcpiIn),
      (∀ n, (env n).pcpiValid = true → (mulOf (env n).pcpiInsn).isSome = true) →
      (PcpiMul.mulPort (PcpiFastMul.out { extraMulFfs := extra })).Held
        (fun i u => u.step { extraMulFfs := extra } i true) env
        (u.step { extraMulFfs := extra } i₀ false) →
      (PcpiMul.mulPort (PcpiFastMul.out { extraMulFfs := extra })).AnsweredOnce
        (fun i u => u.step { extraMulFfs := extra } i true) env
        (u.step { extraMulFfs := extra } i₀ false) :=
  ⟨fun u i₀ i₁ _ hop hheld =>
    (PcpiMul.server hsteps hsteps' hchain).answeredOnce hheld (fun n hn => ⟨hn, hop n hn⟩)
      (PcpiMul.rests_reset u i₀ i₁),
    fun u i₀ _ hop hheld =>
    (PcpiFastMul.server extra).answeredOnce hheld (fun n hn => ⟨hn, hop n hn⟩)
      (PcpiFastMul.rests_reset extra u i₀)⟩

/-- `mulh a0, a0, a1` of the smallest number and -1, held until cycle `last`. -/
def mulhUntil (last n : ℕ) : PcpiIn where
  pcpiValid := decide (n ≤ last)
  pcpiInsn := 0x02b51533
  pcpiRs1 := 0x80000000
  pcpiRs2 := 0xFFFFFFFF

/-- The sequential multiplier answers in cycle 12, the pipelined one in cycle 4. -/
theorem multipliers_answer_mulh :
    (PcpiMul.mulPort PcpiMul.out).AnsweredOnce
        (fun i u => u.step { stepsAtOnce := 8, carryChain := 4 } i true) (mulhUntil 12)
        (((default : PcpiMul).step { stepsAtOnce := 8, carryChain := 4 } default false).step
          { stepsAtOnce := 8, carryChain := 4 } default false)
      ∧ (PcpiMul.mulPort (PcpiFastMul.out { extraMulFfs := true })).AnsweredOnce
        (fun i u => u.step { extraMulFfs := true } i true) (mulhUntil 4)
        ((default : PcpiFastMul).step { extraMulFfs := true } default false) := by
  have hop : ∀ last n, (mulhUntil last n).pcpiValid = true →
      (mulOf (mulhUntil last n).pcpiInsn).isSome = true := by
    intro last n _
    show (mulOf 0x02b51533).isSome = true
    decide
  have hanswer := multipliers_answer { stepsAtOnce := 8, carryChain := 4 } true (by decide)
    (by decide) (.inr ⟨16, rfl⟩)
  refine ⟨hanswer.1 default default default (mulhUntil 12) (hop 12) fun n hn => ?_,
    hanswer.2 default default (mulhUntil 4) (hop 4) fun n hn => ?_⟩
  · have hcycles : ∀ n < 13,
        if (PcpiMul.mulPort PcpiMul.out).ready
          (run (fun i u => u.step { stepsAtOnce := 8, carryChain := 4 } i true) (mulhUntil 12)
            (((default : PcpiMul).step { stepsAtOnce := 8, carryChain := 4 } default false).step
              { stepsAtOnce := 8, carryChain := 4 } default false) n) then
          (mulhUntil 12 (n + 1)).pcpiValid = false
        else mulhUntil 12 (n + 1) = mulhUntil 12 n := by
      decide +kernel
    exact hcycles n (Nat.lt_succ_of_le (of_decide_eq_true hn))
  · have hcycles : ∀ n < 5,
        if (PcpiMul.mulPort (PcpiFastMul.out { extraMulFfs := true })).ready
          (run (fun i u => u.step { extraMulFfs := true } i true) (mulhUntil 4)
            ((default : PcpiFastMul).step { extraMulFfs := true } default false) n) then
          (mulhUntil 4 (n + 1)).pcpiValid = false
        else mulhUntil 4 (n + 1) = mulhUntil 4 n := by
      decide +kernel
    exact hcycles n (Nat.lt_succ_of_le (of_decide_eq_true hn))

end PicoSoc.Picorv32
