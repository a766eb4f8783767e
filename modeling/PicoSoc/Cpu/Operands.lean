import PicoSoc.Cpu.Boundary
import PicoSoc.Cpu.Commit

set_option autoImplicit false

/-! # From the launch to the operands

The launch clears the latches and reads the registers; the instruction then stands with its operands
in the state that works on them. JAL is done at once. -/

namespace PicoSoc.Picorv32

open Rv32i (Instr AluOp Cond LoadOp StoreOp Hart)

variable {p : Params} {h : Hart} {s : Machine} {i : Inputs} {instr : Instr}

/-! ## The write of a register -/

theorem written_some {s : State} {x : Rv32i.Regs} {rd : BitVec 5} {v : BitVec 32}
    (hregs : Agrees x s.cpuregs) (hw : cpuregsWrite p s = some v)
    (hrd : s.main.latchedRd = rd.setWidth 6) :
    Agrees (x.write rd v) (written p s) ∧ retires p s = regWrite rd v := by
  have hzero : (rd.setWidth 6 = (0 : BitVec 6)) ↔ rd = 0 := by
    constructor
    · intro h
      have h := congrArg BitVec.toNat h
      have hlt := rd.isLt
      rw [BitVec.toNat_setWidth, Nat.mod_eq_of_lt (by omega)] at h
      exact BitVec.eq_of_toNat_eq h
    · rintro rfl
      rfl
  have hinj : ∀ {q : BitVec 5}, q ≠ rd → q.setWidth 6 ≠ rd.setWidth 6 := by
    intro q hq h
    have h := congrArg BitVec.toNat h
    have hlt := rd.isLt
    have hlt' := q.isLt
    rw [BitVec.toNat_setWidth, BitVec.toNat_setWidth, Nat.mod_eq_of_lt (by omega),
      Nat.mod_eq_of_lt (by omega)] at h
    exact hq (BitVec.eq_of_toNat_eq h)
  constructor
  · intro q hq
    rw [written, hw, hrd]
    show (if rd.setWidth 6 = 0 then s.cpuregs else Function.update s.cpuregs (rd.setWidth 6) v)
      (q.setWidth 6) = if q = rd ∧ q ≠ 0 then v else x.read q
    by_cases hqrd : q = rd
    · subst hqrd
      rw [if_neg (hzero.not.2 hq), if_pos ⟨rfl, hq⟩, Function.update_self]
    · rw [if_neg (c := q = rd ∧ q ≠ 0) fun hc => hqrd hc.1]
      split_ifs
      · exact hregs q hq
      · rw [Function.update_of_ne (hinj hqrd)]
        exact hregs q hq
  · rw [retires, hw, hrd, regWrite]
    simp only [hzero]

theorem written_none {s : State} {x : Rv32i.Regs} (hregs : Agrees x s.cpuregs)
    (hw : s.main.latchedRd = 0 ∨ cpuregsWrite p s = none) :
    Agrees x (written p s) ∧ retires p s = [] := by
  rcases hw with hw | hw
  · rw [written, retires, hw]
    cases cpuregsWrite p s with
    | none => exact ⟨hregs, rfl⟩
    | some v => exact ⟨hregs, rfl⟩
  · rw [written, retires, hw]
    exact ⟨hregs, rfl⟩

/-! ## Launch -/

/-- The cycle of a launch. -/
theorem fetch_launches {s : State} {w : Work} (hp : Plain p) (hcpu : s.main.cpuState = .fetch)
    (ht : s.main.decoderTrigger = true) (hretirq : s.first.instrRetirq = false) :
    cpuStateCase p s i w = { w with main := { w.main with
      memDoRinst := s.first.instrJal
      memDoPrefetch :=
        if s.first.instrJal then w.main.memDoPrefetch else !s.first.instrJalr
      cpuState := if s.first.instrJal then w.main.cpuState else .ldRs1
      memWordsize := 0
      regPc := branchPc s
      regNextPc := branchPc s + if s.first.instrJal then s.first.decodedImmJ else insnSize s
      latchedStore := false
      latchedStalu := false
      latchedBranch := s.first.instrJal
      latchedIsLu := false
      latchedIsLh := false
      latchedIsLb := false
      latchedRd := s.first.decodedRd
      latchedCompr := s.first.compressedInstr
      irq := { w.main.irq with irqDelay := s.main.irq.irqActive }
      countInstr := (fetchState p s w).main.countInstr } } := by
  rw [cpuStateCase, hcpu]
  cases hjal : s.first.instrJal <;>
    simp only [fetchState, hp.enableIrq, ht, hjal, hretirq, Bool.false_and, Bool.not_true,
      Bool.not_false, Bool.and_true, Bool.false_eq_true, if_false, if_true]

/-- The registers outside the main state machine at a launch. -/
theorem Launch.rest (hr : i.resetn = true) {l : List Event} (h₀ : Launch p h l s) :
    (s.step p i).core.first = decodeFirst p (h.mem.word h.pc)
      ∧ (∃ u, (s.step p i).core.second =
        decodeSecond p (decodeFirst p (h.mem.word h.pc)) (h.mem.word h.pc) u)
      ∧ Agrees h.x (s.step p i).core.cpuregs ∧ (s.step p i).mem = h.mem
      ∧ Free (s.step p i).core ∧ memDone s.core (s.inputs i) = false := by
  have hr' : (s.inputs i).resetn = true := by rw [inputs_resetn, hr]
  have hdone := h₀.free.done (s.inputs i)
  refine ⟨?_, h₀.second _ hr', ?_, ?_, h₀.free.hold hr h₀.trap h₀.asks, hdone⟩
  · show firstStep p s.core (s.inputs i) = _
    rw [firstStep, hdone, hr', Bool.and_false]
    exact h₀.first
  · rw [cpuregs_edge hr]
    exact h₀.regs
  · rw [step_mem_of_not_xfer (h₀.free.xfer i)]
    exact h₀.mem

/-- JAL goes straight to the target. -/
theorem Launch.jal (hp : Plain p) (hr : i.resetn = true) {l : List Event} {rd : BitVec 5}
    {imm : BitVec 32} (henc : Encodes (h.mem.word h.pc) (.jal rd imm)) (h₀ : Launch p h l s) :
    Asked p (after h (.jal rd imm)) (regEvents h (.jal rd imm)) (s.step p i) := by
  obtain ⟨hfirst, -, hregs, hmem, hfree, hdone⟩ := h₀.rest hr
  have hjal : s.core.first.instrJal = true := by
    rw [h₀.first]
    cases henc with
    | jal hop => simp [decodeFirst, hop]
  have himm : s.core.first.decodedImmJ = imm := by
    rw [h₀.first]
    cases henc
    rfl
  have hlatchedRd : s.core.first.decodedRd = rd.setWidth 6 := by
    rw [h₀.first, decodedRd_plain hp]
    cases henc
    rfl
  have hmain := main_edge hp hr (not_faulty h₀.asks fun hc => absurd hc (by decide))
  rw [fetch_launches hp h₀.cpuState h₀.decoderTrigger (by rw [h₀.first]; exact (retirq_plain hp _).1),
    hdone, hjal, himm, h₀.pc] at hmain
  -- the link is written in the fetch cycle that follows
  have hwrite : cpuregsWrite p (s.step p i).core = some (h.pc + 4) := by
    rw [cpuregsWrite, hmain]
    show (if s.core.main.cpuState = .fetch then some (h.pc + if s.core.first.compressedInstr then 2
      else 4) else none) = _
    rw [if_pos h₀.cpuState, h₀.first]
    rfl
  have hrd : (s.step p i).core.main.latchedRd = rd.setWidth 6 := by
    rw [hmain]
    exact hlatchedRd
  obtain ⟨hregs', hshows⟩ := written_some hregs hwrite hrd
  refine ⟨⟨?_, ?_, ?_, ?_, hregs', hshows, hmem⟩, ?_, ?_, hfree, ?_, ?_⟩
  · rw [hmain]
    rfl
  · rw [hmain]
    rfl
  · rw [hmain]
    exact h₀.cpuState
  · rw [branchPc, hmain]
    rfl
  · rw [hmain]
    show (s.core.main.memDoRinst && memDone s.core (s.inputs i)) = false
    rw [hdone, Bool.and_false]
  · rw [hmain]
    exact Asks.finished ⟨h₀.asks.prefetch, rfl, h₀.asks.rdata, h₀.asks.wdata⟩ rfl rfl rfl
  · rw [nextPc, hmain]
    rfl
  · rw [hmain]
    exact h₀.aligned

/-- Every other instruction reads its first register. -/
theorem Launch.ldRs1 (hp : Plain p) (hr : i.resetn = true) {l : List Event}
    (hjal : (decodeFirst p (h.mem.word h.pc)).instrJal = false) (h₀ : Launch p h l s) :
    LdRs1 p h (!(decodeFirst p (h.mem.word h.pc)).instrJalr) (s.step p i) := by
  have hr' : (s.inputs i).resetn = true := by rw [inputs_resetn, hr]
  obtain ⟨hfirst, hsecond, hregs, hmem, hfree, hdone⟩ := h₀.rest hr
  have hmain := main_edge hp hr (not_faulty h₀.asks fun hc => absurd hc (by decide))
  rw [fetch_launches hp h₀.cpuState h₀.decoderTrigger (by rw [h₀.first]; exact (retirq_plain hp _).1),
    hdone, h₀.first, hjal, h₀.pc] at hmain
  refine { trap := ?_, doWaitirq := ?_, decoderTrigger := ?_, regPc := ?_, regNextPc := ?_
           aligned := h₀.aligned, latchedRd := fun _ => ?_, latchedStalu := ?_, latchedCompr := ?_
           first := hfirst, second := hsecond, cpuregs := hregs, mem := hmem, cpuState := ?_
           asks := ?_, free := hfree, latchedStore := ?_, latchedBranch := ?_
           isLuiAuipcJal := ?_ }
  · rw [hmain]
    rfl
  · rw [hmain]
    rfl
  · rw [hmain]
    show (s.core.main.memDoRinst && memDone s.core (s.inputs i)) = false
    rw [hdone, Bool.and_false]
  · rw [hmain]
    rfl
  · rw [hmain]
    show h.pc + insnSize s.core = _
    rw [insnSize, h₀.first]
    rfl
  · rw [hmain]
    exact decodedRd_plain hp _
  · rw [hmain]
    rfl
  · rw [hmain]
    rfl
  · rw [hmain]
    rfl
  · rw [hmain]
    exact Asks.finished ⟨rfl, rfl, h₀.asks.rdata, h₀.asks.wdata⟩ rfl rfl rfl
  · rw [hmain]
    rfl
  · rw [hmain]
    rfl
  · rw [hfirst]
    show (classesStep s.core (s.inputs i)).isLuiAuipcJal = _
    rw [classesStep, hr', h₀.first]
    cases decodes s.core <;> simp [classify]

/-! ## Operands -/

def Work.operands (w : Work) (x y : BitVec 32) (n : BitVec 5) : Work :=
  { w with main := { w.main with regOp1 := x, regOp2 := y, regSh := n } }

/-- Into the state `exec`, with the waits of the ALU. -/
def Work.toAlu (p : Params) (prefetch slow : Bool) (w : Work) : Work :=
  { w with main := { w.main with
      cpuState := .exec
      aluWait := p.twoCycleAlu || slow
      aluWait2 := p.twoCycleAlu && slow
      memDoRinst := if p.twoCycleAlu || slow then w.main.memDoRinst else prefetch } }

theorem toExec_eq {s : State} {x y : BitVec 32} {w : Work} (h₁ : w.main.aluWait = false)
    (h₂ : w.main.aluWait2 = false) :
    toExec p s x y w = (w.operands x y w.main.regSh).toAlu p s.main.memDoPrefetch false := by
  obtain ⟨m, _, _, _, _⟩ := w
  cases m
  dsimp only at h₁ h₂
  subst h₁ h₂
  rw [toExec, Work.operands, Work.toAlu]
  cases p.twoCycleAlu <;> rfl

/-- The last choice of `operandsState`. -/
theorem operandsState_exec {s : State} {w : Work} (h₁ : w.main.aluWait = false)
    (h₂ : w.main.aluWait2 = false) (hstore : s.first.isSbShSw = false)
    (hshift : (s.second.isSllSrlSra && !p.barrelShifter) = false) :
    operandsState p s w = w.toAlu p s.main.memDoPrefetch (slowCompare p s.first) := by
  obtain ⟨m, _, _, _, _⟩ := w
  cases m
  dsimp only at h₁ h₂
  subst h₁ h₂
  rw [operandsState, hstore, hshift, Work.toAlu, slowCompare]
  cases p.twoCycleAlu <;> cases p.twoCycleCompare && s.first.isBeqBneBltBgeBltuBgeu <;> rfl

/-- The ALU begins. -/
theorem Exec.start (hr : i.resetn = true) (h₀ : Flight p h s)
    (hcpu : s.core.main.cpuState ≠ .fetch) (hdone : memDone s.core (s.inputs i) = false)
    (hmem : (s.step p i).mem = s.mem) {b : Bool} (ha : Asks s.core.main b false false false)
    (hahead : Ahead b (h.pc + 4) (s.step p i)) {slow : Bool}
    (hslow : slowCompare p s.core.first = slow) {x y : BitVec 32} {n : BitVec 5}
    (hmain : (s.step p i).core.main =
      (((defaults p s.core (s.inputs i)).operands x y n).toAlu p s.core.main.memDoPrefetch
        slow).finished p false) :
    Exec p h b x y (p.twoCycleAlu || slow) (p.twoCycleAlu && slow) (s.step p i) := by
  subst hslow
  obtain ⟨hfirst, hsecond, -, hclasses⟩ := rest_edge (p := p) hr h₀.decoderTrigger hcpu hdone
  have hflight : Flight p h (s.step p i) :=
    h₀.edge hr hcpu hdone hmem (hdone ▸ hmain) ⟨rfl, rfl, rfl, rfl, rfl, rfl, rfl⟩ (.inl rfl)
  refine { hflight with
    cpuState := ?_, asks := ?_, ahead := hahead, regOp1 := ?_, regOp2 := ?_, aluWait := ?_
    aluWait2 := ?_, waits := ?_, waits2 := ?_, classes := ?_, alu := ?_, compare := ?_ }
  · rw [hmain]
    rfl
  · rw [hmain]
    refine Asks.finished ⟨ha.prefetch, ?_, ha.rdata, ha.wdata⟩ rfl rfl rfl
    show (if p.twoCycleAlu || slowCompare p s.core.first then s.core.main.memDoRinst
      else s.core.main.memDoPrefetch) = _
    rw [ha.rinst, ha.prefetch]
    cases p.twoCycleAlu || slowCompare p s.core.first <;> simp
  · rw [hmain]
    rfl
  · rw [hmain]
    rfl
  · rw [hmain]
    rfl
  · rw [hmain]
    rfl
  · intro hwait
    rcases Bool.or_eq_true_iff.1 hwait with hwait | hwait
    · rw [hwait, Bool.true_or]
    · rw [(Bool.and_eq_true_iff.1 hwait).1, Bool.or_true]
  · intro hwait
    rw [(Bool.and_eq_true_iff.1 hwait).1, Bool.true_or]
  · rw [hfirst, hsecond]
    exact hclasses
  · -- with `TWO_CYCLE_ALU` the first cycle is a waiting one
    intro hlast hslow
    cases htwo : p.twoCycleAlu with
    | false => rw [aluNow, htwo, if_neg (by decide)]
    | true =>
        rw [hfirst, htwo, Bool.true_or] at hslow
        rw [htwo, hslow rfl] at hlast
        exact absurd hlast (by decide)
  · intro hlast hslow
    rw [hfirst] at hslow
    rw [hslow, Bool.or_true] at hlast
    exact absurd hlast (by decide)

/-- A shift begins. -/
theorem Shift.start (hr : i.resetn = true) (h₀ : Flight p h s)
    (hcpu : s.core.main.cpuState ≠ .fetch) (hdone : memDone s.core (s.inputs i) = false)
    (hmem : (s.step p i).mem = s.mem) (ha : Asks s.core.main true false false false)
    (hbranch : s.core.main.latchedBranch = false) (hfetching : Fetching (h.pc + 4) (s.step p i))
    {x y : BitVec 32} {n : BitVec 5}
    (hmain : (s.step p i).core.main =
      Work.finished p (let w := (defaults p s.core (s.inputs i)).operands x y n
        { w with main := { w.main with cpuState := .shift } }) false) :
    Shift p h x n (s.step p i) := by
  have hflight : Flight p h (s.step p i) :=
    h₀.edge hr hcpu hdone hmem (hdone ▸ hmain) ⟨rfl, rfl, rfl, rfl, rfl, rfl, rfl⟩ (.inl rfl)
  refine { hflight with
    cpuState := ?_, asks := ?_, fetching := hfetching, regOp1 := ?_, regSh := ?_
    latchedBranch := ?_ }
  · rw [hmain]
    rfl
  · rw [hmain]
    exact Asks.finished ⟨ha.prefetch, ha.rinst, ha.rdata, ha.wdata⟩ rfl rfl rfl
  · rw [hmain]
    rfl
  · rw [hmain]
    rfl
  · rw [hmain]
    exact hbranch

/-- A load or store begins with the wait for the next instruction. -/
theorem Access.start (hr : i.resetn = true) (h₀ : Flight p h s)
    (hcpu : s.core.main.cpuState ≠ .fetch) (hdone : memDone s.core (s.inputs i) = false)
    (hmem : (s.step p i).mem = s.mem) (ha : Asks s.core.main true false false false)
    (hbranch : s.core.main.latchedBranch = false) (hstore : s.core.main.latchedStore = false)
    (hfetching : Fetching (h.pc + 4) (s.step p i)) {state : CpuState} {x y : BitVec 32} {n : BitVec 5}
    (hmain : (s.step p i).core.main =
      Work.finished p (let w := (defaults p s.core (s.inputs i)).operands x y n
        { w with main := { w.main with cpuState := state, memDoRinst := true } }) false) :
    Access p h state x y (s.step p i) := by
  obtain ⟨hfirst, hsecond, -, hclasses⟩ := rest_edge (p := p) hr h₀.decoderTrigger hcpu hdone
  have hflight : Flight p h (s.step p i) :=
    h₀.edge hr hcpu hdone hmem (hdone ▸ hmain) ⟨rfl, rfl, rfl, rfl, rfl, rfl, rfl⟩ (.inl rfl)
  refine { hflight with
    cpuState := ?_, asks := ?_, fetching := hfetching, regOp1 := ?_, regOp2 := fun _ => ?_
    latchedStore := fun _ => ?_, latchedBranch := ?_, classes := ?_ }
  · rw [hmain]
    rfl
  · rw [hmain]
    exact Asks.finished ⟨ha.prefetch, rfl, ha.rdata, ha.wdata⟩ rfl rfl rfl
  · rw [hmain]
    rfl
  · rw [hmain]
    rfl
  · rw [hmain]
    exact hstore
  · rw [hmain]
    exact hbranch
  · rw [hfirst, hsecond]
    exact hclasses

/-! ## Operands of an instruction -/

/-- What the ALU or the shifter works out. -/
def aluResult (h : Hart) : Instr → BitVec 32
  | .lui _ imm => imm
  | .auipc _ imm => h.pc + imm
  | .jalr _ rs1 imm => h.x.read rs1 + imm
  | .opImm op _ rs1 imm => op.eval (h.x.read rs1) imm
  | .opReg op _ rs1 rs2 => op.eval (h.x.read rs1) (h.x.read rs2)
  | _ => 0

/-- The instructions with two source registers. -/
def operandRegs : Instr → Option (BitVec 5 × BitVec 5)
  | .branch _ rs1 rs2 _ | .store _ rs1 rs2 _ | .opReg _ _ rs1 rs2 => some (rs1, rs2)
  | _ => none

/-- The instruction has its operands, in the state that works on them. -/
inductive Ready (p : Params) (h : Hart) (s : Machine) : Instr → Prop
  | alu {instr : Instr} {op : AluOp} {x y : BitVec 32} {wait wait2 : Bool}
      (hop : aluOp instr = some op) (hvalue : op.eval x y = aluResult h instr)
      (hbarrel : isShift op = true → p.barrelShifter = true)
      (hexec : Exec p h (!(controlOf instr).jalr) x y wait wait2 s) : Ready p h s instr
  | compare {c : Cond} {rs1 rs2 : BitVec 5} {imm : BitVec 32} {wait wait2 : Bool}
      (hexec : Exec p h true (h.x.read rs1) (h.x.read rs2) wait wait2 s) :
      Ready p h s (.branch c rs1 rs2 imm)
  | shift {instr : Instr} {op : AluOp} {x : BitVec 32} {n : BitVec 5}
      (hop : shiftOp instr = some op) (hvalue : shiftBy x n.toNat op = aluResult h instr)
      (hshift : Shift p h x n s) : Ready p h s instr
  | load {k : LoadOp} {rd rs1 : BitVec 5} {imm y : BitVec 32}
      (haccess : Access p h .ldmem (h.x.read rs1) y s) : Ready p h s (.load k rd rs1 imm)
  | store {k : StoreOp} {rs1 rs2 : BitVec 5} {imm : BitVec 32}
      (haccess : Access p h .stmem (h.x.read rs1) (h.x.read rs2) s) :
      Ready p h s (.store k rs1 rs2 imm)

/-- With both registers read, by `ld_rs1` or `ld_rs2`. -/
theorem Ready.of_operands (hr : i.resetn = true) (henc : Encodes (h.mem.word h.pc) instr)
    (h₀ : Flight p h s) (hcpu : s.core.main.cpuState ≠ .fetch)
    (hdone : memDone s.core (s.inputs i) = false) (hmem : (s.step p i).mem = s.mem)
    (ha : Asks s.core.main true false false false) (hbranch : s.core.main.latchedBranch = false)
    (hstore : s.core.main.latchedStore = false) (hfetching : Fetching (h.pc + 4) (s.step p i))
    {rs1 rs2 : BitVec 5} (hregs : operandRegs instr = some (rs1, rs2))
    (hmain : (s.step p i).core.main =
      (operandsState p s.core ((defaults p s.core (s.inputs i)).operands (h.x.read rs1)
        (h.x.read rs2) ((h.x.read rs2).setWidth 5))).finished p false) :
    Ready p h (s.step p i) instr := by
  obtain ⟨u, hu⟩ := h₀.second
  have hcontrol : control s.core.first s.core.second = controlOf instr := by
    rw [h₀.first, hu]
    exact control_of_encodes henc u
  have hst : s.core.first.isSbShSw = (controlOf instr).store := congrArg Control.store hcontrol
  have hsh : s.core.second.isSllSrlSra = (controlOf instr).shiftReg :=
    congrArg Control.shiftReg hcontrol
  -- `exec`, unless the instruction stores or shifts without the barrel shifter
  have hexec : (controlOf instr).store = false →
      ((controlOf instr).shiftReg && !p.barrelShifter) = false →
      Exec p h true (h.x.read rs1) (h.x.read rs2) (p.twoCycleAlu || slowCompare p s.core.first)
        (p.twoCycleAlu && slowCompare p s.core.first) (s.step p i) := by
    intro h₁ h₂
    rw [operandsState_exec rfl rfl (hst.trans h₁) (by rw [hsh, h₂])] at hmain
    exact .start hr h₀ hcpu hdone hmem ha hfetching rfl hmain
  cases instr with
  | branch c q1 q2 imm =>
      cases hregs
      exact .compare (hexec rfl rfl)
  | store k q1 q2 imm =>
      cases hregs
      have hst : s.core.first.isSbShSw = true := hst
      rw [operandsState, if_pos hst] at hmain
      exact .store (.start hr h₀ hcpu hdone hmem ha hbranch hstore hfetching hmain)
  | opReg op rd q1 q2 =>
      cases hregs
      cases hshift : isShift op && !p.barrelShifter with
      | false =>
          refine .alu rfl rfl (fun hop => ?_) (hexec rfl hshift)
          rwa [hop, Bool.true_and, Bool.not_eq_false'] at hshift
      | true =>
          have hop := (Bool.and_eq_true_iff.1 hshift).1
          have hst : s.core.first.isSbShSw = false := hst
          have hsh : (s.core.second.isSllSrlSra && !p.barrelShifter) = true := by
            rw [hsh]
            exact hshift
          rw [operandsState, if_neg (by rw [hst]; decide), if_pos hsh] at hmain
          refine .shift (if_pos hop) ?_ (.start hr h₀ hcpu hdone hmem ha hbranch hfetching hmain)
          rw [aluResult, eval_of_isShift hop, Rv32i.shamt, BitVec.setWidth_eq_extractLsb' (by decide)]
  | _ => cases hregs

/-! ## The first register -/

theorem index_bne_zero {q : BitVec 5} (hq : q ≠ 0) : (q.setWidth 6 != 0) = true := by
  refine bne_iff_ne.2 fun h => hq (BitVec.eq_of_toNat_eq ?_)
  have h := congrArg BitVec.toNat h
  have hlt := q.isLt
  rwa [BitVec.toNat_setWidth, Nat.mod_eq_of_lt (by omega)] at h

theorem readReg_agrees {s : State} {x : Rv32i.Regs} (hregs : Agrees x s.cpuregs) (q : BitVec 5) :
    readReg s (q.setWidth 6) = x.read q := by
  by_cases hq : q = 0
  · subst hq
    exact x.zero.symm
  · rw [readReg, if_pos (index_bne_zero hq)]
    exact hregs q hq

/-- The choices of `ld_rs1` that the instruction set can take. -/
theorem ldRs1_plain {s : State} {w : Work} (hp : Plain p)
    (htrap : instrTrap p s.first s.second = false)
    (hcount : isRdcycleRdcyclehRdinstrRdinstrh s.second = false) :
    ldRs1State p s i w =
      let w := w.operands i.undef.regOp1 i.undef.regOp2 w.main.regSh
      if s.classes.isLuiAuipcJal then
        toExec p s (if s.first.instrLui then 0 else s.main.regPc) s.second.decodedImm w
      else if s.first.isLbLhLwLbuLhu then
        let w := w.operands (cpuregsRs1 p s) w.main.regOp2 w.main.regSh
        { w with main := { w.main with cpuState := .ldmem, memDoRinst := true } }
      else if s.second.isSlliSrliSrai && !p.barrelShifter then
        let w := w.operands (cpuregsRs1 p s) w.main.regOp2 s.first.decodedRs2
        { w with main := { w.main with cpuState := .shift } }
      else if s.second.isJalrAddiSltiSltiuXoriOriAndi
          || (s.second.isSlliSrliSrai && p.barrelShifter) then
        toExec p s (cpuregsRs1 p s)
          (if s.second.isSlliSrliSrai && p.barrelShifter then s.first.decodedRs2.setWidth 32
            else s.second.decodedImm) w
      else if p.enableRegsDualport then
        operandsState p s
          (w.operands (cpuregsRs1 p s) (cpuregsRs2 p s) ((cpuregsRs2 p s).setWidth 5))
      else
        let w := w.operands (cpuregsRs1 p s) w.main.regOp2 w.main.regSh
        { w with main := { w.main with cpuState := .ldRs2 } } := by
  simp only [ldRs1State, htrap, hcount, hp.enableIrq, Work.operands, Bool.and_false,
    Bool.false_and, Bool.false_eq_true, if_false, Bool.not_false, Bool.and_true]

/-- The registers of the instruction, as the two ports give them. -/
theorem cpuregsRs1_of_encodes (hp : Plain p) {s : State} {x : Rv32i.Regs} {w : BitVec 32}
    (hregs : Agrees x s.cpuregs) (hfirst : s.first = decodeFirst p w)
    (hcpu : s.main.cpuState = .ldRs1) : cpuregsRs1 p s = x.read (fieldRs1 w) := by
  have hne : ¬s.main.cpuState = .ldRs2 := by
    rw [hcpu]
    decide
  rw [cpuregsRs1, decodedRs, if_neg hne, ite_self, hfirst, decodedRs1_plain hp, readReg_agrees hregs]

theorem cpuregsRs2_of_encodes {s : State} {x : Rv32i.Regs} {w : BitVec 32}
    (hregs : Agrees x s.cpuregs) (hfirst : s.first = decodeFirst p w)
    (hcpu : p.enableRegsDualport = true ∨ s.main.cpuState = .ldRs2) :
    cpuregsRs2 p s = x.read (fieldRs2 w) := by
  rw [cpuregsRs2, cpuregsRs1]
  cases hdual : p.enableRegsDualport with
  | true =>
      rw [if_pos rfl, hfirst]
      exact readReg_agrees hregs _
  | false =>
      have hcpu : s.main.cpuState = .ldRs2 := by
        rw [hdual] at hcpu
        exact hcpu.resolve_left (by decide)
      rw [if_neg (by decide), if_neg (by decide), decodedRs, if_pos hcpu, hfirst]
      exact readReg_agrees hregs _

/-- The second register is read in a state of its own. -/
theorem LdRs2.start (hr : i.resetn = true) (h₀ : Flight p h s)
    (hcpu : s.core.main.cpuState ≠ .fetch) (hdone : memDone s.core (s.inputs i) = false)
    (hmem : (s.step p i).mem = s.mem) (ha : Asks s.core.main true false false false)
    (hbranch : s.core.main.latchedBranch = false) (hstore : s.core.main.latchedStore = false)
    (hfetching : Fetching (h.pc + 4) (s.step p i)) {x y : BitVec 32} {n : BitVec 5}
    (hmain : (s.step p i).core.main =
      Work.finished p (let w := (defaults p s.core (s.inputs i)).operands x y n
        { w with main := { w.main with cpuState := .ldRs2 } }) false) :
    LdRs2 p h x (s.step p i) := by
  obtain ⟨hfirst, hsecond, -, hclasses⟩ := rest_edge (p := p) hr h₀.decoderTrigger hcpu hdone
  have hflight : Flight p h (s.step p i) :=
    h₀.edge hr hcpu hdone hmem (hdone ▸ hmain) ⟨rfl, rfl, rfl, rfl, rfl, rfl, rfl⟩ (.inl rfl)
  refine { hflight with
    cpuState := ?_, asks := ?_, fetching := hfetching, regOp1 := ?_, latchedStore := ?_
    latchedBranch := ?_, classes := ?_ }
  · rw [hmain]
    rfl
  · rw [hmain]
    exact Asks.finished ⟨ha.prefetch, ha.rinst, ha.rdata, ha.wdata⟩ rfl rfl rfl
  · rw [hmain]
    rfl
  · rw [hmain]
    exact hstore
  · rw [hmain]
    exact hbranch
  · rw [hfirst, hsecond]
    exact hclasses

section

variable {b : Bool}

/-- Nothing is transferred in the cycle, and the instruction behind is fetched if it is asked for. -/
theorem LdRs1.memory (hr : i.resetn = true) (h₀ : LdRs1 p h b s) :
    memDone s.core (s.inputs i) = false ∧ (s.step p i).mem = s.mem
      ∧ Ahead b (h.pc + 4) (s.step p i) := by
  refine ⟨h₀.free.done (s.inputs i), step_mem_of_not_xfer (h₀.free.xfer i), ?_⟩
  have ha := h₀.asks
  cases b with
  | false => exact h₀.free.hold hr h₀.trap ha
  | true =>
      have hnextPc : nextPc s.core = h.pc + 4 := by
        rw [nextPc, h₀.latchedStore, Bool.false_and]
        exact h₀.regNextPc
      exact h₀.free.ahead hr h₀.trap rfl ha hnextPc (aligned_add_four h₀.aligned)

theorem LdRs1.cpuState_ne (h₀ : LdRs1 p h b s) : s.core.main.cpuState ≠ .fetch := by
  rw [h₀.cpuState]
  decide

/-- What the decoder tells about the instruction. -/
theorem LdRs1.decoded (henc : Encodes (h.mem.word h.pc) instr) (h₀ : LdRs1 p h b s) :
    control s.core.first s.core.second = controlOf instr
      ∧ instrTrap p s.core.first s.core.second = false
      ∧ isRdcycleRdcyclehRdinstrRdinstrh s.core.second = false
      ∧ ∀ {imm}, immOf instr = some imm → s.core.second.decodedImm = imm := by
  obtain ⟨u, hu⟩ := h₀.second
  rw [h₀.first, hu]
  exact ⟨control_of_encodes henc u, instrTrap_of_encodes henc u, counter_of_encodes henc u,
    fun hi => decodedImm_of_encodes henc u hi⟩

/-- Both operands are there. -/
theorem LdRs1.exec (hr : i.resetn = true) (henc : Encodes (h.mem.word h.pc) instr)
    (h₀ : LdRs1 p h b s) (hbranch : (controlOf instr).branch = false) {x y x' y' : BitVec 32}
    {n : BitVec 5} (hmain : (s.step p i).core.main = (toExec p s.core x y
      ((defaults p s.core (s.inputs i)).operands x' y' n)).finished p false) :
    ∃ wait wait2, Exec p h b x y wait wait2 (s.step p i) := by
  obtain ⟨hdone, hmem, hahead⟩ := h₀.memory hr (i := i)
  obtain ⟨hcontrol, -⟩ := h₀.decoded henc
  have hslow : slowCompare p s.core.first = false := by
    rw [slowCompare, show s.core.first.isBeqBneBltBgeBltuBgeu = (controlOf instr).branch from
      congrArg Control.branch hcontrol, hbranch, Bool.and_false]
  rw [toExec_eq rfl rfl] at hmain
  exact ⟨_, _, .start hr h₀.toFlight h₀.cpuState_ne hdone hmem h₀.asks hahead hslow hmain⟩

/-- The second operand is a register too: the second port gives it at once, or it takes a state of
    its own. -/
theorem LdRs1.registers (hr : i.resetn = true) (henc : Encodes (h.mem.word h.pc) instr)
    (h₀ : LdRs1 p h true s)
    (hregs : operandRegs instr = some (fieldRs1 (h.mem.word h.pc), fieldRs2 (h.mem.word h.pc)))
    (hmain : (s.step p i).core.main = Work.finished p
      (let w := (defaults p s.core (s.inputs i)).operands (s.inputs i).undef.regOp1
          (s.inputs i).undef.regOp2 (defaults p s.core (s.inputs i)).main.regSh
      if p.enableRegsDualport then
        operandsState p s.core (w.operands (h.x.read (fieldRs1 (h.mem.word h.pc)))
          (cpuregsRs2 p s.core) ((cpuregsRs2 p s.core).setWidth 5))
      else
        let w := w.operands (h.x.read (fieldRs1 (h.mem.word h.pc))) w.main.regOp2 w.main.regSh
        { w with main := { w.main with cpuState := .ldRs2 } }) false) :
    Ready p h (s.step p i) instr ∨ ∃ q, operandRegs instr = some q
      ∧ p.enableRegsDualport = false ∧ LdRs2 p h (h.x.read q.1) (s.step p i) := by
  obtain ⟨hdone, hmem, hahead⟩ := h₀.memory hr (i := i)
  cases hdual : p.enableRegsDualport with
  | true =>
      rw [cpuregsRs2_of_encodes h₀.cpuregs h₀.first (.inl hdual), if_pos hdual] at hmain
      exact .inl (.of_operands hr henc h₀.toFlight h₀.cpuState_ne hdone hmem h₀.asks
        h₀.latchedBranch h₀.latchedStore hahead hregs hmain)
  | false =>
      rw [hdual, if_neg (by decide)] at hmain
      exact .inr ⟨_, hregs, rfl, .start hr h₀.toFlight h₀.cpuState_ne hdone hmem h₀.asks
        h₀.latchedBranch h₀.latchedStore hahead hmain⟩

/-- A shift by an immediate, which goes through the ALU with the barrel shifter. -/
theorem LdRs1.shiftImm (hr : i.resetn = true) {op : AluOp} {rd rs1 : BitVec 5}
    (hshift : isShift op = true)
    (henc : Encodes (h.mem.word h.pc) (.opImm op rd rs1 (immI (h.mem.word h.pc))))
    (h₀ : LdRs1 p h true s)
    (hmain : (s.step p i).core.main = Work.finished p
      (let w := (defaults p s.core (s.inputs i)).operands (s.inputs i).undef.regOp1
          (s.inputs i).undef.regOp2 (defaults p s.core (s.inputs i)).main.regSh
      if p.barrelShifter then
        toExec p s.core (h.x.read rs1) ((fieldRs2 (h.mem.word h.pc)).setWidth 32) w
      else
        let w := w.operands (h.x.read rs1) w.main.regOp2 (fieldRs2 (h.mem.word h.pc))
        { w with main := { w.main with cpuState := .shift } }) false) :
    Ready p h (s.step p i) (.opImm op rd rs1 (immI (h.mem.word h.pc))) := by
  obtain ⟨hdone, hmem, hahead⟩ := h₀.memory hr (i := i)
  cases hbarrel : p.barrelShifter with
  | true =>
      rw [if_pos hbarrel] at hmain
      obtain ⟨_, _, hexec⟩ := h₀.exec hr henc (by rw [controlOf, hshift]; rfl) hmain
      have hjalr : (!(controlOf (.opImm op rd rs1 (immI (h.mem.word h.pc)))).jalr) = true := by
        rw [controlOf, hshift]
        rfl
      refine .alu rfl ?_ (fun _ => hbarrel) (hjalr.symm ▸ hexec)
      rw [aluResult, eval_of_isShift hshift, eval_of_isShift hshift, Rv32i.shamt, Rv32i.shamt,
        immI_low, setWidth_low]
  | false =>
      rw [hbarrel, if_neg (by decide)] at hmain
      refine .shift (if_pos hshift) ?_ (.start hr h₀.toFlight h₀.cpuState_ne hdone hmem h₀.asks
        h₀.latchedBranch hahead hmain)
      rw [aluResult, eval_of_isShift hshift, Rv32i.shamt, immI_low]

end

/-- What the first register leads to. -/
theorem LdRs1.next (hp : Plain p) (hr : i.resetn = true)
    (henc : Encodes (h.mem.word h.pc) instr) (hjal : (controlOf instr).jal = false)
    (h₀ : LdRs1 p h (!(controlOf instr).jalr) s) :
    (Ready p h (s.step p i) instr ∨ ∃ q, operandRegs instr = some q ∧ p.enableRegsDualport = false
      ∧ LdRs2 p h (h.x.read q.1) (s.step p i)) ∧ s.transfers i = [] := by
  obtain ⟨hdone, hmem, hahead⟩ := h₀.memory hr (i := i)
  obtain ⟨hcontrol, htrap, hcount, himm⟩ := h₀.decoded henc
  have hmain := main_edge hp hr (not_faulty h₀.asks fun hc => absurd hc (by decide))
  rw [cpuStateCase, h₀.cpuState, hdone] at hmain
  dsimp only at hmain
  rw [ldRs1_plain hp htrap hcount, h₀.isLuiAuipcJal,
    cpuregsRs1_of_encodes hp h₀.cpuregs h₀.first h₀.cpuState] at hmain
  refine ⟨?_, transfers_of_not_xfer (h₀.free.xfer i)⟩
  rw [show s.core.first.instrLui = (controlOf instr).lui from congrArg Control.lui hcontrol,
    show s.core.first.instrAuipc = (controlOf instr).auipc from congrArg Control.auipc hcontrol,
    show s.core.first.instrJal = (controlOf instr).jal from congrArg Control.jal hcontrol,
    show s.core.first.isLbLhLwLbuLhu = (controlOf instr).load from congrArg Control.load hcontrol,
    show s.core.second.isSlliSrliSrai = (controlOf instr).shiftImm from
      congrArg Control.shiftImm hcontrol,
    show s.core.second.isJalrAddiSltiSltiuXoriOriAndi = (controlOf instr).jalrOrImm from
      congrArg Control.jalrOrImm hcontrol] at hmain
  cases henc with
  | lui hop =>
      simp only [controlOf, noControl, Bool.or_false, if_true, himm rfl] at hmain
      obtain ⟨_, _, hexec⟩ := h₀.exec hr (.lui hop) rfl hmain
      exact .inl (.alu rfl (BitVec.zero_add _) (fun hc => absurd hc (by decide)) hexec)
  | auipc hop =>
      simp only [controlOf, noControl, Bool.or_false, Bool.false_or, if_true, Bool.false_eq_true,
        if_false, himm rfl, h₀.regPc] at hmain
      obtain ⟨_, _, hexec⟩ := h₀.exec hr (.auipc hop) rfl hmain
      exact .inl (.alu rfl rfl (fun hc => absurd hc (by decide)) hexec)
  | jal hop => cases hjal
  | jalr hop h3 =>
      simp only [controlOf, noControl, Bool.or_false, Bool.false_and, if_true, Bool.false_eq_true,
        if_false, himm rfl] at hmain
      obtain ⟨_, _, hexec⟩ := h₀.exec hr (.jalr hop h3) rfl hmain
      exact .inl (.alu rfl rfl (fun hc => absurd hc (by decide)) hexec)
  | branch hop c h3 =>
      simp only [controlOf, noControl, Bool.or_false, Bool.false_and, Bool.false_eq_true,
        if_false] at hmain
      exact h₀.registers hr (.branch hop c h3) rfl hmain
  | load hop k h3 =>
      simp only [controlOf, noControl, Bool.or_false, if_true, Bool.false_eq_true, if_false] at hmain
      exact .inl (.load (.start hr h₀.toFlight h₀.cpuState_ne hdone hmem h₀.asks h₀.latchedBranch
        h₀.latchedStore hahead hmain))
  | store hop k h3 =>
      simp only [controlOf, noControl, Bool.or_false, Bool.false_and, Bool.false_eq_true,
        if_false] at hmain
      exact h₀.registers hr (.store hop k h3) rfl hmain
  | opImm hop op hsub h3 h7 =>
      have henc := Encodes.opImm hop op hsub h3 h7
      cases hshift : isShift op with
      | false =>
          simp only [controlOf, noControl, hshift, Bool.or_false, Bool.false_and, if_true,
            Bool.false_eq_true, if_false, himm rfl] at hmain
          obtain ⟨_, _, hexec⟩ := h₀.exec hr henc (by rw [controlOf, hshift]; rfl) hmain
          refine .inl (.alu rfl rfl (fun hc => ?_) hexec)
          rw [hshift] at hc
          exact absurd hc (by decide)
      | true =>
          have hfirst : s.core.first.decodedRs2 = fieldRs2 (h.mem.word h.pc) := by
            rw [h₀.first]
            rfl
          rw [controlOf, hshift] at h₀
          refine .inl (h₀.shiftImm hr hshift henc ?_)
          cases hbarrel : p.barrelShifter <;>
            simpa only [controlOf, noControl, hshift, hbarrel, Bool.or_false, Bool.or_true,
              Bool.and_true, Bool.not_true, Bool.not_false, Bool.and_false, if_true,
              Bool.false_eq_true, if_false, hfirst] using hmain
  | opReg hop op h3 h7 =>
      simp only [controlOf, noControl, Bool.or_false, Bool.false_and, Bool.false_eq_true,
        if_false] at hmain
      exact h₀.registers hr (.opReg hop op h3 h7) rfl hmain

theorem LdRs2.next (hp : Plain p) (hr : i.resetn = true)
    (henc : Encodes (h.mem.word h.pc) instr) {q : BitVec 5 × BitVec 5}
    (hregs : operandRegs instr = some q) (h₀ : LdRs2 p h (h.x.read q.1) s) :
    Ready p h (s.step p i) instr ∧ s.transfers i = [] := by
  obtain ⟨hfetching, hdone⟩ := h₀.fetching.hold (p := p) hr h₀.trap h₀.asks
  have hmem : (s.step p i).mem = s.mem := h₀.fetching.step_mem
  have hne : s.core.main.cpuState ≠ .fetch := by
    rw [h₀.cpuState]
    decide
  have hrs2 := cpuregsRs2_of_encodes (p := p) h₀.cpuregs h₀.first (.inr h₀.cpuState)
  have hq : fieldRs2 (h.mem.word h.pc) = q.2 := by
    cases henc <;> cases hregs <;> rfl
  rw [hq] at hrs2
  have hmain := main_edge hp hr (not_faulty h₀.asks fun hc => absurd hc (by decide))
  rw [cpuStateCase, h₀.cpuState, hdone] at hmain
  dsimp only at hmain
  rw [ldRs2State, hp.withPcpi, Bool.false_and, if_neg (by decide), hrs2] at hmain
  refine ⟨.of_operands hr henc h₀.toFlight hne hdone hmem h₀.asks h₀.latchedBranch h₀.latchedStore
    hfetching hregs ?_, h₀.fetching.transfers⟩
  rw [hmain, ← h₀.regOp1]
  rfl

end PicoSoc.Picorv32
