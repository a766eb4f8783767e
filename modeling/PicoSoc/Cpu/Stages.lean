import PicoSoc.Cpu.Plain

set_option autoImplicit false

/-! # The stages of an instruction

What the registers hold in each state that an instruction passes, for the hart that executes it. -/

namespace PicoSoc.Picorv32

open Rv32i (Instr AluOp Cond LoadOp StoreOp Hart)

variable {p : Params}

/-! ## Registers in flight -/

/-- The register file holds the registers of the hart. -/
def Agrees (x : Rv32i.Regs) (f : BitVec 6 → BitVec 32) : Prop :=
  ∀ r : BitVec 5, r ≠ 0 → f (r.setWidth 6) = x.read r

/-- The register file after the write of the cycle. -/
def written (p : Params) (s : State) : BitVec 6 → BitVec 32 :=
  match cpuregsWrite p s with
  | some v => if s.main.latchedRd = 0 then s.cpuregs else Function.update s.cpuregs s.main.latchedRd v
  | none => s.cpuregs

/-- The instruction of the hart is being executed and the next one is not there yet. -/
structure Flight (p : Params) (h : Hart) (s : Machine) : Prop where
  trap : s.core.main.trap = false
  doWaitirq : s.core.main.irq.doWaitirq = false
  decoderTrigger : s.core.main.decoderTrigger = false
  regPc : s.core.main.regPc = h.pc
  regNextPc : s.core.main.regNextPc = h.pc + 4
  aligned : Rv32i.Aligned 4 h.pc
  latchedRd : (decodeFirst p (h.mem.word h.pc)).isBeqBneBltBgeBltuBgeu = false →
    s.core.main.latchedRd = (fieldRd (h.mem.word h.pc)).setWidth 6
  latchedStalu : s.core.main.latchedStalu = false
  latchedCompr : s.core.main.latchedCompr = false
  first : s.core.first = decodeFirst p (h.mem.word h.pc)
  second : ∃ u, s.core.second =
    decodeSecond p (decodeFirst p (h.mem.word h.pc)) (h.mem.word h.pc) u
  cpuregs : Agrees h.x s.core.cpuregs
  mem : s.mem = h.mem

/-- The fetch of the next instruction, when there is one under way. -/
def Ahead (prefetch : Bool) (addr : BitVec 32) (s : Machine) : Prop :=
  if prefetch then Fetching addr s else Free s.core

/-! ## The stages -/

/-- The first source register is read. -/
structure LdRs1 (p : Params) (h : Hart) (prefetch : Bool) (s : Machine) : Prop extends Flight p h s where
  cpuState : s.core.main.cpuState = .ldRs1
  asks : Asks s.core.main prefetch false false false
  free : Free s.core
  latchedStore : s.core.main.latchedStore = false
  latchedBranch : s.core.main.latchedBranch = false
  isLuiAuipcJal : s.core.classes.isLuiAuipcJal =
    (s.core.first.instrLui || s.core.first.instrAuipc || s.core.first.instrJal)

/-- The second one is read, with a single port. -/
structure LdRs2 (p : Params) (h : Hart) (op1 : BitVec 32) (s : Machine) : Prop
    extends Flight p h s where
  cpuState : s.core.main.cpuState = .ldRs2
  asks : Asks s.core.main true false false false
  fetching : Fetching (h.pc + 4) s
  regOp1 : s.core.main.regOp1 = op1
  latchedStore : s.core.main.latchedStore = false
  latchedBranch : s.core.main.latchedBranch = false
  classes : s.core.classes = classify s.core.first s.core.second

/-- A comparison that takes two cycles. -/
def slowCompare (p : Params) (f : First) : Bool := p.twoCycleCompare && f.isBeqBneBltBgeBltuBgeu

/-- The ALU works on the operands, with `wait` and `wait2` cycles to go. -/
structure Exec (p : Params) (h : Hart) (prefetch : Bool) (op1 op2 : BitVec 32) (wait wait2 : Bool)
    (s : Machine) : Prop extends Flight p h s where
  cpuState : s.core.main.cpuState = .exec
  asks : Asks s.core.main prefetch (prefetch && !wait) false false
  ahead : Ahead prefetch (h.pc + 4) s
  regOp1 : s.core.main.regOp1 = op1
  regOp2 : s.core.main.regOp2 = op2
  aluWait : s.core.main.aluWait = wait
  aluWait2 : s.core.main.aluWait2 = wait2
  waits : wait = true → (p.twoCycleAlu || p.twoCycleCompare) = true
  waits2 : wait2 = true → wait = true
  classes : s.core.classes = classify s.core.first s.core.second
  alu : wait2 = false → (wait = true → slowCompare p s.core.first = true) →
    aluNow p s.core = aluWires s.core
  compare : wait = false → slowCompare p s.core.first = true →
    ∀ i, s.core.main.aluOut0Q = aluOut0 p s.core i

/-- A shift with `n` places to go. -/
structure Shift (p : Params) (h : Hart) (op1 : BitVec 32) (n : BitVec 5) (s : Machine) : Prop
    extends Flight p h s where
  cpuState : s.core.main.cpuState = .shift
  asks : Asks s.core.main true false false false
  fetching : Fetching (h.pc + 4) s
  regOp1 : s.core.main.regOp1 = op1
  regSh : s.core.main.regSh = n
  latchedBranch : s.core.main.latchedBranch = false

/-- A load or store waits for the next instruction. -/
structure Access (p : Params) (h : Hart) (state : CpuState) (op1 op2 : BitVec 32) (s : Machine) :
    Prop extends Flight p h s where
  cpuState : s.core.main.cpuState = state
  asks : Asks s.core.main true true false false
  fetching : Fetching (h.pc + 4) s
  regOp1 : s.core.main.regOp1 = op1
  regOp2 : state = .stmem → s.core.main.regOp2 = op2
  latchedStore : state = .stmem → s.core.main.latchedStore = false
  latchedBranch : s.core.main.latchedBranch = false
  classes : s.core.classes = classify s.core.first s.core.second

/-! ## Edges in flight -/

section

variable {h : Hart} {s : Machine} {i : Inputs}

/-- What the branches of the state machine keep while an instruction is in flight. -/
structure Work.Keeps (v : Work) (s : State) (i : Inputs) : Prop where
  trap : v.main.trap = false
  doWaitirq : v.main.irq.doWaitirq = false
  decoderTrigger : v.main.decoderTrigger = (s.main.memDoRinst && memDone s i)
  regPc : v.main.regPc = s.main.regPc
  regNextPc : v.main.regNextPc = s.main.regNextPc
  latchedStalu : v.main.latchedStalu = s.main.latchedStalu
  latchedCompr : v.main.latchedCompr = s.main.latchedCompr

theorem main_edge (hp : Plain p) (hr : i.resetn = true) (hf : Faulty s.core.main = false) :
    (s.step p i).core.main =
      (cpuStateCase p s.core (s.inputs i) (defaults p s.core (s.inputs i))).finished p
        (memDone s.core (s.inputs i)) := by
  have hr' : (s.inputs i).resetn = true := by rw [inputs_resetn, hr]
  show mainStep p s.core (s.inputs i) = _
  rw [mainStep_plain hp hr', hf]
  rfl

theorem aligned_extract {a : BitVec 32} (ha : Rv32i.Aligned 4 a) : a.extractLsb' 0 2 = 0 := by
  apply BitVec.eq_of_toNat_eq
  have ha : a.toNat % 4 = 0 := ha
  simpa using ha

/-- Without a data request only the program counter is checked. -/
theorem not_faulty {m : Main} {b c : Bool} (ha : Asks m b c false false)
    (hpc : c = true → Rv32i.Aligned 4 m.regPc) : Faulty m = false := by
  rw [Faulty, ha.rinst, ha.rdata, ha.wdata]
  cases c with
  | true =>
      rw [aligned_extract (hpc rfl)]
      simp
  | false => simp

/-- The requests after an edge that ends no transfer. -/
theorem Asks.finished {v : Work} {a b c d : Bool} (ha : Asks v.main a b c d)
    (hinst : v.setMemDoRinst = false) (hdata : v.setMemDoRdata = false)
    (hwrite : v.setMemDoWdata = false) : Asks (v.finished p false) a b c d where
  prefetch := by
    show (v.main.memDoPrefetch && !false) = a
    rw [ha.prefetch, Bool.not_false, Bool.and_true]
  rinst := by
    show (v.setMemDoRinst || (v.main.memDoRinst && !false)) = b
    rw [hinst, ha.rinst, Bool.not_false, Bool.and_true, Bool.false_or]
  rdata := by
    show (v.setMemDoRdata || (v.main.memDoRdata && !false)) = c
    rw [hdata, ha.rdata, Bool.not_false, Bool.and_true, Bool.false_or]
  wdata := by
    show (v.setMemDoWdata || (v.main.memDoWdata && !false)) = d
    rw [hwrite, ha.wdata, Bool.not_false, Bool.and_true, Bool.false_or]

/-- The requests after an edge that ends one. -/
theorem asks_finished (v : Work) :
    Asks (v.finished p true) false v.setMemDoRinst v.setMemDoRdata v.setMemDoWdata where
  prefetch := Bool.and_false _
  rinst := by
    show (v.setMemDoRinst || (v.main.memDoRinst && false)) = _
    rw [Bool.and_false, Bool.or_false]
  rdata := by
    show (v.setMemDoRdata || (v.main.memDoRdata && false)) = _
    rw [Bool.and_false, Bool.or_false]
  wdata := by
    show (v.setMemDoWdata || (v.main.memDoWdata && false)) = _
    rw [Bool.and_false, Bool.or_false]

/-- The registers outside the main state machine, while the next instruction is not there. -/
theorem rest_edge (hr : i.resetn = true) (ht : s.core.main.decoderTrigger = false)
    (hcpu : s.core.main.cpuState ≠ .fetch) (hdone : memDone s.core (s.inputs i) = false) :
    (s.step p i).core.first = s.core.first ∧ (s.step p i).core.second = s.core.second
      ∧ (s.step p i).core.cpuregs = s.core.cpuregs
      ∧ (s.step p i).core.classes = classify s.core.first s.core.second := by
  have hr' : (s.inputs i).resetn = true := by rw [inputs_resetn, hr]
  have hdec : decodes s.core = false := by rw [decodes, ht, Bool.false_and]
  refine ⟨?_, ?_, ?_, ?_⟩
  · show firstStep p s.core (s.inputs i) = _
    rw [firstStep, hdone, hr', Bool.and_false]
    rfl
  · show secondStep p s.core (s.inputs i) = _
    rw [secondStep, hdec, hr']
    rfl
  · show cpuregsStep p s.core (s.inputs i) = _
    rw [cpuregsStep, cpuregsWrite, if_neg hcpu]
  · show classesStep s.core (s.inputs i) = _
    rw [classesStep, hdec, hr']
    rfl

theorem Flight.edge (hr : i.resetn = true) (h₀ : Flight p h s)
    (hcpu : s.core.main.cpuState ≠ .fetch) (hdone : memDone s.core (s.inputs i) = false)
    (hmem : (s.step p i).mem = s.mem) {v : Work}
    (hv : (s.step p i).core.main = v.finished p (memDone s.core (s.inputs i)))
    (hk : v.Keeps s.core (s.inputs i))
    (hrd : v.main.latchedRd = s.core.main.latchedRd ∨
      (decodeFirst p (h.mem.word h.pc)).isBeqBneBltBgeBltuBgeu = true) : Flight p h (s.step p i) := by
  obtain ⟨hfirst, hsecond, hregs, -⟩ := rest_edge (p := p) hr h₀.decoderTrigger hcpu hdone
  refine ⟨?_, ?_, ?_, ?_, ?_, h₀.aligned, ?_, ?_, ?_, hfirst.trans h₀.first, ?_, ?_, hmem.trans h₀.mem⟩
  · rw [hv]
    exact hk.trap
  · rw [hv]
    exact hk.doWaitirq
  · rw [hv]
    show v.main.decoderTrigger = false
    rw [hk.decoderTrigger, hdone, Bool.and_false]
  · rw [hv]
    exact hk.regPc.trans h₀.regPc
  · rw [hv]
    exact hk.regNextPc.trans h₀.regNextPc
  · intro hbranch
    rw [hv]
    rcases hrd with hrd | hrd
    · exact hrd.trans (h₀.latchedRd hbranch)
    · rw [hbranch] at hrd
      exact absurd hrd (by decide)
  · rw [hv]
    exact hk.latchedStalu.trans h₀.latchedStalu
  · rw [hv]
    exact hk.latchedCompr.trans h₀.latchedCompr
  · rw [hsecond]
    exact h₀.second
  · rw [hregs]
    exact h₀.cpuregs

end

end PicoSoc.Picorv32
