import Mathlib.Tactic

set_option autoImplicit false

/-! # The registers of `picorv32`

Parameters, inputs and registers of the processor without the compressed instruction set
(`COMPRESSED_ISA = 0`). A value the source leaves undefined (`'bx`) is an input of the cycle, so
whatever is proved holds for every choice of it. -/

namespace PicoSoc.Picorv32

/-- The parameters of the module. -/
structure Params where
  enableCounters : Bool := true
  enableCounters64 : Bool := true
  enableRegs1631 : Bool := true
  enableRegsDualport : Bool := true
  latchedMemRdata : Bool := false
  twoStageShift : Bool := true
  barrelShifter : Bool := false
  twoCycleCompare : Bool := false
  twoCycleAlu : Bool := false
  catchMisalign : Bool := true
  catchIllinsn : Bool := true
  enablePcpi : Bool := false
  enableMul : Bool := false
  enableFastMul : Bool := false
  enableDiv : Bool := false
  enableIrq : Bool := false
  enableIrqQregs : Bool := true
  enableIrqTimer : Bool := true
  enableTrace : Bool := false
  maskedIrq : BitVec 32 := 0
  latchedIrq : BitVec 32 := 0xffffffff
  progaddrReset : BitVec 32 := 0
  progaddrIrq : BitVec 32 := 0x10
  stackaddr : BitVec 32 := 0xffffffff

namespace Params

variable (p : Params)

def withPcpi : Bool := p.enablePcpi || p.enableMul || p.enableFastMul || p.enableDiv

def irqregsOffset : BitVec 6 := if p.enableRegs1631 then 32 else 16

def regindexBits : ℕ :=
  (if p.enableRegs1631 then 5 else 4) + (if p.enableIrq && p.enableIrqQregs then 1 else 0)

/-- A value stored in a register of `regindex_bits` bits. -/
def regindex (v : BitVec 6) : BitVec 6 := (v.setWidth p.regindexBits).setWidth 6

end Params

/-- `mem_state`, the values 0 to 3. -/
inductive MemState
  | idle
  | read
  | write
  | prefetched
  deriving DecidableEq, Inhabited

/-- The one-hot `cpu_state`. -/
inductive CpuState
  | trap
  | fetch
  | ldRs1
  | ldRs2
  | exec
  | shift
  | stmem
  | ldmem
  deriving DecidableEq, Inhabited

/-- What a cycle puts where the source writes `'bx` or leaves a latch. -/
structure Undef where
  regSh : BitVec 5
  regOut : BitVec 32
  regOp1 : BitVec 32
  regOp2 : BitVec 32
  decodedImm : BitVec 32
  aluOut : BitVec 32
  aluOut0 : Bool
  pcpiInsn : BitVec 32
  countCycle : BitVec 64
  countInstr : BitVec 64
  irqPending : BitVec 32
  memLaWdata : BitVec 32
  memLaWstrb : BitVec 4
  memRdataWord : BitVec 32
  deriving Inhabited

/-- The inputs of a cycle. The answers of the coprocessors, inside and outside the core, are
    inputs as well. -/
structure Inputs where
  resetn : Bool
  memReady : Bool
  memRdata : BitVec 32
  pcpiIntWr : Bool
  pcpiIntRd : BitVec 32
  pcpiIntWait : Bool
  pcpiIntReady : Bool
  irq : BitVec 32
  undef : Undef
  deriving Inhabited

/-- The registers of the memory interface. -/
structure Mem where
  memState : MemState
  memValid : Bool
  memInstr : Bool
  memAddr : BitVec 32
  memWdata : BitVec 32
  memWstrb : BitVec 4
  memRdataQ : BitVec 32
  deriving Inhabited

/-- The decoder registers written when an instruction word arrives. -/
structure First where
  instrLui : Bool
  instrAuipc : Bool
  instrJal : Bool
  instrJalr : Bool
  instrRetirq : Bool
  instrWaitirq : Bool
  isBeqBneBltBgeBltuBgeu : Bool
  isLbLhLwLbuLhu : Bool
  isSbShSw : Bool
  isAluRegImm : Bool
  isAluRegReg : Bool
  decodedImmJ : BitVec 32
  decodedRd : BitVec 6
  decodedRs1 : BitVec 6
  decodedRs2 : BitVec 5
  compressedInstr : Bool
  deriving Inhabited

/-- The decoder registers written a cycle later, under `decoder_trigger`. -/
structure Second where
  pcpiInsn : BitVec 32
  instrBeq : Bool
  instrBne : Bool
  instrBlt : Bool
  instrBge : Bool
  instrBltu : Bool
  instrBgeu : Bool
  instrLb : Bool
  instrLh : Bool
  instrLw : Bool
  instrLbu : Bool
  instrLhu : Bool
  instrSb : Bool
  instrSh : Bool
  instrSw : Bool
  instrAddi : Bool
  instrSlti : Bool
  instrSltiu : Bool
  instrXori : Bool
  instrOri : Bool
  instrAndi : Bool
  instrSlli : Bool
  instrSrli : Bool
  instrSrai : Bool
  instrAdd : Bool
  instrSub : Bool
  instrSll : Bool
  instrSlt : Bool
  instrSltu : Bool
  instrXor : Bool
  instrSrl : Bool
  instrSra : Bool
  instrOr : Bool
  instrAnd : Bool
  instrRdcycle : Bool
  instrRdcycleh : Bool
  instrRdinstr : Bool
  instrRdinstrh : Bool
  instrEcallEbreak : Bool
  instrFence : Bool
  instrGetq : Bool
  instrSetq : Bool
  instrMaskirq : Bool
  instrTimer : Bool
  isSlliSrliSrai : Bool
  isJalrAddiSltiSltiuXoriOriAndi : Bool
  isSllSrlSra : Bool
  decodedImm : BitVec 32
  deriving Inhabited

/-- The instruction classes, registered every cycle. -/
structure Classes where
  isLuiAuipcJal : Bool
  isLuiAuipcJalJalrAddiAddSub : Bool
  isSltiBltSlt : Bool
  isSltiuBltuSltu : Bool
  isLbuLhuLw : Bool
  isCompare : Bool
  deriving Inhabited

/-- The first half of the ALU: registers under `TWO_CYCLE_ALU`, wires otherwise. -/
structure Alu where
  aluAddSub : BitVec 32
  aluEq : Bool
  aluLts : Bool
  aluLtu : Bool
  aluShl : BitVec 32
  aluShr : BitVec 32
  deriving Inhabited

/-- The interrupt registers. -/
structure Irq where
  irqDelay : Bool
  irqActive : Bool
  irqMask : BitVec 32
  irqPending : BitVec 32
  irqState : BitVec 2
  timer : BitVec 32
  eoi : BitVec 32
  doWaitirq : Bool
  deriving Inhabited

/-- The registers of the main state machine. -/
structure Main where
  trap : Bool
  cpuState : CpuState
  memDoPrefetch : Bool
  memDoRinst : Bool
  memDoRdata : Bool
  memDoWdata : Bool
  memWordsize : BitVec 2
  regPc : BitVec 32
  regNextPc : BitVec 32
  regOp1 : BitVec 32
  regOp2 : BitVec 32
  regOut : BitVec 32
  regSh : BitVec 5
  latchedStore : Bool
  latchedStalu : Bool
  latchedBranch : Bool
  latchedCompr : Bool
  latchedIsLu : Bool
  latchedIsLh : Bool
  latchedIsLb : Bool
  latchedRd : BitVec 6
  decoderTrigger : Bool
  decoderTriggerQ : Bool
  decoderPseudoTrigger : Bool
  decoderPseudoTriggerQ : Bool
  aluOutQ : BitVec 32
  aluOut0Q : Bool
  aluWait : Bool
  aluWait2 : Bool
  pcpiValid : Bool
  pcpiTimeout : Bool
  pcpiTimeoutCounter : BitVec 4
  countCycle : BitVec 64
  countInstr : BitVec 64
  irq : Irq
  deriving Inhabited

/-- The processor. -/
structure State where
  mem : Mem
  first : First
  second : Second
  classes : Classes
  alu : Alu
  main : Main
  cpuregs : BitVec 6 → BitVec 32
  deriving Inhabited

end PicoSoc.Picorv32
