import PicoSoc.Cpu.State

set_option autoImplicit false

/-! # The instruction decoder

Two stages: `First` is decoded from the word on the bus in the cycle that completes an instruction
fetch, `Second` one cycle later from the captured word and `First`. -/

namespace PicoSoc.Picorv32

/-! ## Fields of an instruction word -/

/-- The opcode of an instruction word. -/
def opcode (w : BitVec 32) : BitVec 7 := w.extractLsb' 0 7

/-- The lower function bits. -/
def funct3 (w : BitVec 32) : BitVec 3 := w.extractLsb' 12 3

/-- The upper function bits. -/
def funct7 (w : BitVec 32) : BitVec 7 := w.extractLsb' 25 7

/-- The destination register. -/
def fieldRd (w : BitVec 32) : BitVec 5 := w.extractLsb' 7 5

/-- The first source register. -/
def fieldRs1 (w : BitVec 32) : BitVec 5 := w.extractLsb' 15 5

/-- The second source register. -/
def fieldRs2 (w : BitVec 32) : BitVec 5 := w.extractLsb' 20 5

/-- The immediate of a load, of JALR and of an operation. -/
def immI (w : BitVec 32) : BitVec 32 := (w.extractLsb' 20 12).signExtend 32

/-- The immediate of a store. -/
def immS (w : BitVec 32) : BitVec 32 := (w.extractLsb' 25 7 ++ w.extractLsb' 7 5).signExtend 32

/-- The offset of a branch. -/
def immB (w : BitVec 32) : BitVec 32 :=
  (w.extractLsb' 31 1 ++ w.extractLsb' 7 1 ++ w.extractLsb' 25 6 ++ w.extractLsb' 8 4
    ++ 0#1).signExtend 32

/-- The immediate of LUI and AUIPC. -/
def immU (w : BitVec 32) : BitVec 32 := w.extractLsb' 12 20 ++ 0#12

/-- The offset of JAL. -/
def immJ (w : BitVec 32) : BitVec 32 :=
  (w.extractLsb' 31 1 ++ w.extractLsb' 12 8 ++ w.extractLsb' 20 1 ++ w.extractLsb' 21 10
    ++ 0#1).signExtend 32

section

variable (p : Params)

/-- The opcode of the interrupt instructions. -/
def isIrqOpcode (w : BitVec 32) : Bool := opcode w == 0b0001011

/-- The first stage on the word `w`. -/
def decodeFirst (w : BitVec 32) : First where
  instrLui := opcode w == 0b0110111
  instrAuipc := opcode w == 0b0010111
  instrJal := opcode w == 0b1101111
  instrJalr := opcode w == 0b1100111 && funct3 w == 0b000
  instrRetirq := isIrqOpcode w && funct7 w == 0b0000010 && p.enableIrq
  instrWaitirq := isIrqOpcode w && funct7 w == 0b0000100 && p.enableIrq
  isBeqBneBltBgeBltuBgeu := opcode w == 0b1100011
  isLbLhLwLbuLhu := opcode w == 0b0000011
  isSbShSw := opcode w == 0b0100011
  isAluRegImm := opcode w == 0b0010011
  isAluRegReg := opcode w == 0b0110011
  decodedImmJ := immJ w
  decodedRd := p.regindex ((fieldRd w).setWidth 6)
  decodedRs1 :=
    if isIrqOpcode w && funct7 w == 0b0000010 && p.enableIrq then
      -- retirq
      p.regindex (if p.enableIrqQregs then p.irqregsOffset else 3)
    else if isIrqOpcode w && funct7 w == 0b0000000 && p.enableIrq && p.enableIrqQregs then
      -- getq
      p.regindex ((fieldRs1 w).setWidth 6) ||| 1#6 <<< (p.regindexBits - 1)
    else p.regindex ((fieldRs1 w).setWidth 6)
  decodedRs2 := fieldRs2 w
  compressedInstr := false

/-- `mem_rdata_q[31:12]` of a counter read, of the kind `SYSTEM`. -/
def isCounter (w : BitVec 32) (csr : BitVec 20) : Bool :=
  opcode w == 0b1110011 && w.extractLsb' 12 20 == csr

/-- The function bits of SLLI, SRLI and SRAI. -/
def isShiftImm (w : BitVec 32) : Bool :=
  (funct3 w == 0b001 && funct7 w == 0b0000000) || (funct3 w == 0b101 && funct7 w == 0b0000000)
    || (funct3 w == 0b101 && funct7 w == 0b0100000)

/-- The second stage on the captured word `w`, with the first stage of the same word in `f`. -/
def decodeSecond (f : First) (w : BitVec 32) (u : Undef) : Second where
  pcpiInsn := if p.withPcpi then w else u.pcpiInsn
  instrBeq := f.isBeqBneBltBgeBltuBgeu && funct3 w == 0b000
  instrBne := f.isBeqBneBltBgeBltuBgeu && funct3 w == 0b001
  instrBlt := f.isBeqBneBltBgeBltuBgeu && funct3 w == 0b100
  instrBge := f.isBeqBneBltBgeBltuBgeu && funct3 w == 0b101
  instrBltu := f.isBeqBneBltBgeBltuBgeu && funct3 w == 0b110
  instrBgeu := f.isBeqBneBltBgeBltuBgeu && funct3 w == 0b111
  instrLb := f.isLbLhLwLbuLhu && funct3 w == 0b000
  instrLh := f.isLbLhLwLbuLhu && funct3 w == 0b001
  instrLw := f.isLbLhLwLbuLhu && funct3 w == 0b010
  instrLbu := f.isLbLhLwLbuLhu && funct3 w == 0b100
  instrLhu := f.isLbLhLwLbuLhu && funct3 w == 0b101
  instrSb := f.isSbShSw && funct3 w == 0b000
  instrSh := f.isSbShSw && funct3 w == 0b001
  instrSw := f.isSbShSw && funct3 w == 0b010
  instrAddi := f.isAluRegImm && funct3 w == 0b000
  instrSlti := f.isAluRegImm && funct3 w == 0b010
  instrSltiu := f.isAluRegImm && funct3 w == 0b011
  instrXori := f.isAluRegImm && funct3 w == 0b100
  instrOri := f.isAluRegImm && funct3 w == 0b110
  instrAndi := f.isAluRegImm && funct3 w == 0b111
  instrSlli := f.isAluRegImm && funct3 w == 0b001 && funct7 w == 0b0000000
  instrSrli := f.isAluRegImm && funct3 w == 0b101 && funct7 w == 0b0000000
  instrSrai := f.isAluRegImm && funct3 w == 0b101 && funct7 w == 0b0100000
  instrAdd := f.isAluRegReg && funct3 w == 0b000 && funct7 w == 0b0000000
  instrSub := f.isAluRegReg && funct3 w == 0b000 && funct7 w == 0b0100000
  instrSll := f.isAluRegReg && funct3 w == 0b001 && funct7 w == 0b0000000
  instrSlt := f.isAluRegReg && funct3 w == 0b010 && funct7 w == 0b0000000
  instrSltu := f.isAluRegReg && funct3 w == 0b011 && funct7 w == 0b0000000
  instrXor := f.isAluRegReg && funct3 w == 0b100 && funct7 w == 0b0000000
  instrSrl := f.isAluRegReg && funct3 w == 0b101 && funct7 w == 0b0000000
  instrSra := f.isAluRegReg && funct3 w == 0b101 && funct7 w == 0b0100000
  instrOr := f.isAluRegReg && funct3 w == 0b110 && funct7 w == 0b0000000
  instrAnd := f.isAluRegReg && funct3 w == 0b111 && funct7 w == 0b0000000
  instrRdcycle :=
    (isCounter w 0b11000000000000000010 || isCounter w 0b11000000000100000010) && p.enableCounters
  instrRdcycleh :=
    (isCounter w 0b11001000000000000010 || isCounter w 0b11001000000100000010)
      && p.enableCounters && p.enableCounters64
  instrRdinstr := isCounter w 0b11000000001000000010 && p.enableCounters
  instrRdinstrh := isCounter w 0b11001000001000000010 && p.enableCounters && p.enableCounters64
  instrEcallEbreak :=
    opcode w == 0b1110011 && w.extractLsb' 21 11 == 0 && w.extractLsb' 7 13 == 0
  instrFence := opcode w == 0b0001111 && funct3 w == 0
  instrGetq := isIrqOpcode w && funct7 w == 0b0000000 && p.enableIrq && p.enableIrqQregs
  instrSetq := isIrqOpcode w && funct7 w == 0b0000001 && p.enableIrq && p.enableIrqQregs
  instrMaskirq := isIrqOpcode w && funct7 w == 0b0000011 && p.enableIrq
  instrTimer := isIrqOpcode w && funct7 w == 0b0000101 && p.enableIrq && p.enableIrqTimer
  isSlliSrliSrai := f.isAluRegImm && isShiftImm w
  isJalrAddiSltiSltiuXoriOriAndi :=
    f.instrJalr || (f.isAluRegImm && (funct3 w == 0b000 || funct3 w == 0b010 || funct3 w == 0b011
      || funct3 w == 0b100 || funct3 w == 0b110 || funct3 w == 0b111))
  isSllSrlSra := f.isAluRegReg && isShiftImm w
  decodedImm :=
    if f.instrJal then f.decodedImmJ
    else if f.instrLui || f.instrAuipc then immU w
    else if f.instrJalr || f.isLbLhLwLbuLhu || f.isAluRegImm then immI w
    else if f.isBeqBneBltBgeBltuBgeu then immB w
    else if f.isSbShSw then immS w
    else u.decodedImm

/-- None of the instructions the core executes; `ecall` and `ebreak` are not among them. -/
def instrTrap (f : First) (d : Second) : Bool :=
  (p.catchIllinsn || p.withPcpi) &&
    !(f.instrLui || f.instrAuipc || f.instrJal || f.instrJalr
      || d.instrBeq || d.instrBne || d.instrBlt || d.instrBge || d.instrBltu || d.instrBgeu
      || d.instrLb || d.instrLh || d.instrLw || d.instrLbu || d.instrLhu
      || d.instrSb || d.instrSh || d.instrSw
      || d.instrAddi || d.instrSlti || d.instrSltiu || d.instrXori || d.instrOri || d.instrAndi
      || d.instrSlli || d.instrSrli || d.instrSrai
      || d.instrAdd || d.instrSub || d.instrSll || d.instrSlt || d.instrSltu || d.instrXor
      || d.instrSrl || d.instrSra || d.instrOr || d.instrAnd
      || d.instrRdcycle || d.instrRdcycleh || d.instrRdinstr || d.instrRdinstrh || d.instrFence
      || d.instrGetq || d.instrSetq || f.instrRetirq || d.instrMaskirq || f.instrWaitirq
      || d.instrTimer)

/-- `is_rdcycle_rdcycleh_rdinstr_rdinstrh` -/
def isRdcycleRdcyclehRdinstrRdinstrh (d : Second) : Bool :=
  d.instrRdcycle || d.instrRdcycleh || d.instrRdinstr || d.instrRdinstrh

/-- What reset clears of the second stage. -/
def Second.clear (d : Second) : Second :=
  { d with
    instrBeq := false, instrBne := false, instrBlt := false, instrBge := false
    instrBltu := false, instrBgeu := false
    instrAddi := false, instrSlti := false, instrSltiu := false, instrXori := false
    instrOri := false, instrAndi := false
    instrAdd := false, instrSub := false, instrSll := false, instrSlt := false
    instrSltu := false, instrXor := false, instrSrl := false, instrSra := false
    instrOr := false, instrAnd := false
    instrFence := false }

/-- The instruction classes of the registered decoder outputs. -/
def classify (f : First) (d : Second) : Classes where
  isLuiAuipcJal := f.instrLui || f.instrAuipc || f.instrJal
  isLuiAuipcJalJalrAddiAddSub :=
    f.instrLui || f.instrAuipc || f.instrJal || f.instrJalr || d.instrAddi || d.instrAdd
      || d.instrSub
  isSltiBltSlt := d.instrSlti || d.instrBlt || d.instrSlt
  isSltiuBltuSltu := d.instrSltiu || d.instrBltu || d.instrSltu
  isLbuLhuLw := d.instrLbu || d.instrLhu || d.instrLw
  isCompare :=
    f.isBeqBneBltBgeBltuBgeu || d.instrSlti || d.instrSlt || d.instrSltiu || d.instrSltu

end

end PicoSoc.Picorv32
