import PicoSoc.Cpu.Core
import PicoSoc.Library.Arithmetic

set_option autoImplicit false

/-! # `picorv32` with the compressed instruction set (`COMPRESSED_ISA = 1`)

The memory interface fetches at halfword boundaries and the decoder expands 16-bit instructions. The
main state machine is the one of `COMPRESSED_ISA = 0` up to the alignment of the program counter. It
sees the memory interface through `mem_done` and `mem_rdata_word` only. -/

namespace PicoSoc.Picorv32.Rvc

open Arithmetic

/-- The registers of the core and those that `COMPRESSED_ISA` adds. -/
structure State where
  core : Picorv32.State
  memLaSecondword : Bool
  memLaFirstwordReg : Bool
  lastMemValid : Bool
  prefetchedHighWord : Bool
  clearPrefetchedHighWordQ : Bool
  mem16bitBuffer : BitVec 16
  deriving Inhabited

/-- The inputs of a cycle; `highX` stands for the `16'bx` of `mem_rdata_latched`. -/
structure Inputs extends Picorv32.Inputs where
  highX : BitVec 16
  deriving Inhabited

variable (p : Params) (s : State) (i : Inputs)

/-! ## Memory interface: wires -/

/-- `mem_la_firstword`: the instruction begins in the upper half of its word. -/
def memLaFirstword : Bool :=
  (s.core.main.memDoPrefetch || s.core.main.memDoRinst) && (nextPc s.core).getLsbD 1
    && !s.memLaSecondword

/-- `clear_prefetched_high_word`: the half word kept does not belong to the next instruction. -/
def clearPrefetchedHighWord : Bool :=
  if s.core.main.latchedBranch || s.core.main.irq.irqState != 0 || !i.resetn then true
  else if !s.prefetchedHighWord then false
  else s.clearPrefetchedHighWordQ

/-- `mem_la_use_prefetched_high_word`: the half word kept is used. -/
def memLaUsePrefetchedHighWord : Bool :=
  memLaFirstword s && s.prefetchedHighWord && !clearPrefetchedHighWord s i

/-- `mem_xfer`: the memory answers, or the half word kept stands for it. -/
def memXfer : Bool :=
  (s.core.mem.memValid && i.memReady)
    || (memLaUsePrefetchedHighWord s i && s.core.main.memDoRinst)

/-- `mem_la_firstword_xfer`: the first of two words arrives. -/
def memLaFirstwordXfer : Bool :=
  memXfer s i && (if !s.lastMemValid then memLaFirstword s else s.memLaFirstwordReg)

/-- `mem_rdata_latched_noshuffle`: the word as it is on the bus. -/
def memRdataLatchedNoshuffle : BitVec 32 :=
  if memXfer s i || p.latchedMemRdata then i.memRdata else s.core.mem.memRdataQ

/-- `mem_rdata_latched`: the word with the instruction in its low half. -/
def memRdataLatched : BitVec 32 :=
  let noshuffle := memRdataLatchedNoshuffle p s i
  if memLaUsePrefetchedHighWord s i then i.highX ++ s.mem16bitBuffer
  else if s.memLaSecondword then noshuffle.extractLsb' 0 16 ++ s.mem16bitBuffer
  else if memLaFirstword s then i.highX ++ noshuffle.extractLsb' 16 16
  else noshuffle

/-- The low bits of a 32-bit instruction. -/
def isLong (w : BitVec 32) : Bool := w.extractLsb' 0 2 == 0b11

/-- `mem_done`: the access that the main state machine has asked for is over. -/
def memDone : Bool :=
  i.resetn &&
    ((memXfer s i && s.core.mem.memState != .idle
        && (s.core.main.memDoRinst || s.core.main.memDoRdata || s.core.main.memDoWdata))
      || (s.core.mem.memState == .prefetched && s.core.main.memDoRinst))
    && (!memLaFirstword s || (!isLong (memRdataLatched p s i) && memXfer s i))

/-- The look-ahead of a store. -/
def memLaWrite : Bool := i.resetn && s.core.mem.memState == .idle && s.core.main.memDoWdata

/-- The look-ahead of a load or a fetch, the second word of an instruction included. -/
def memLaRead : Bool :=
  i.resetn &&
    ((!memLaUsePrefetchedHighWord s i && s.core.mem.memState == .idle
        && (s.core.main.memDoRinst || s.core.main.memDoPrefetch || s.core.main.memDoRdata))
      || (memLaFirstwordXfer s i && !s.memLaSecondword && isLong (memRdataLatched p s i)))

/-- The address of the next request. -/
def memLaAddr : BitVec 32 :=
  if s.core.main.memDoPrefetch || s.core.main.memDoRinst then
    ((nextPc s.core).extractLsb' 2 30 + (BitVec.ofBool (memLaFirstwordXfer s i)).setWidth 30) ++ 0#2
  else s.core.main.regOp1.extractLsb' 2 30 ++ 0#2

/-! ## Compressed instructions -/

/-- The bits `hi` to `lo` of an instruction. -/
def bits (w : BitVec 32) (hi lo : ℕ) : BitVec (hi - lo + 1) := w.extractLsb' lo (hi - lo + 1)

/-- The register of a three-bit field. -/
def reg3 (r : BitVec 3) : BitVec 6 := 8 + r.setWidth 6

/-- `decoded_imm_j` of a compressed jump. -/
def rvcImmJ (w : BitVec 32) : BitVec 32 :=
  let v : BitVec 32 := (bits w 12 2 ++ 0#1).signExtend 32
  v.extractLsb' 11 21 ++ v.extractLsb' 7 1 ++ v.extractLsb' 8 2 ++ v.extractLsb' 5 1
    ++ v.extractLsb' 6 1 ++ v.extractLsb' 1 1 ++ v.extractLsb' 10 1 ++ v.extractLsb' 2 3
    ++ v.extractLsb' 0 1

/-- The immediate of the format CI. -/
def immCI (w : BitVec 32) : BitVec 6 := bits w 12 12 ++ bits w 6 2

/-- Quadrant 0. -/
def decodeQ0 (w : BitVec 32) (f : First) : First :=
  match bits w 15 13 with
  | 0b000 => -- C.ADDI4SPN
    { f with
      isAluRegImm := bits w 12 5 != 0
      decodedRs1 := 2
      decodedRd := p.regindex (reg3 (bits w 4 2)) }
  | 0b010 => -- C.LW
    { f with
      isLbLhLwLbuLhu := true
      decodedRs1 := p.regindex (reg3 (bits w 9 7))
      decodedRd := p.regindex (reg3 (bits w 4 2)) }
  | 0b110 => -- C.SW
    { f with
      isSbShSw := true
      decodedRs1 := p.regindex (reg3 (bits w 9 7))
      decodedRs2 := (reg3 (bits w 4 2)).setWidth 5 }
  | _ => f

/-- Quadrant 1. -/
def decodeQ1 (w : BitVec 32) (f : First) : First :=
  let rd := p.regindex ((bits w 11 7).setWidth 6)
  let rs1' := p.regindex (reg3 (bits w 9 7))
  match bits w 15 13 with
  | 0b000 => { f with isAluRegImm := true, decodedRd := rd, decodedRs1 := rd } -- C.NOP, C.ADDI
  | 0b001 => { f with instrJal := true, decodedRd := 1 } -- C.JAL
  | 0b010 => { f with isAluRegImm := true, decodedRd := rd, decodedRs1 := 0 } -- C.LI
  | 0b011 =>
    if bits w 12 12 != 0 || bits w 6 2 != 0 then
      if bits w 11 7 == 2 then -- C.ADDI16SP
        { f with isAluRegImm := true, decodedRd := rd, decodedRs1 := rd }
      else { f with instrLui := true, decodedRd := rd, decodedRs1 := 0 } -- C.LUI
    else f
  | 0b100 =>
    let f :=
      if bits w 11 11 == 0 && bits w 12 12 == 0 then -- C.SRLI, C.SRAI
        { f with
          isAluRegImm := true
          decodedRd := rs1'
          decodedRs1 := rs1'
          decodedRs2 := (immCI w).setWidth 5 }
      else f
    let f :=
      if bits w 11 10 == 0b10 then -- C.ANDI
        { f with isAluRegImm := true, decodedRd := rs1', decodedRs1 := rs1' }
      else f
    if bits w 12 10 == 0b011 then -- C.SUB, C.XOR, C.OR, C.AND
      { f with
        isAluRegReg := true
        decodedRd := rs1'
        decodedRs1 := rs1'
        decodedRs2 := (reg3 (bits w 4 2)).setWidth 5 }
    else f
  | 0b101 => { f with instrJal := true } -- C.J
  | _ => -- C.BEQZ, C.BNEZ
    { f with isBeqBneBltBgeBltuBgeu := true, decodedRs1 := rs1', decodedRs2 := 0 }

/-- Quadrant 2. -/
def decodeQ2 (w : BitVec 32) (f : First) : First :=
  let rd := p.regindex ((bits w 11 7).setWidth 6)
  match bits w 15 13 with
  | 0b000 => -- C.SLLI
    if bits w 12 12 == 0 then
      { f with
        isAluRegImm := true
        decodedRd := rd
        decodedRs1 := rd
        decodedRs2 := (immCI w).setWidth 5 }
    else f
  | 0b010 => -- C.LWSP
    if bits w 11 7 != 0 then { f with isLbLhLwLbuLhu := true, decodedRd := rd, decodedRs1 := 2 }
    else f
  | 0b100 =>
    if bits w 12 12 == 0 then
      if bits w 6 2 == 0 then
        if bits w 11 7 != 0 then -- C.JR
          { f with instrJalr := true, decodedRd := 0, decodedRs1 := rd }
        else f
      else -- C.MV
        { f with isAluRegReg := true, decodedRd := rd, decodedRs1 := 0, decodedRs2 := bits w 6 2 }
    else if bits w 6 2 == 0 then
      if bits w 11 7 != 0 then -- C.JALR
        { f with instrJalr := true, decodedRd := 1, decodedRs1 := rd }
      else f
    else -- C.ADD
      { f with isAluRegReg := true, decodedRd := rd, decodedRs1 := rd, decodedRs2 := bits w 6 2 }
  | 0b110 => -- C.SWSP
    { f with isSbShSw := true, decodedRs1 := 2, decodedRs2 := bits w 6 2 }
  | _ => f

/-- The first decoder stage. -/
def decodeFirst (w : BitVec 32) : First :=
  let f := Picorv32.decodeFirst p w
  if isLong w then f
  else
    let f :=
      { f with
        compressedInstr := true
        decodedRd := 0
        decodedRs1 := 0
        decodedRs2 := 0
        decodedImmJ := rvcImmJ w }
    match bits w 1 0 with
    | 0b00 => decodeQ0 p w f
    | 0b01 => decodeQ1 p w f
    | _ => decodeQ2 p w f

/-- `mem_rdata_q[14:12]`, `[31:25]` and `[31:20]`. -/
def setFunct3 (v : BitVec 3) (q : BitVec 32) : BitVec 32 := setSlice q 12 v

/-- `mem_rdata_q[31:25] <= v`. -/
def setFunct7 (v : BitVec 7) (q : BitVec 32) : BitVec 32 := setSlice q 25 v

/-- `mem_rdata_q[31:20] <= v`. -/
def setImmI (v : BitVec 12) (q : BitVec 32) : BitVec 32 := setSlice q 20 v

/-- `{mem_rdata_q[31:25], mem_rdata_q[11:7]}` -/
def setImmS (v : BitVec 12) (q : BitVec 32) : BitVec 32 :=
  setSlice (setSlice q 25 (v.extractLsb' 5 7)) 7 (v.extractLsb' 0 5)

/-- `{mem_rdata_q[31], mem_rdata_q[7], mem_rdata_q[30:25], mem_rdata_q[11:8]}` -/
def setImmB (v : BitVec 12) (q : BitVec 32) : BitVec 32 :=
  let q := setSlice (setSlice q 31 (v.extractLsb' 11 1)) 7 (v.extractLsb' 10 1)
  setSlice (setSlice q 25 (v.extractLsb' 4 6)) 8 (v.extractLsb' 0 4)

/-- What the instruction `w` makes of the captured word `q` for the second decoder stage. -/
def expand (w q : BitVec 32) : BitVec 32 :=
  let ci : BitVec 12 := (immCI w).signExtend 12
  let lw : BitVec 12 := 0#5 ++ bits w 5 5 ++ bits w 12 10 ++ bits w 6 6 ++ 0#2
  match bits w 1 0 with
  | 0b00 =>
    match bits w 15 13 with
    | 0b000 => -- C.ADDI4SPN
      setImmI (0#2 ++ bits w 10 7 ++ bits w 12 11 ++ bits w 5 5 ++ bits w 6 6 ++ 0#2)
        (setFunct3 0b000 q)
    | 0b010 => setFunct3 0b010 (setImmI lw q) -- C.LW
    | 0b110 => setFunct3 0b010 (setImmS lw q) -- C.SW
    | _ => q
  | 0b01 =>
    match bits w 15 13 with
    | 0b000 | 0b010 => setImmI ci (setFunct3 0b000 q) -- C.ADDI, C.LI
    | 0b011 =>
      if bits w 11 7 == 2 then -- C.ADDI16SP
        setImmI ((bits w 12 12 ++ bits w 4 3 ++ bits w 5 5 ++ bits w 2 2 ++ bits w 6 6
          ++ 0#4).signExtend 12) (setFunct3 0b000 q)
      else setSlice q 12 ((immCI w).signExtend 20) -- C.LUI
    | 0b100 =>
      let q := if bits w 11 10 == 0b00 then setFunct3 0b101 (setFunct7 0b0000000 q) else q -- C.SRLI
      let q := if bits w 11 10 == 0b01 then setFunct3 0b101 (setFunct7 0b0100000 q) else q -- C.SRAI
      let q := if bits w 11 10 == 0b10 then setImmI ci (setFunct3 0b111 q) else q -- C.ANDI
      if bits w 12 10 == 0b011 then -- C.SUB, C.XOR, C.OR, C.AND
        let funct3 : BitVec 3 :=
          match bits w 6 5 with
          | 0b00 => 0b000
          | 0b01 => 0b100
          | 0b10 => 0b110
          | _ => 0b111
        setFunct7 (if bits w 6 5 == 0b00 then 0b0100000 else 0b0000000) (setFunct3 funct3 q)
      else q
    | 0b110 => setImmB (branchImm w) (setFunct3 0b000 q) -- C.BEQZ
    | 0b111 => setImmB (branchImm w) (setFunct3 0b001 q) -- C.BNEZ
    | _ => q
  | 0b10 =>
    match bits w 15 13 with
    | 0b000 => setFunct3 0b001 (setFunct7 0b0000000 q) -- C.SLLI
    | 0b010 => -- C.LWSP
      setFunct3 0b010
        (setImmI (0#4 ++ bits w 3 2 ++ bits w 12 12 ++ bits w 6 4 ++ 0#2) q)
    | 0b100 =>
      if bits w 12 12 == 0 then
        if bits w 6 2 == 0 then setImmI 0 (setFunct3 0b000 q) -- C.JR
        else setFunct7 0b0000000 (setFunct3 0b000 q) -- C.MV
      else if bits w 6 2 == 0 then
        if bits w 11 7 != 0 then setImmI 0 (setFunct3 0b000 q) else q -- C.JALR
      else setFunct7 0b0000000 (setFunct3 0b000 q) -- C.ADD
    | 0b110 => -- C.SWSP
      setFunct3 0b010 (setImmS (0#4 ++ bits w 8 7 ++ bits w 12 9 ++ 0#2) q)
    | _ => q
  | _ => q
where
  branchImm (w : BitVec 32) : BitVec 12 :=
    (bits w 12 12 ++ bits w 6 5 ++ bits w 2 2 ++ bits w 11 10 ++ bits w 4 3).signExtend 12

/-! ## Memory interface: registers -/

/-- `mem_rdata_q` after a clock edge: a compressed instruction is expanded as it is latched. -/
def memRdataQStep : BitVec 32 :=
  let w := memRdataLatched p s i
  let q := if memXfer s i then w else s.core.mem.memRdataQ
  if memDone p s i && (s.core.main.memDoPrefetch || s.core.main.memDoRinst) then expand w q else q

/-- The registers of the memory interface. -/
structure Port where
  mem : Mem
  secondword : Bool
  prefetchedHighWord : Bool
  buffer : BitVec 16

/-- Leaving `mem_state` 0. -/
def portIdle (t : Port) : Port :=
  let m := s.core.main
  let t :=
    if m.memDoPrefetch || m.memDoRinst || m.memDoRdata then
      { t with
        mem :=
          { t.mem with
            memValid := !memLaUsePrefetchedHighWord s i
            memInstr := m.memDoPrefetch || m.memDoRinst
            memWstrb := 0
            memState := .read } }
    else t
  if m.memDoWdata then
    { t with mem := { t.mem with memValid := true, memInstr := false, memState := .write } }
  else t

/-- A transfer in `mem_state` 1. -/
def portRead (t : Port) : Port :=
  let m := s.core.main
  if memLaRead p s i then
    { t with
      mem := { t.mem with memValid := true }
      secondword := true
      buffer :=
        if !memLaUsePrefetchedHighWord s i then i.memRdata.extractLsb' 16 16 else t.buffer }
  else
    let t :=
      if !m.memDoRdata then
        if !isLong i.memRdata || s.memLaSecondword then
          { t with buffer := i.memRdata.extractLsb' 16 16, prefetchedHighWord := true }
        else { t with prefetchedHighWord := false }
      else t
    { t with
      mem :=
        { t.mem with
          memValid := false
          memState := if m.memDoRinst || m.memDoRdata then .idle else .prefetched }
      secondword := false }

/-- The registers of the memory interface after a clock edge. -/
def portStep : Port :=
  let m := s.core.main
  let t : Port :=
    ⟨{ s.core.mem with memRdataQ := memRdataQStep p s i }, s.memLaSecondword, s.prefetchedHighWord,
      s.mem16bitBuffer⟩
  let t :=
    if !i.resetn || m.trap then
      let mem := if !i.resetn then { t.mem with memState := .idle } else t.mem
      { t with
        mem := if !i.resetn || i.memReady then { mem with memValid := false } else mem
        secondword := false
        prefetchedHighWord := false }
    else
      let t :=
        if memLaRead p s i || memLaWrite s i then
          { t with
            mem :=
              { t.mem with
                memAddr := memLaAddr s i
                memWstrb := if memLaWrite s i then memLaWstrb s.core i.toInputs else 0 } }
        else t
      let t :=
        if memLaWrite s i then
          { t with mem := { t.mem with memWdata := memLaWdata s.core i.toInputs } }
        else t
      match s.core.mem.memState with
      | .idle => portIdle s i t
      | .read => if memXfer s i then portRead p s i t else t
      | .write =>
        if memXfer s i then { t with mem := { t.mem with memValid := false, memState := .idle } }
        else t
      | .prefetched => if m.memDoRinst then { t with mem := { t.mem with memState := .idle } } else t
  if clearPrefetchedHighWord s i then { t with prefetchedHighWord := false } else t

/-! ## Decoder -/

/-- The first stage of the decoder after a clock edge. -/
def firstStep : First :=
  let f :=
    if s.core.main.memDoRinst && memDone p s i then decodeFirst p (memRdataLatched p s i)
    else s.core.first
  if !i.resetn then { f with isBeqBneBltBgeBltuBgeu := false } else f

/-- The second stage; `c.ebreak` is decoded from the captured word. -/
def decodeSecond (f : First) (w : BitVec 32) (u : Undef) : Second :=
  let d := Picorv32.decodeSecond p f w u
  { d with instrEcallEbreak := d.instrEcallEbreak || w.extractLsb' 0 16 == 0x9002 }

/-- The second stage of the decoder after a clock edge. -/
def secondStep : Second :=
  let d :=
    if decodes s.core then decodeSecond p s.core.first s.core.mem.memRdataQ i.undef
    else s.core.second
  if !i.resetn then d.clear else d

/-! ## Main state machine -/

/-- A core whose `mem_done` is the given signal; nothing else of the memory interface reaches the
    main state machine. -/
def showing (done : Bool) (s : Picorv32.State) : Picorv32.State :=
  { s with mem := { s.mem with memState := .read, memValid := done } }

/-- With `mem_ready` it shows `mem_done` at once. -/
def shownTo (i : Picorv32.Inputs) : Picorv32.Inputs := { i with memReady := true }

/-- Instructions are aligned to halfwords. -/
def checks (s : Picorv32.State) (i : Picorv32.Inputs) (w : Work) : Work :=
  checksWith p s i (s.main.regPc.getLsbD 0) w

/-- The low bit of the program counter is clear. -/
def finish (s : Picorv32.State) (i : Picorv32.Inputs) (w : Work) : Main := finishWith p s i 1 w

/-- The main state machine, which sees `mem_done` of this interface. -/
def mainStep : Main :=
  let s' := showing (memDone p s i) s.core
  let i' := shownTo i.toInputs
  let w := defaults p s' i'
  let w := if !i.resetn then resetState p w else cpuStateCase p s' i' w
  finish p s' i' (checks p s' i' (irqInputs p s' i' w))

/-! ## The clock edge -/

/-- The clock edge of the core. -/
def step (p : Params) (i : Inputs) (s : State) : State :=
  let t := portStep p s i
  { core :=
      { mem := t.mem
        first := firstStep p s i
        second := secondStep p s i
        classes := classesStep s.core i.toInputs
        alu := aluStep p s.core
        main := mainStep p s i
        cpuregs := cpuregsStep p s.core i.toInputs }
    memLaSecondword := t.secondword
    prefetchedHighWord := t.prefetchedHighWord
    mem16bitBuffer := t.buffer
    memLaFirstwordReg :=
      if !i.resetn then false
      else if !s.lastMemValid then memLaFirstword s else s.memLaFirstwordReg
    lastMemValid := i.resetn && s.core.mem.memValid && !i.memReady
    clearPrefetchedHighWordQ := clearPrefetchedHighWord s i }

end PicoSoc.Picorv32.Rvc
