import PicoSoc.Cpu.Decoder

set_option autoImplicit false

/-! # One clock cycle of `picorv32`

One definition for each `always` block of the source. They read the registers before the clock
edge; only the main state machine has variables of its own (`Work`), assigned in sequence. -/

namespace PicoSoc.Picorv32

variable (p : Params) (s : State) (i : Inputs)

/-! ## Memory interface: wires -/

/-- `next_pc`: the target of a taken branch or jump, or the next instruction. -/
def nextPc : BitVec 32 :=
  if s.main.latchedStore && s.main.latchedBranch then s.main.regOut &&& ~~~1#32
  else s.main.regNextPc

/-- `mem_xfer`: the memory answers the request. -/
def memXfer : Bool := s.mem.memValid && i.memReady

/-- `mem_done`: the access that the main state machine has asked for is over. -/
def memDone : Bool :=
  i.resetn &&
    ((memXfer s i && s.mem.memState != .idle
        && (s.main.memDoRinst || s.main.memDoRdata || s.main.memDoWdata))
      || (s.mem.memState == .prefetched && s.main.memDoRinst))

/-- The look-ahead of a store. -/
def memLaWrite : Bool := i.resetn && s.mem.memState == .idle && s.main.memDoWdata

/-- The look-ahead of a load or a fetch. -/
def memLaRead : Bool :=
  i.resetn && s.mem.memState == .idle
    && (s.main.memDoRinst || s.main.memDoPrefetch || s.main.memDoRdata)

/-- The address of the next request, of a word. -/
def memLaAddr : BitVec 32 :=
  if s.main.memDoPrefetch || s.main.memDoRinst then
    (nextPc s).extractLsb' 2 30 ++ 0#2
  else s.main.regOp1.extractLsb' 2 30 ++ 0#2

/-- The word read now, or the last one. -/
def memRdataLatched : BitVec 32 :=
  if memXfer s i || p.latchedMemRdata then i.memRdata else s.mem.memRdataQ

/-- The store data, repeated in every lane it may go to. -/
def memLaWdata : BitVec 32 :=
  let op2 := s.main.regOp2
  match s.main.memWordsize with
  | 0 => op2
  | 1 => op2.extractLsb' 0 16 ++ op2.extractLsb' 0 16
  | 2 => op2.extractLsb' 0 8 ++ op2.extractLsb' 0 8 ++ op2.extractLsb' 0 8 ++ op2.extractLsb' 0 8
  | _ => i.undef.memLaWdata

/-- The byte lanes of a store. -/
def memLaWstrb : BitVec 4 :=
  match s.main.memWordsize with
  | 0 => 0b1111
  | 1 => if s.main.regOp1.getLsbD 1 then 0b1100 else 0b0011
  | 2 => 0b0001#4 <<< (s.main.regOp1.extractLsb' 0 2).toNat
  | _ => i.undef.memLaWstrb

/-- The loaded byte, half word or word, in the low bits. -/
def memRdataWord : BitVec 32 :=
  match s.main.memWordsize with
  | 0 => i.memRdata
  | 1 =>
    if s.main.regOp1.getLsbD 1 then (i.memRdata.extractLsb' 16 16).setWidth 32
    else (i.memRdata.extractLsb' 0 16).setWidth 32
  | 2 => (i.memRdata.extractLsb' (8 * (s.main.regOp1.extractLsb' 0 2).toNat) 8).setWidth 32
  | _ => i.undef.memRdataWord

/-! ## Memory interface: state machine -/

/-- Leaving `mem_state` 0. -/
def memIdle (m : Mem) : Mem :=
  let m :=
    if s.main.memDoPrefetch || s.main.memDoRinst || s.main.memDoRdata then
      { m with
        memValid := true
        memInstr := s.main.memDoPrefetch || s.main.memDoRinst
        memWstrb := 0
        memState := .read }
    else m
  if s.main.memDoWdata then
    { m with memValid := true, memInstr := false, memState := .write }
  else m

/-- The registers of the memory interface after a clock edge. -/
def memStep : Mem :=
  let m := s.mem
  let m := if memXfer s i then { m with memRdataQ := i.memRdata } else m
  if !i.resetn || s.main.trap then
    let m := if !i.resetn then { m with memState := .idle } else m
    if !i.resetn || i.memReady then { m with memValid := false } else m
  else
    let m :=
      if memLaRead s i || memLaWrite s i then
        { m with
          memAddr := memLaAddr s
          memWstrb := if memLaWrite s i then memLaWstrb s i else 0 }
      else m
    let m := if memLaWrite s i then { m with memWdata := memLaWdata s i } else m
    match s.mem.memState with
    | .idle => memIdle s m
    | .read =>
      if memXfer s i then
        { m with
          memValid := false
          memState := if s.main.memDoRinst || s.main.memDoRdata then .idle else .prefetched }
      else m
    | .write => if memXfer s i then { m with memValid := false, memState := .idle } else m
    | .prefetched => if s.main.memDoRinst then { m with memState := .idle } else m

/-! ## Decoder -/

/-- The first stage of the decoder after a clock edge. -/
def firstStep : First :=
  let f :=
    if s.main.memDoRinst && memDone s i then decodeFirst p (memRdataLatched p s i) else s.first
  if !i.resetn then { f with isBeqBneBltBgeBltuBgeu := false } else f

/-- The condition under which the second decoder stage runs. -/
def decodes : Bool := s.main.decoderTrigger && !s.main.decoderPseudoTrigger

/-- The second stage of the decoder after a clock edge. -/
def secondStep : Second :=
  let d := if decodes s then decodeSecond p s.first s.mem.memRdataQ i.undef else s.second
  if !i.resetn then d.clear else d

/-- The instruction classes after a clock edge. -/
def classesStep : Classes :=
  let c := classify s.first s.second
  let c := if decodes s then { c with isLuiAuipcJalJalrAddiAddSub := false, isCompare := false }
    else c
  if !i.resetn then { c with isCompare := false } else c

/-! ## ALU -/

/-- What the ALU computes from the operand registers. -/
def aluWires : Alu :=
  let op1 := s.main.regOp1
  let op2 := s.main.regOp2
  let sh := (op2.extractLsb' 0 5).toNat
  let arith := s.second.instrSra || s.second.instrSrai
  { aluAddSub := if s.second.instrSub then op1 - op2 else op1 + op2
    aluEq := op1 == op2
    aluLts := op1.slt op2
    aluLtu := op1.ult op2
    aluShl := op1 <<< sh
    aluShr := if arith then op1.sshiftRight sh else op1 >>> sh }

/-- `alu_add_sub`, `alu_eq`, …: the registers or the wires. -/
def aluNow : Alu := if p.twoCycleAlu then s.alu else aluWires s

/-- The ALU registers, which `TWO_CYCLE_ALU` adds. -/
def aluStep : Alu := if p.twoCycleAlu then aluWires s else s.alu

/-- `alu_out_0`: the result of a comparison. -/
def aluOut0 : Bool :=
  let a := aluNow p s
  let d := s.second
  let branch := d.instrBeq || d.instrBne || d.instrBge || d.instrBgeu
  if d.instrBeq then a.aluEq
  else if d.instrBne then !a.aluEq
  else if d.instrBge then !a.aluLts
  else if d.instrBgeu then !a.aluLtu
  else if s.classes.isSltiBltSlt && (!p.twoCycleCompare || !branch) then a.aluLts
  else if s.classes.isSltiuBltuSltu && (!p.twoCycleCompare || !branch) then a.aluLtu
  else i.undef.aluOut0

/-- `alu_out`: the result of the instruction. -/
def aluOut : BitVec 32 :=
  let a := aluNow p s
  let d := s.second
  let op1 := s.main.regOp1
  let op2 := s.main.regOp2
  if s.classes.isLuiAuipcJalJalrAddiAddSub then a.aluAddSub
  else if s.classes.isCompare then (BitVec.ofBool (aluOut0 p s i)).setWidth 32
  else if d.instrXori || d.instrXor then op1 ^^^ op2
  else if d.instrOri || d.instrOr then op1 ||| op2
  else if d.instrAndi || d.instrAnd then op1 &&& op2
  else if p.barrelShifter && (d.instrSll || d.instrSlli) then a.aluShl
  else if p.barrelShifter && (d.instrSrl || d.instrSrli || d.instrSra || d.instrSrai) then a.aluShr
  else i.undef.aluOut

/-! ## Register file -/

/-- `cpuregs_write` and `cpuregs_wrdata`. -/
def cpuregsWrite : Option (BitVec 32) :=
  let m := s.main
  if m.cpuState = .fetch then
    if m.latchedBranch then some (m.regPc + if m.latchedCompr then 2 else 4)
    else if m.latchedStore then some (if m.latchedStalu then m.aluOutQ else m.regOut)
    else if p.enableIrq && m.irq.irqState.getLsbD 0 then
      some (m.regNextPc ||| (BitVec.ofBool m.latchedCompr).setWidth 32)
    else if p.enableIrq && m.irq.irqState.getLsbD 1 then some (m.irq.irqPending &&& ~~~m.irq.irqMask)
    else none
  else none

/-- The register file after a clock edge. -/
def cpuregsStep : BitVec 6 → BitVec 32 :=
  match cpuregsWrite p s with
  | some v =>
    if i.resetn && s.main.latchedRd != 0 then Function.update s.cpuregs s.main.latchedRd v
    else s.cpuregs
  | none => s.cpuregs

/-- The register read through a single port. -/
def decodedRs : BitVec 6 :=
  if s.main.cpuState = .ldRs2 then s.first.decodedRs2.setWidth 6 else s.first.decodedRs1

/-- Register 0 reads as zero. -/
def readReg (r : BitVec 6) : BitVec 32 := if r != 0 then s.cpuregs r else 0

/-- The first source operand. -/
def cpuregsRs1 : BitVec 32 :=
  if p.enableRegsDualport then readReg s s.first.decodedRs1 else readReg s (decodedRs s)

/-- The second source operand. -/
def cpuregsRs2 : BitVec 32 :=
  if p.enableRegsDualport then readReg s (s.first.decodedRs2.setWidth 6) else cpuregsRs1 p s

/-! ## Main state machine -/

/-- The registers being assigned and the variables of the block. -/
structure Work where
  main : Main
  setMemDoRinst : Bool
  setMemDoRdata : Bool
  setMemDoWdata : Bool
  nextIrqPending : BitVec 32

/-- Interrupts that are pending and not masked. -/
def irqRequests : BitVec 32 := s.main.irq.irqPending &&& ~~~s.main.irq.irqMask

/-- `launch_next_insn`: the state `fetch` takes the decoded instruction. -/
def launchNextInsn : Bool :=
  s.main.cpuState == .fetch && s.main.decoderTrigger
    && (!p.enableIrq || s.main.irq.irqDelay || s.main.irq.irqActive || irqRequests s == 0)

/-- The assignments made in every cycle, before the case distinction. -/
def defaults : Work :=
  let m := s.main
  let irq := m.irq
  let count := pcpiCount m
  { main :=
      { m with
        trap := false
        regSh := i.undef.regSh
        regOut := i.undef.regOut
        aluOut0Q := aluOut0 p s i
        aluOutQ := aluOut p s i
        aluWait := false
        aluWait2 := false
        pcpiTimeoutCounter := if p.withPcpi && p.catchIllinsn then count else m.pcpiTimeoutCounter
        pcpiTimeout :=
          if p.withPcpi && p.catchIllinsn then m.pcpiTimeoutCounter == 0 else m.pcpiTimeout
        countCycle :=
          if p.enableCounters then
            let c := if i.resetn then m.countCycle + 1 else 0
            if p.enableCounters64 then c else (c.setWidth 32).setWidth 64
          else i.undef.countCycle
        countInstr := if p.enableCounters then m.countInstr else i.undef.countInstr
        decoderTrigger := m.memDoRinst && memDone s i
        decoderTriggerQ := m.decoderTrigger
        decoderPseudoTrigger := false
        decoderPseudoTriggerQ := m.decoderPseudoTrigger
        irq :=
          { irq with
            timer :=
              if p.enableIrq && p.enableIrqTimer && irq.timer != 0 then irq.timer - 1
              else irq.timer
            doWaitirq := false } }
    setMemDoRinst := false
    setMemDoRdata := false
    setMemDoWdata := false
    nextIrqPending := if p.enableIrq then irq.irqPending &&& p.latchedIrq else i.undef.irqPending }
where
  pcpiCount (m : Main) : BitVec 4 :=
    if i.resetn && m.pcpiValid && !i.pcpiIntWait then
      if m.pcpiTimeoutCounter != 0 then m.pcpiTimeoutCounter - 1 else m.pcpiTimeoutCounter
    else ~~~0#4

/-- The branch `!resetn`. -/
def resetState (w : Work) : Work :=
  let m :=
    { w.main with
      regPc := p.progaddrReset
      regNextPc := p.progaddrReset
      countInstr := if p.enableCounters then 0 else w.main.countInstr
      latchedStore := false
      latchedStalu := false
      latchedBranch := false
      latchedIsLu := false
      latchedIsLh := false
      latchedIsLb := false
      pcpiValid := false
      pcpiTimeout := false
      cpuState := .fetch
      irq :=
        { w.main.irq with
          irqActive := false
          irqDelay := false
          irqMask := ~~~0#32
          irqState := 0
          eoi := 0
          timer := 0 } }
  { w with
    main :=
      if ~~~p.stackaddr != 0 then
        { m with latchedStore := true, latchedRd := 2, regOut := p.stackaddr }
      else m
    nextIrqPending := 0 }

/-- `current_pc` in the state `fetch`, before an interrupt enters. -/
def branchPc : BitVec 32 :=
  let m := s.main
  if m.latchedBranch then
    if m.latchedStore then (if m.latchedStalu then m.aluOutQ else m.regOut) &&& ~~~1#32
    else m.regNextPc
  else m.regNextPc

/-- The step of an instruction, in bytes. -/
def insnSize : BitVec 32 := if s.first.compressedInstr then 2 else 4

/-- The state `fetch`: the pending result is written and the next instruction launched, unless an
    interrupt is entered. -/
def fetchState (w : Work) : Work :=
  let m := s.main
  let irqEnter := p.enableIrq && !m.latchedBranch && !m.latchedStore && m.irq.irqState.getLsbD 0
  let irqAck := p.enableIrq && !m.latchedBranch && !m.latchedStore && !m.irq.irqState.getLsbD 0
    && m.irq.irqState.getLsbD 1
  let currentPc := if irqEnter then p.progaddrIrq else branchPc s
  let w :=
    { w with
      main :=
        { w.main with
          memDoRinst := if irqEnter then true else !m.decoderTrigger && !m.irq.doWaitirq
          memWordsize := 0
          irq :=
            { w.main.irq with
              irqActive := if irqEnter then true else w.main.irq.irqActive
              eoi := if irqAck then irqRequests s else w.main.irq.eoi }
          regPc := currentPc
          regNextPc := currentPc
          latchedStore := false
          latchedStalu := false
          latchedBranch := false
          latchedIsLu := false
          latchedIsLh := false
          latchedIsLb := false
          latchedRd := s.first.decodedRd
          latchedCompr := s.first.compressedInstr }
      nextIrqPending := if irqAck then w.nextIrqPending &&& m.irq.irqMask else w.nextIrqPending }
  if p.enableIrq && ((m.decoderTrigger && !m.irq.irqActive && !m.irq.irqDelay && irqRequests s != 0)
      || m.irq.irqState != 0) then
    { w with
      main :=
        { w.main with
          irq :=
            { w.main.irq with
              irqState :=
                if m.irq.irqState == 0 then 1 else if m.irq.irqState == 1 then 2 else 0 }
          latchedCompr := m.latchedCompr
          latchedRd :=
            if p.enableIrqQregs then
              p.regindex (p.irqregsOffset ||| (m.irq.irqState.extractLsb' 0 1).setWidth 6)
            else if m.irq.irqState.getLsbD 0 then 4 else 3 } }
  else if p.enableIrq && (m.decoderTrigger || m.irq.doWaitirq) && s.first.instrWaitirq then
    if m.irq.irqPending != 0 then
      { w with
        main :=
          { w.main with
            latchedStore := true
            regOut := m.irq.irqPending
            regNextPc := currentPc + insnSize s
            memDoRinst := true } }
    else { w with main := { w.main with irq := { w.main.irq with doWaitirq := true } } }
  else if m.decoderTrigger then
    let main :=
      { w.main with
        irq := { w.main.irq with irqDelay := m.irq.irqActive }
        regNextPc := currentPc + insnSize s
        countInstr :=
          if p.enableCounters then
            let c := m.countInstr + 1
            if p.enableCounters64 then c else (c.setWidth 32).setWidth 64
          else w.main.countInstr }
    if s.first.instrJal then
      { w with
        main :=
          { main with
            memDoRinst := true
            regNextPc := currentPc + s.first.decodedImmJ
            latchedBranch := true } }
    else
      { w with
        main :=
          { main with
            memDoRinst := false
            memDoPrefetch := !s.first.instrJalr && !s.first.instrRetirq
            cpuState := .ldRs1 } }
  else w

/-- A trap, unless it can be taken as the interrupt `n`. -/
def trapOrIrq (n : ℕ) (target : CpuState) (w : Work) : Work :=
  if p.enableIrq && !s.main.irq.irqMask.getLsbD n && !s.main.irq.irqActive then
    { w with
      main := { w.main with cpuState := target }
      nextIrqPending := w.nextIrqPending ||| 1#32 <<< n }
  else { w with main := { w.main with cpuState := .trap } }

/-- `irq_ebreak`, `irq_buserror` and `irq_timer`. -/
def irqEbreak : ℕ := 1

/-- The interrupt of a misaligned access. -/
def irqBuserror : ℕ := 2

/-- The interrupt of the timer. -/
def irqTimer : ℕ := 0

/-- A coprocessor instruction: done, given up or still waiting. -/
def pcpiState (w : Work) : Work :=
  if i.pcpiIntReady then
    { w with
      main :=
        { w.main with
          memDoRinst := true
          pcpiValid := false
          regOut := i.pcpiIntRd
          latchedStore := i.pcpiIntWr
          cpuState := .fetch } }
  else if p.catchIllinsn && (s.main.pcpiTimeout || s.second.instrEcallEbreak) then
    trapOrIrq p s irqEbreak .fetch { w with main := { w.main with pcpiValid := false } }
  else { w with main := { w.main with pcpiValid := true } }

/-- Both operands are there: the last choice of `ld_rs1` (dual port) and of `ld_rs2`. -/
def operandsState (w : Work) : Work :=
  let slow := p.twoCycleCompare && s.first.isBeqBneBltBgeBltuBgeu
  if s.first.isSbShSw then
    { w with main := { w.main with cpuState := .stmem, memDoRinst := true } }
  else if s.second.isSllSrlSra && !p.barrelShifter then
    { w with main := { w.main with cpuState := .shift } }
  else
    let m :=
      if p.twoCycleAlu || slow then
        { w.main with aluWait2 := p.twoCycleAlu && slow, aluWait := true }
      else { w.main with memDoRinst := s.main.memDoPrefetch }
    { w with main := { m with cpuState := .exec } }

/-- The single choices of `ld_rs1` that send a value straight to the register file. -/
def toFetch (v : BitVec 32) (w : Work) : Work :=
  { w with main := { w.main with regOut := v, latchedStore := true, cpuState := .fetch } }

/-- From `ld_rs1` to `exec`. -/
def toExec (op1 op2 : BitVec 32) (w : Work) : Work :=
  let m := { w.main with regOp1 := op1, regOp2 := op2, cpuState := .exec }
  { w with
    main :=
      if p.twoCycleAlu then { m with aluWait := true }
      else { m with memDoRinst := s.main.memDoPrefetch } }

/-- The state `ld_rs1`: the first operand is read and the instruction sent on its way. -/
def ldRs1State (w : Work) : Work :=
  let m := s.main
  let f := s.first
  let d := s.second
  let rs1 := cpuregsRs1 p s
  let rs2 := cpuregsRs2 p s
  let w :=
    { w with main := { w.main with regOp1 := i.undef.regOp1, regOp2 := i.undef.regOp2 } }
  if (p.catchIllinsn || p.withPcpi) && instrTrap p f d then
    if p.withPcpi then
      if p.enableRegsDualport then
        pcpiState p s i
          { w with main := { w.main with regOp1 := rs1, regOp2 := rs2, regSh := rs2.setWidth 5 } }
      else { w with main := { w.main with regOp1 := rs1, cpuState := .ldRs2 } }
    else trapOrIrq p s irqEbreak .fetch w
  else if p.enableCounters && isRdcycleRdcyclehRdinstrRdinstrh d then
    let v :=
      if d.instrRdcycle then (m.countCycle.extractLsb' 0 32 : BitVec 32)
      else if d.instrRdcycleh && p.enableCounters64 then m.countCycle.extractLsb' 32 32
      else if d.instrRdinstr then m.countInstr.extractLsb' 0 32
      else if d.instrRdinstrh && p.enableCounters64 then m.countInstr.extractLsb' 32 32
      else w.main.regOut
    toFetch v w
  else if s.classes.isLuiAuipcJal then
    toExec p s (if f.instrLui then 0 else m.regPc) d.decodedImm w
  else if p.enableIrq && p.enableIrqQregs && d.instrGetq then toFetch rs1 w
  else if p.enableIrq && p.enableIrqQregs && d.instrSetq then
    toFetch rs1
      { w with main := { w.main with latchedRd := p.regindex (m.latchedRd ||| p.irqregsOffset) } }
  else if p.enableIrq && f.instrRetirq then
    toFetch (if p.catchMisalign then rs1 &&& 0xfffffffe else rs1)
      { w with
        main :=
          { w.main with
            latchedBranch := true
            irq := { w.main.irq with eoi := 0, irqActive := false } } }
  else if p.enableIrq && d.instrMaskirq then
    toFetch m.irq.irqMask
      { w with
        main := { w.main with irq := { w.main.irq with irqMask := rs1 ||| p.maskedIrq } } }
  else if p.enableIrq && p.enableIrqTimer && d.instrTimer then
    toFetch m.irq.timer
      { w with main := { w.main with irq := { w.main.irq with timer := rs1 } } }
  else if f.isLbLhLwLbuLhu && !instrTrap p f d then
    { w with main := { w.main with regOp1 := rs1, cpuState := .ldmem, memDoRinst := true } }
  else if d.isSlliSrliSrai && !p.barrelShifter then
    { w with main := { w.main with regOp1 := rs1, regSh := f.decodedRs2, cpuState := .shift } }
  else if d.isJalrAddiSltiSltiuXoriOriAndi || (d.isSlliSrliSrai && p.barrelShifter) then
    toExec p s rs1
      (if d.isSlliSrliSrai && p.barrelShifter then f.decodedRs2.setWidth 32 else d.decodedImm) w
  else if p.enableRegsDualport then
    operandsState p s
      { w with main := { w.main with regOp1 := rs1, regOp2 := rs2, regSh := rs2.setWidth 5 } }
  else { w with main := { w.main with regOp1 := rs1, cpuState := .ldRs2 } }

/-- The state `ld_rs2`: the second operand is read through the single port. -/
def ldRs2State (w : Work) : Work :=
  let rs2 := cpuregsRs2 p s
  let w := { w with main := { w.main with regSh := rs2.setWidth 5, regOp2 := rs2 } }
  if p.withPcpi && instrTrap p s.first s.second then pcpiState p s i w
  else operandsState p s w

/-- The state `exec`: the ALU result is taken, or the branch decided. -/
def execState (w : Work) : Work :=
  let m := s.main
  let taken := if p.twoCycleCompare then m.aluOut0Q else aluOut0 p s i
  let w := { w with main := { w.main with regOut := m.regPc + s.second.decodedImm } }
  if (p.twoCycleAlu || p.twoCycleCompare) && (m.aluWait || m.aluWait2) then
    { w with
      main := { w.main with memDoRinst := m.memDoPrefetch && !m.aluWait2, aluWait := m.aluWait2 } }
  else if s.first.isBeqBneBltBgeBltuBgeu then
    { w with
      main :=
        { w.main with
          latchedRd := 0
          latchedStore := taken
          latchedBranch := taken
          cpuState := if memDone s i then .fetch else w.main.cpuState
          decoderTrigger := if taken then false else w.main.decoderTrigger }
      setMemDoRinst := taken }
  else
    { w with
      main :=
        { w.main with
          latchedBranch := s.first.instrJalr
          latchedStore := true
          latchedStalu := true
          cpuState := .fetch } }

/-- `reg_op1` shifted by `n` the way the instruction says. -/
def shifted (n : ℕ) : BitVec 32 :=
  let d := s.second
  let op1 := s.main.regOp1
  if d.instrSlli || d.instrSll then op1 <<< n
  else if d.instrSrli || d.instrSrl then op1 >>> n
  else if d.instrSrai || d.instrSra then op1.sshiftRight n
  else op1

/-- The state `shift`: four bits or one bit at a time. -/
def shiftState (w : Work) : Work :=
  let m := s.main
  let w := { w with main := { w.main with latchedStore := true } }
  if m.regSh == 0 then
    { w with
      main :=
        { w.main with regOut := m.regOp1, memDoRinst := m.memDoPrefetch, cpuState := .fetch } }
  else if p.twoStageShift && (4#5).ule m.regSh then
    { w with main := { w.main with regOp1 := shifted s 4, regSh := m.regSh - 4 } }
  else { w with main := { w.main with regOp1 := shifted s 1, regSh := m.regSh - 1 } }

/-- Back to `fetch` after a load or a store; the next instruction is decoded already. -/
def memoryDone (w : Work) : Work :=
  if !s.main.memDoPrefetch && memDone s i then
    { w with
      main :=
        { w.main with cpuState := .fetch, decoderTrigger := true, decoderPseudoTrigger := true } }
  else w

/-- The state `stmem`: a store. -/
def stmemState (w : Work) : Work :=
  let m := s.main
  let d := s.second
  let w := if p.enableTrace then { w with main := { w.main with regOut := m.regOp2 } } else w
  if !m.memDoPrefetch || memDone s i then
    let w :=
      if !m.memDoWdata then
        { w with
          main :=
            { w.main with
              memWordsize :=
                if d.instrSb then 2 else if d.instrSh then 1 else if d.instrSw then 0
                else w.main.memWordsize
              regOp1 := m.regOp1 + d.decodedImm }
          setMemDoWdata := true }
      else w
    memoryDone s i w
  else w

/-- The state `ldmem`: a load. -/
def ldmemState (w : Work) : Work :=
  let m := s.main
  let d := s.second
  let w := { w with main := { w.main with latchedStore := true } }
  if !m.memDoPrefetch || memDone s i then
    let w :=
      if !m.memDoRdata then
        { w with
          main :=
            { w.main with
              memWordsize :=
                if d.instrLb || d.instrLbu then 2 else if d.instrLh || d.instrLhu then 1
                else if d.instrLw then 0 else w.main.memWordsize
              latchedIsLu := s.classes.isLbuLhuLw
              latchedIsLh := d.instrLh
              latchedIsLb := d.instrLb
              regOp1 := m.regOp1 + d.decodedImm }
          setMemDoRdata := true }
      else w
    let word := memRdataWord s i
    let w :=
      if !m.memDoPrefetch && memDone s i then
        { w with
          main :=
            { w.main with
              regOut :=
                if m.latchedIsLu then word
                else if m.latchedIsLh then (word.extractLsb' 0 16).signExtend 32
                else if m.latchedIsLb then (word.extractLsb' 0 8).signExtend 32
                else w.main.regOut } }
      else w
    memoryDone s i w
  else w

/-- The case distinction on `cpu_state`. -/
def cpuStateCase (w : Work) : Work :=
  match s.main.cpuState with
  | .trap => { w with main := { w.main with trap := true } }
  | .fetch => fetchState p s w
  | .ldRs1 => ldRs1State p s i w
  | .ldRs2 => ldRs2State p s i w
  | .exec => execState p s i w
  | .shift => shiftState p s w
  | .stmem => stmemState p s i w
  | .ldmem => ldmemState s i w

/-- The timer and the interrupt lines. -/
def irqInputs (w : Work) : Work :=
  if p.enableIrq then
    let pending := w.nextIrqPending ||| i.irq
    { w with
      nextIrqPending :=
        if p.enableIrqTimer && s.main.irq.timer == 1 then pending ||| 1#32 <<< irqTimer
        else pending }
  else w

/-- Misaligned accesses and jumps; `ecall` and `ebreak` without `CATCH_ILLINSN`. `stray` tells
    whether `reg_pc` is misaligned, which depends on `COMPRESSED_ISA`. -/
def checksWith (stray : Bool) (w : Work) : Work :=
  let m := s.main
  let data := p.catchMisalign && i.resetn && (m.memDoRdata || m.memDoWdata)
  let w :=
    if data && m.memWordsize == 0 && m.regOp1.extractLsb' 0 2 != 0 then
      trapOrIrq p s irqBuserror w.main.cpuState w
    else w
  let w :=
    if data && m.memWordsize == 1 && m.regOp1.getLsbD 0 then
      trapOrIrq p s irqBuserror w.main.cpuState w
    else w
  let w :=
    if p.catchMisalign && i.resetn && m.memDoRinst && stray then
      trapOrIrq p s irqBuserror w.main.cpuState w
    else w
  if !p.catchIllinsn && m.decoderTriggerQ && !m.decoderPseudoTriggerQ
      && s.second.instrEcallEbreak then
    { w with main := { w.main with cpuState := .trap } }
  else w

/-- Instructions are aligned to words. -/
def checks (w : Work) : Work := checksWith p s i (s.main.regPc.extractLsb' 0 2 != 0) w

/-- The requests and the bits `low` of the program counter, assigned last. -/
def finishWith (low : BitVec 32) (w : Work) : Main :=
  let m := w.main
  let clear := !i.resetn || memDone s i
  let align (pc : BitVec 32) := if p.catchMisalign then pc else pc &&& ~~~low
  { m with
    memDoPrefetch := if clear then false else m.memDoPrefetch
    memDoRinst := if w.setMemDoRinst then true else if clear then false else m.memDoRinst
    memDoRdata := if w.setMemDoRdata then true else if clear then false else m.memDoRdata
    memDoWdata := if w.setMemDoWdata then true else if clear then false else m.memDoWdata
    irq := { m.irq with irqPending := w.nextIrqPending &&& ~~~p.maskedIrq }
    regPc := align m.regPc
    regNextPc := align m.regNextPc }

/-- The two low bits of the program counter are clear. -/
def finish (w : Work) : Main := finishWith p s i 3 w

/-- The main state machine after a clock edge. -/
def mainStep : Main :=
  let w := defaults p s i
  let w := if !i.resetn then resetState p w else cpuStateCase p s i w
  finish p s i (checks p s i (irqInputs p s i w))

/-! ## The clock edge -/

/-- The clock edge of the core. -/
def step (p : Params) (i : Inputs) (s : State) : State where
  mem := memStep s i
  first := firstStep p s i
  second := secondStep p s i
  classes := classesStep s i
  alu := aluStep p s
  main := mainStep p s i
  cpuregs := cpuregsStep p s i

end PicoSoc.Picorv32
