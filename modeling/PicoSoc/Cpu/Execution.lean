import PicoSoc.Cpu.Operands

set_option autoImplicit false

/-! # ALU and shifter

The result is there after the waits of the ALU, or when the shifter has no places left. It is written
in the state `fetch`, so the next hart is reached with the write pending. -/

namespace PicoSoc.Picorv32

open Rv32i (Instr AluOp Cond LoadOp StoreOp Hart)

variable {p : Params} {h : Hart} {s : Machine} {i : Inputs} {instr : Instr}

/-! ## Exec -/

/-- A cycle of waiting for the ALU. -/
theorem exec_waits {w : Work} (hcpu : s.core.main.cpuState = .exec)
    (hwait : ((p.twoCycleAlu || p.twoCycleCompare)
      && (s.core.main.aluWait || s.core.main.aluWait2)) = true) :
    cpuStateCase p s.core i w = { w with main := { w.main with
      regOut := s.core.main.regPc + s.core.second.decodedImm
      memDoRinst := s.core.main.memDoPrefetch && !s.core.main.aluWait2
      aluWait := s.core.main.aluWait2 } } := by
  rw [cpuStateCase, hcpu]
  dsimp only
  rw [execState, if_pos hwait]

theorem aluNow_edge (h₁ : (s.step p i).core.main.regOp1 = s.core.main.regOp1)
    (h₂ : (s.step p i).core.main.regOp2 = s.core.main.regOp2)
    (h₃ : (s.step p i).core.second = s.core.second) :
    aluNow p (s.step p i).core = aluWires (s.step p i).core := by
  have hwires : aluWires (s.step p i).core = aluWires s.core := by
    simp only [aluWires, h₁, h₂, h₃]
  have hnext : (s.step p i).core.alu = aluStep p s.core := rfl
  rw [aluNow, hnext, aluStep]
  split
  · exact hwires.symm
  · rfl

theorem Exec.wait (hp : Plain p) (hr : i.resetn = true)
    (henc : Encodes (h.mem.word h.pc) instr) {b wait2 : Bool} {x y : BitVec 32}
    (h₀ : Exec p h b x y true wait2 s) :
    Exec p h b x y wait2 false (s.step p i) ∧ s.transfers i = [] := by
  have hasks : Asks s.core.main b false false false := by
    have ha := h₀.asks
    rwa [Bool.not_true, Bool.and_false] at ha
  obtain ⟨hahead, hdone⟩ := h₀.ahead.hold (p := p) hr h₀.trap hasks
  obtain ⟨hmem, htransfers⟩ := h₀.ahead.step_mem (p := p) (i := i)
  refine ⟨?_, htransfers⟩
  -- with `TWO_CYCLE_ALU` or `TWO_CYCLE_COMPARE` the core waits in `exec`
  have hcond : ((p.twoCycleAlu || p.twoCycleCompare)
      && (s.core.main.aluWait || s.core.main.aluWait2)) = true := by
    rw [h₀.waits rfl, h₀.aluWait, Bool.true_or]
    rfl
  have hmain := main_edge hp hr (not_faulty hasks fun _ => h₀.regPc ▸ h₀.aligned)
  rw [exec_waits h₀.cpuState hcond] at hmain
  have hne : s.core.main.cpuState ≠ .fetch := by
    rw [h₀.cpuState]
    decide
  obtain ⟨hfirst, hsecond, hregs, hclasses⟩ := rest_edge (p := p) hr h₀.decoderTrigger hne hdone
  have hflight : Flight p h (s.step p i) :=
    h₀.toFlight.edge hr hne hdone hmem hmain ⟨rfl, rfl, rfl, rfl, rfl, rfl, rfl⟩ (.inl rfl)
  have hop1 : (s.step p i).core.main.regOp1 = s.core.main.regOp1 := by
    rw [hmain]
    rfl
  have hop2 : (s.step p i).core.main.regOp2 = s.core.main.regOp2 := by
    rw [hmain]
    rfl
  have halu := aluNow_edge hop1 hop2 hsecond
  rw [hdone] at hmain
  refine { hflight with
    cpuState := ?_, asks := ?_, ahead := hahead, regOp1 := hop1.trans h₀.regOp1
    regOp2 := hop2.trans h₀.regOp2, aluWait := ?_, aluWait2 := ?_, waits := fun _ => h₀.waits rfl
    waits2 := fun hc => absurd hc (by decide), classes := ?_, alu := fun _ _ => halu
    compare := ?_ }
  · rw [hmain]
    exact h₀.cpuState
  · rw [hmain]
    refine Asks.finished ⟨hasks.prefetch, ?_, hasks.rdata, hasks.wdata⟩ rfl rfl rfl
    show (s.core.main.memDoPrefetch && !s.core.main.aluWait2) = _
    rw [hasks.prefetch, h₀.aluWait2]
  · rw [hmain]
    exact h₀.aluWait2
  · rw [hmain]
    rfl
  · rw [hfirst, hsecond]
    exact hclasses
  · intro hlast hslow j
    rw [hfirst] at hslow
    have hbranch : (decodeFirst p (h.mem.word h.pc)).isBeqBneBltBgeBltuBgeu = true := by
      rw [← h₀.first]
      exact (Bool.and_eq_true_iff.1 hslow).2
    obtain ⟨c, rs1, rs2, imm, rfl⟩ := branch_of_encodes henc hbranch
    obtain ⟨u, hu⟩ := h₀.second
    -- the comparison of this cycle is that of the next one
    rw [aluOut0_of_encodes henc (hfirst.trans h₀.first) (hsecond.trans hu)
      (by rw [hfirst, hsecond]; exact hclasses) halu, hop1, hop2]
    have hnow : (s.step p i).core.main.aluOut0Q = aluOut0 p s.core (s.inputs i) := by
      rw [hmain]
      rfl
    rw [hnow, aluOut0_of_encodes henc h₀.first hu h₀.classes (h₀.alu hlast fun _ => hslow)]

/-! ## The end of an instruction -/

theorem cpuregs_keep (hcpu : s.core.main.cpuState ≠ .fetch) :
    (s.step p i).core.cpuregs = s.core.cpuregs := by
  show cpuregsStep p s.core (s.inputs i) = _
  rw [cpuregsStep, cpuregsWrite, if_neg hcpu]

/-- The next word is wanted: it has come with this edge, or it is on its way. -/
theorem Between.of_fetching (hp : Plain p) (hr : i.resetn = true) {h' : Hart} {l : List Event}
    (h₀ : Flight p h s) {b c : Bool} (ha : Asks s.core.main b true false false)
    (hfetch : Fetching (h.pc + 4) s) (hpc : h'.pc = h.pc + 4) (hmem : h'.mem = h.mem)
    (hbound : Boundary p h' l (s.step p i)) {v : Work}
    (hmain : (s.step p i).core.main = v.finished p (memDone s.core (s.inputs i)))
    (hv : Asks v.main c true false false) (hinst : v.setMemDoRinst = false)
    (hdata : v.setMemDoRdata = false) (hwrite : v.setMemDoWdata = false)
    (htrigger : v.main.decoderTrigger = (s.core.main.memDoRinst && memDone s.core (s.inputs i)))
    (hpseudo : v.main.decoderPseudoTrigger = false) (hregPc : v.main.regPc = s.core.main.regPc) :
    Between p h' l (s.step p i) := by
  have haligned : Rv32i.Aligned 4 h'.pc := hpc ▸ aligned_add_four h₀.aligned
  have hregPc' : Rv32i.Aligned 4 (s.step p i).core.main.regPc := by
    rw [hmain]
    show Rv32i.Aligned 4 v.main.regPc
    rw [hregPc, h₀.regPc]
    exact h₀.aligned
  rw [← hpc] at hfetch
  cases hdone : memDone s.core (s.inputs i) with
  | true =>
      rw [hdone] at hmain htrigger
      refine .launch (.of_done hp hr h₀.trap ha hfetch haligned (hmem ▸ h₀.mem) hdone hbound ?_ ?_ ?_)
      · rw [hmain]
        exact htrigger.trans (by rw [ha.rinst]; rfl)
      · rw [hmain]
        exact hpseudo
      · have hasks := asks_finished (p := p) v
        rw [hinst, hdata, hwrite] at hasks
        rw [hmain]
        exact hasks
  | false =>
      rw [hdone] at hmain htrigger
      refine .coming { hbound with
        decoderTrigger := ?_, asks := ⟨c, ?_⟩, fetching := ?_, aligned := haligned, regPc := hregPc' }
      · rw [hmain]
        exact htrigger.trans (Bool.and_false _)
      · rw [hmain]
        exact hv.finished hinst hdata hwrite
      · rcases hfetch.take (p := p) hr h₀.trap hp.latchedMemRdata ha with ⟨-, -, hnext, -⟩ | ⟨htrue, -⟩
        · exact .inl hnext
        · rw [hdone] at htrue
          exact absurd htrue (by decide)

/-- What the ALU and shift instructions do, by their result. -/
theorem after_of_result {w : BitVec 32} (henc : Encodes w instr)
    (hinstr : aluOp instr ≠ none) :
    let jalr := (controlOf instr).jalr
    let v := if jalr then h.pc + 4 else aluResult h instr
    let t := if jalr then aluResult h instr &&& ~~~1 else h.pc + 4
    after h instr = { h.write (fieldRd w) v with pc := t }
      ∧ regEvents h instr = regWrite (fieldRd w) v ∧ (controlOf instr).branch = false := by
  have hshift : ∀ {op rd rs1 imm}, instr = .opImm op rd rs1 imm →
      (controlOf instr).jalr = false ∧ (controlOf instr).branch = false := by
    rintro op rd rs1 imm rfl
    cases op <;> exact ⟨rfl, rfl⟩
  cases henc with
  | opImm hop op hsub h3 h7 =>
      obtain ⟨hjalr, hbranch⟩ := hshift rfl
      dsimp only
      rw [hjalr]
      exact ⟨rfl, rfl, hbranch⟩
  | jal | branch | load | store => exact absurd rfl hinstr
  | _ => exact ⟨rfl, rfl, rfl⟩

/-- The last cycle of an instruction in the ALU. -/
theorem exec_alu {s : State} {i : Inputs} {w : Work} (hcpu : s.main.cpuState = .exec)
    (hwait : s.main.aluWait = false) (hwait2 : s.main.aluWait2 = false)
    (hbranch : s.first.isBeqBneBltBgeBltuBgeu = false) :
    cpuStateCase p s i w = { w with main := { w.main with
      regOut := s.main.regPc + s.second.decodedImm
      latchedBranch := s.first.instrJalr
      latchedStore := true
      latchedStalu := true
      cpuState := .fetch } } := by
  rw [cpuStateCase, hcpu]
  dsimp only
  rw [execState, hwait, hwait2, hbranch, Bool.or_false, Bool.and_false, if_neg (by decide),
    if_neg (by decide)]

/-- The ALU has the result. -/
theorem Exec.finish (hp : Plain p) (hr : i.resetn = true) (henc : Encodes (h.mem.word h.pc) instr)
    {op : AluOp} {x y : BitVec 32} (hop : aluOp instr = some op)
    (hvalue : op.eval x y = aluResult h instr)
    (hbarrel : isShift op = true → p.barrelShifter = true)
    (h₀ : Exec p h (!(controlOf instr).jalr) x y false false s) :
    Between p (after h instr) (regEvents h instr) (s.step p i) ∧ s.transfers i = [] := by
  obtain ⟨hafter, hevents, hbranch⟩ :=
    after_of_result (h := h) henc fun hc => by rw [hc] at hop; cases hop
  obtain ⟨u, hu⟩ := h₀.second
  have hcontrol : control s.core.first s.core.second = controlOf instr := by
    rw [h₀.first, hu]
    exact control_of_encodes henc u
  have hbr : s.core.first.isBeqBneBltBgeBltuBgeu = false :=
    (congrArg Control.branch hcontrol).trans hbranch
  have hjalr : s.core.first.instrJalr = (controlOf instr).jalr := congrArg Control.jalr hcontrol
  have hne : s.core.main.cpuState ≠ .fetch := by
    rw [h₀.cpuState]
    decide
  have hout : aluOut p s.core (s.inputs i) = aluResult h instr := by
    rw [aluOut_of_encodes henc h₀.first hu h₀.classes
      (h₀.alu rfl fun hc => absurd hc (by decide)) hop hbarrel, h₀.regOp1, h₀.regOp2, hvalue]
  have hmain := main_edge hp hr (not_faulty h₀.asks fun _ => h₀.regPc ▸ h₀.aligned)
  rw [exec_alu h₀.cpuState h₀.aluWait h₀.aluWait2 hbr, hjalr] at hmain
  -- `jalr` writes the return address, everything else the result of the ALU
  have hwrite : cpuregsWrite p (s.step p i).core =
      some (if (controlOf instr).jalr then h.pc + 4 else aluResult h instr) := by
    rw [cpuregsWrite, hmain]
    show (if (controlOf instr).jalr = true then
        some (s.core.main.regPc + if s.core.main.latchedCompr = true then 2 else 4)
      else some (aluOut p s.core (s.inputs i))) = _
    rw [h₀.latchedCompr, h₀.regPc, hout]
    cases (controlOf instr).jalr <;> rfl
  have hrd : (s.step p i).core.main.latchedRd = (fieldRd (h.mem.word h.pc)).setWidth 6 := by
    rw [hmain]
    exact h₀.latchedRd (by rw [← h₀.first]; exact hbr)
  have hregs : Agrees h.x (s.step p i).core.cpuregs := by
    rw [cpuregs_keep hne]
    exact h₀.cpuregs
  obtain ⟨hregs', hshows⟩ := written_some hregs hwrite hrd
  obtain ⟨hmem, htransfers⟩ := h₀.ahead.step_mem (p := p) (i := i)
  have hbound : Boundary p (after h instr) (regEvents h instr) (s.step p i) := by
    rw [hafter, hevents]
    refine ⟨?_, ?_, ?_, ?_, hregs', hshows, hmem.trans h₀.mem⟩
    · rw [hmain]
      rfl
    · rw [hmain]
      rfl
    · rw [hmain]
      rfl
    · rw [branchPc, hmain]
      show (if (controlOf instr).jalr = true then aluOut p s.core (s.inputs i) &&& ~~~1#32
        else s.core.main.regNextPc) = _
      rw [hout, h₀.regNextPc]
      split_ifs <;> rfl
  refine ⟨?_, htransfers⟩
  -- but for `jalr` the next instruction is on its way, `jalr` has asked for none
  cases hj : (controlOf instr).jalr with
  | false =>
      have ha := h₀.asks
      have hahead := h₀.ahead
      rw [hj] at ha hahead
      refine .of_fetching hp hr h₀.toFlight ha hahead ?_ ?_ hbound hmain (c := true) ?_ rfl rfl rfl rfl rfl
        rfl
      · rw [hafter, hj]
        rfl
      · rw [hafter]
        rfl
      · exact ⟨ha.prefetch, ha.rinst, ha.rdata, ha.wdata⟩
  | true =>
      have ha := h₀.asks
      have hfree : Free s.core := by
        have hahead := h₀.ahead
        rwa [hj] at hahead
      rw [hj] at ha
      have hdone := hfree.done (s.inputs i)
      rw [hdone] at hmain
      refine .unasked { hbound with
        decoderTrigger := ?_, asks := ?_, free := hfree.hold hr h₀.trap ha }
      · rw [hmain]
        show (s.core.main.memDoRinst && memDone s.core (s.inputs i)) = false
        rw [hdone, Bool.and_false]
      · rw [hmain]
        exact Asks.finished ⟨ha.prefetch, ha.rinst, ha.rdata, ha.wdata⟩ rfl rfl rfl

/-! ## Branches -/

theorem immB_even (w : BitVec 32) : (immB w).toNat % 2 = 0 := by
  have hbit : (immB w).getLsbD 0 = false := by
    rw [immB, BitVec.getLsbD_signExtend, if_pos (by decide), BitVec.getLsbD_append]
    rfl
  rw [← BitVec.testBit_toNat, Nat.testBit_zero] at hbit
  simpa using hbit

theorem clear_of_even {a : BitVec 32} (ha : a.toNat % 2 = 0) : a &&& ~~~1#32 = a := by
  have hbit : a.getLsbD 0 = false := by
    rw [← BitVec.testBit_toNat, Nat.testBit_zero]
    simp [ha]
  apply BitVec.eq_of_getLsbD_eq
  intro k hk
  rw [BitVec.getLsbD_and, BitVec.getLsbD_not, BitVec.getLsbD_one]
  cases k with
  | zero => rw [hbit, Bool.false_and]
  | succ k => simp [hk]

/-- The cycles in which a branch knows its comparison. -/
theorem exec_branch {s : State} {i : Inputs} {w : Work} (hcpu : s.main.cpuState = .exec)
    (hwait : s.main.aluWait = false) (hwait2 : s.main.aluWait2 = false)
    (hbranch : s.first.isBeqBneBltBgeBltuBgeu = true) {taken : Bool}
    (htaken : (if p.twoCycleCompare then s.main.aluOut0Q else aluOut0 p s i) = taken) :
    cpuStateCase p s i w = { w with
      main := { w.main with
        regOut := s.main.regPc + s.second.decodedImm
        latchedRd := 0
        latchedStore := taken
        latchedBranch := taken
        cpuState := if memDone s i then .fetch else w.main.cpuState
        decoderTrigger := if taken then false else w.main.decoderTrigger }
      setMemDoRinst := taken } := by
  rw [cpuStateCase, hcpu]
  dsimp only
  rw [execState, hwait, hwait2, hbranch, htaken, Bool.or_false, Bool.and_false, if_neg (by decide),
    if_pos rfl]

section

variable {c : Cond} {rs1 rs2 : BitVec 5} {imm : BitVec 32}

theorem Exec.taken (henc : Encodes (h.mem.word h.pc) (.branch c rs1 rs2 imm)) {x y : BitVec 32}
    (h₀ : Exec p h true x y false false s) (j : Inputs) :
    s.core.first.isBeqBneBltBgeBltuBgeu = true ∧ aluOut0 p s.core j = c.holds x y
      ∧ (if p.twoCycleCompare then s.core.main.aluOut0Q else aluOut0 p s.core j) = c.holds x y := by
  obtain ⟨u, hu⟩ := h₀.second
  have hbranch : s.core.first.isBeqBneBltBgeBltuBgeu = true := by
    rw [h₀.first]
    exact congrArg Control.branch (control_of_encodes (p := p) henc u)
  have hout : aluOut0 p s.core j = c.holds x y := by
    rw [aluOut0_of_encodes henc h₀.first hu h₀.classes
      (h₀.alu rfl fun hc => absurd hc (by decide)), h₀.regOp1, h₀.regOp2]
  refine ⟨hbranch, hout, ?_⟩
  cases htwo : p.twoCycleCompare with
  | false => exact hout
  | true =>
      rw [if_pos rfl, h₀.compare rfl (by rw [slowCompare, htwo, hbranch]; rfl) j]
      exact hout

/-- A branch waits for the next instruction, whether it wants it or not. -/
theorem Exec.hold (hp : Plain p) (hr : i.resetn = true)
    (henc : Encodes (h.mem.word h.pc) (.branch c rs1 rs2 imm)) {x y : BitVec 32}
    (h₀ : Exec p h true x y false false s) (hdone : memDone s.core (s.inputs i) = false) :
    Exec p h true x y false false (s.step p i) := by
  obtain ⟨hbranch, hout, htaken⟩ := h₀.taken henc (s.inputs i)
  obtain ⟨hmem, htransfers⟩ := h₀.ahead.step_mem (p := p) (i := i)
  have hne : s.core.main.cpuState ≠ .fetch := by
    rw [h₀.cpuState]
    decide
  have hmain := main_edge hp hr (not_faulty h₀.asks fun _ => h₀.regPc ▸ h₀.aligned)
  rw [exec_branch h₀.cpuState h₀.aluWait h₀.aluWait2 hbranch htaken] at hmain
  obtain ⟨hfirst, hsecond, hregs, hclasses⟩ := rest_edge (p := p) hr h₀.decoderTrigger hne hdone
  have hflight : Flight p h (s.step p i) := by
    refine h₀.toFlight.edge hr hne hdone hmem hmain ⟨rfl, rfl, ?_, rfl, rfl, rfl, rfl⟩
      (.inr (by rw [← h₀.first]; exact hbranch))
    show (if c.holds x y = true then false else s.core.main.memDoRinst && _) = (_ && _)
    rw [hdone, Bool.and_false, ite_self]
  have hop1 : (s.step p i).core.main.regOp1 = s.core.main.regOp1 := by
    rw [hmain]
    rfl
  have hop2 : (s.step p i).core.main.regOp2 = s.core.main.regOp2 := by
    rw [hmain]
    rfl
  have halu := aluNow_edge hop1 hop2 hsecond
  rw [hdone] at hmain
  refine { hflight with
    cpuState := ?_, asks := ?_, ahead := ?_, regOp1 := hop1.trans h₀.regOp1
    regOp2 := hop2.trans h₀.regOp2, aluWait := ?_, aluWait2 := ?_
    waits := fun hc => absurd hc (by decide), waits2 := fun hc => absurd hc (by decide), classes := ?_
    alu := fun _ _ => halu, compare := ?_ }
  · rw [hmain]
    exact h₀.cpuState
  · rw [hmain]
    refine ⟨?_, ?_, ?_, ?_⟩
    · show (s.core.main.memDoPrefetch && !false) = true
      rw [h₀.asks.prefetch]
      rfl
    · -- the fetch goes on, and a taken branch asks for it again
      show (c.holds x y || (s.core.main.memDoRinst && !false)) = true
      rw [h₀.asks.rinst]
      exact Bool.or_true _
    · show (false || (s.core.main.memDoRdata && !false)) = false
      rw [h₀.asks.rdata]
      rfl
    · show (false || (s.core.main.memDoWdata && !false)) = false
      rw [h₀.asks.wdata]
      rfl
  · have hahead : Fetching (h.pc + 4) s := h₀.ahead
    rcases hahead.take (p := p) hr h₀.trap hp.latchedMemRdata h₀.asks with ⟨-, -, hnext, -⟩ | ⟨htrue, -⟩
    · exact .inl hnext
    · rw [hdone] at htrue
      exact absurd htrue (by decide)
  · rw [hmain]
    rfl
  · rw [hmain]
    rfl
  · rw [hfirst, hsecond]
    exact hclasses
  · intro _ _ j
    obtain ⟨u, hu⟩ := h₀.second
    rw [aluOut0_of_encodes henc (hfirst.trans h₀.first) (hsecond.trans hu)
      (by rw [hfirst, hsecond]; exact hclasses) halu, hop1, hop2, h₀.regOp1, h₀.regOp2, ← hout, hmain]
    rfl

/-- The fetch is over: on to the next instruction, or to the target. -/
theorem Exec.branch (hp : Plain p) (hr : i.resetn = true)
    (henc : Encodes (h.mem.word h.pc) (.branch c rs1 rs2 imm))
    (h₀ : Exec p h true (h.x.read rs1) (h.x.read rs2) false false s)
    (hdone : memDone s.core (s.inputs i) = true) :
    Between p (after h (.branch c rs1 rs2 imm)) [] (s.step p i) := by
  obtain ⟨hbranch, hout, htaken⟩ := h₀.taken henc (s.inputs i)
  obtain ⟨hmem, htransfers⟩ := h₀.ahead.step_mem (p := p) (i := i)
  have hahead : Fetching (h.pc + 4) s := h₀.ahead
  have hne : s.core.main.cpuState ≠ .fetch := by
    rw [h₀.cpuState]
    decide
  have hmain := main_edge hp hr (not_faulty h₀.asks fun _ => h₀.regPc ▸ h₀.aligned)
  rw [exec_branch h₀.cpuState h₀.aluWait h₀.aluWait2 hbranch htaken] at hmain
  have hregs : Agrees h.x (s.step p i).core.cpuregs := by
    rw [cpuregs_keep hne]
    exact h₀.cpuregs
  have hrd : (s.step p i).core.main.latchedRd = 0 := by
    rw [hmain]
    rfl
  have hcpu : (s.step p i).core.main.cpuState = .fetch := by
    rw [hmain]
    show (if memDone s.core (s.inputs i) = true then CpuState.fetch else _) = _
    rw [if_pos hdone]
  obtain ⟨hregs', hshows⟩ := written_none (p := p) hregs (.inl hrd)
  obtain ⟨u, hu⟩ := h₀.second
  have himm : s.core.second.decodedImm = imm := by
    rw [hu]
    exact decodedImm_of_encodes henc u rfl
  -- the target is even, so the mask of `next_pc` leaves it as it is
  have htarget : (h.pc + imm) &&& ~~~1#32 = h.pc + imm := by
    have hpc : h.pc.toNat % 4 = 0 := h₀.aligned
    have heven : imm.toNat % 2 = 0 := by
      cases henc
      exact immB_even _
    refine clear_of_even ?_
    rw [BitVec.toNat_add]
    omega
  rw [himm, h₀.regPc] at hmain
  have hbound : ∀ h' : Hart, branchPc (s.step p i).core = h'.pc → h'.x = h.x → h'.mem = h.mem →
      Boundary p h' [] (s.step p i) := by
    intro h' hpc hx hm
    refine ⟨?_, ?_, hcpu, hpc, hx ▸ hregs', hshows, hmem.trans (h₀.mem.trans hm.symm)⟩
    · rw [hmain]
      rfl
    · rw [hmain]
      rfl
  -- not taken, the word that has come is the next instruction; taken, it is dropped
  cases hc : c.holds (h.x.read rs1) (h.x.read rs2) with
  | false =>
      rw [hc] at hmain
      have hafter : after h (.branch c rs1 rs2 imm) = h.next := by
        rw [after, hc, if_neg (by decide)]
      rw [hafter]
      refine .of_fetching hp hr h₀.toFlight h₀.asks hahead rfl rfl (hbound _ ?_ rfl rfl) hmain (c := true)
        ⟨h₀.asks.prefetch, h₀.asks.rinst, h₀.asks.rdata, h₀.asks.wdata⟩ rfl rfl rfl rfl rfl rfl
      rw [branchPc, hmain]
      exact h₀.regNextPc
  | true =>
      rw [hc] at hmain
      have hafter : after h (.branch c rs1 rs2 imm) = { h with pc := h.pc + imm } := by
        rw [after, hc, if_pos rfl]
      rw [hafter]
      rcases hahead.take (p := p) hr h₀.trap hp.latchedMemRdata h₀.asks with
        ⟨-, -, -, hfalse⟩ | ⟨-, hfree, -, -⟩
      · rw [hdone] at hfalse
        exact absurd hfalse (by decide)
      refine .asked { hbound { h with pc := h.pc + imm } ?_ rfl rfl with
        decoderTrigger := ?_, asks := ?_, free := hfree, nextPc := ?_, regPc := ?_ }
      · rw [branchPc, hmain]
        show (if s.core.main.latchedStalu then _ else h.pc + imm) &&& ~~~1#32 = _
        rw [h₀.latchedStalu]
        exact htarget
      · rw [hmain]
        rfl
      · rw [hmain, hdone]
        exact asks_finished _
      · rw [nextPc, hmain]
        exact htarget
      · rw [hmain]
        show Rv32i.Aligned 4 s.core.main.regPc
        rw [h₀.regPc]
        exact h₀.aligned

end

/-! ## Shifts -/

/-- A shift by one place or four. -/
theorem shift_moves {s : State} {i : Inputs} {w : Work} (hcpu : s.main.cpuState = .shift)
    (hn : s.main.regSh ≠ 0) : ∃ k : BitVec 5, 0 < k.toNat ∧ k.toNat ≤ s.main.regSh.toNat ∧
      cpuStateCase p s i w = { w with main := { w.main with
        latchedStore := true
        regOp1 := shifted s k.toNat
        regSh := s.main.regSh - k } } := by
  have hzero : ¬(s.main.regSh == 0) = true := by
    rw [beq_iff_eq]
    exact hn
  rw [cpuStateCase, hcpu]
  dsimp only
  rw [shiftState, if_neg hzero]
  by_cases hfour : (p.twoStageShift && (4#5).ule s.main.regSh) = true
  · refine ⟨4, by decide, ?_, by rw [if_pos hfour]; rfl⟩
    have hle := (Bool.and_eq_true_iff.1 hfour).2
    rw [BitVec.ule_eq_decide] at hle
    exact of_decide_eq_true hle
  · refine ⟨1, by decide, ?_, by rw [if_neg hfour]; rfl⟩
    have hne : s.main.regSh.toNat ≠ 0 := fun h => hn (BitVec.eq_of_toNat_eq h)
    show 1 ≤ _
    omega

theorem Shift.next (hp : Plain p) (hr : i.resetn = true) (henc : Encodes (h.mem.word h.pc) instr)
    {op : AluOp} (hop : shiftOp instr = some op) {x : BitVec 32} {n : BitVec 5} (hn : n ≠ 0)
    (h₀ : Shift p h x n s) :
    (∃ (y : BitVec 32) (m : BitVec 5), m.toNat < n.toNat
      ∧ shiftBy y m.toNat op = shiftBy x n.toNat op ∧ Shift p h y m (s.step p i))
      ∧ s.transfers i = [] := by
  obtain ⟨hfetching, hdone⟩ := h₀.fetching.hold (p := p) hr h₀.trap h₀.asks
  have hne : s.core.main.cpuState ≠ .fetch := by
    rw [h₀.cpuState]
    decide
  obtain ⟨u, hu⟩ := h₀.second
  obtain ⟨k, hk, hkn, hcase⟩ := shift_moves (p := p) (i := s.inputs i)
    (w := defaults p s.core (s.inputs i)) h₀.cpuState (h₀.regSh ▸ hn)
  have hmain := main_edge hp hr (not_faulty h₀.asks fun hc => absurd hc (by decide))
  rw [hcase, hdone, shifted_of_encodes henc hu hop, h₀.regOp1, h₀.regSh] at hmain
  rw [h₀.regSh] at hkn
  have hsub : (n - k).toNat = n.toNat - k.toNat := BitVec.toNat_sub_of_le hkn
  refine ⟨⟨shiftBy x k.toNat op, n - k, by omega, ?_, ?_⟩, h₀.fetching.transfers⟩
  · rw [shiftBy_add, hsub, Nat.add_sub_cancel' hkn]
  have hflight : Flight p h (s.step p i) :=
    h₀.toFlight.edge hr hne hdone h₀.fetching.step_mem (hdone ▸ hmain)
      ⟨rfl, rfl, rfl, rfl, rfl, rfl, rfl⟩ (.inl rfl)
  refine { hflight with
    cpuState := ?_, asks := ?_, fetching := hfetching, regOp1 := ?_, regSh := ?_
    latchedBranch := ?_ }
  · rw [hmain]
    exact h₀.cpuState
  · rw [hmain]
    exact Asks.finished ⟨h₀.asks.prefetch, h₀.asks.rinst, h₀.asks.rdata, h₀.asks.wdata⟩ rfl rfl rfl
  · rw [hmain]
    rfl
  · rw [hmain]
    rfl
  · rw [hmain]
    exact h₀.latchedBranch

/-- The shifter has the result. -/
theorem Shift.finish (hp : Plain p) (hr : i.resetn = true) (henc : Encodes (h.mem.word h.pc) instr)
    {op : AluOp} (hop : shiftOp instr = some op) {x : BitVec 32} (hvalue : x = aluResult h instr)
    (h₀ : Shift p h x 0 s) :
    Between p (after h instr) (regEvents h instr) (s.step p i) ∧ s.transfers i = [] := by
  obtain ⟨hfetching, hdone⟩ := h₀.fetching.hold (p := p) hr h₀.trap h₀.asks
  have hne : s.core.main.cpuState ≠ .fetch := by
    rw [h₀.cpuState]
    decide
  have hjalr : (controlOf instr).jalr = false ∧ aluOp instr ≠ none := by
    cases instr with
    | opImm op rd rs1 imm => cases op <;> exact ⟨rfl, Option.some_ne_none _⟩
    | opReg op rd rs1 rs2 => exact ⟨rfl, Option.some_ne_none _⟩
    | _ => cases hop
  obtain ⟨hafter, hevents, hbranch⟩ := after_of_result (h := h) henc hjalr.2
  rw [hjalr.1] at hafter hevents
  have hzero : (s.core.main.regSh == 0) = true := by
    rw [h₀.regSh]
    rfl
  have hmain := main_edge hp hr (not_faulty h₀.asks fun hc => absurd hc (by decide))
  rw [cpuStateCase, h₀.cpuState, hdone] at hmain
  dsimp only at hmain
  rw [shiftState, if_pos hzero, h₀.regOp1, h₀.asks.prefetch] at hmain
  -- the shifted operand is written back in the fetch cycle
  have hwrite : cpuregsWrite p (s.step p i).core = some (aluResult h instr) := by
    rw [cpuregsWrite, hmain]
    show (if s.core.main.latchedBranch = true then _ else
      some (if s.core.main.latchedStalu = true then _ else x)) = _
    rw [h₀.latchedBranch, h₀.latchedStalu, hvalue]
    rfl
  have hrd : (s.step p i).core.main.latchedRd = (fieldRd (h.mem.word h.pc)).setWidth 6 := by
    rw [hmain]
    exact h₀.latchedRd ((congrArg Control.branch
      (control_of_encodes (p := p) henc (s.inputs i).undef)).trans hbranch)
  have hregs : Agrees h.x (s.step p i).core.cpuregs := by
    rw [cpuregs_keep hne]
    exact h₀.cpuregs
  obtain ⟨hregs', hshows⟩ := written_some hregs hwrite hrd
  refine ⟨?_, h₀.fetching.transfers⟩
  rw [hafter, hevents]
  refine .coming
    { trap := ?_, doWaitirq := ?_, cpuState := ?_, pc := ?_, regs := hregs', shows := hshows
      mem := h₀.fetching.step_mem.trans h₀.mem, decoderTrigger := ?_, asks := ⟨true, ?_⟩
      fetching := hfetching, aligned := aligned_add_four h₀.aligned, regPc := ?_ }
  · rw [hmain]
    rfl
  · rw [hmain]
    rfl
  · rw [hmain]
    rfl
  · rw [branchPc, hmain]
    show (if s.core.main.latchedBranch = true then _ else s.core.main.regNextPc) = _
    rw [h₀.latchedBranch]
    exact h₀.regNextPc
  · rw [hmain]
    show (s.core.main.memDoRinst && memDone s.core (s.inputs i)) = false
    rw [hdone, Bool.and_false]
  · rw [hmain]
    exact Asks.finished ⟨h₀.asks.prefetch, rfl, h₀.asks.rdata, h₀.asks.wdata⟩ rfl rfl rfl
  · rw [hmain]
    show Rv32i.Aligned 4 s.core.main.regPc
    rw [h₀.regPc]
    exact h₀.aligned

end PicoSoc.Picorv32
