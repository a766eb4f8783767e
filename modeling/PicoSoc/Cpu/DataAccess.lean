import PicoSoc.Cpu.Execution
import PicoSoc.Cpu.Lanes

set_option autoImplicit false

/-! # Loads and stores

The states `ldmem` and `stmem`: the next instruction is awaited first, then the transfer is asked for
and done. A transfer that is not aligned is still done, and the processor traps. -/

namespace PicoSoc.Picorv32

open Rv32i (Instr AluOp Cond LoadOp StoreOp Hart Aligned)

variable {p : Params} {h : Hart} {s : Machine} {i : Inputs} {instr : Instr}

/-! ## Transfers -/

/-- The size of a load or store. -/
def accessSize : LoadOp ⊕ StoreOp → ℕ
  | .inl k => k.size
  | .inr k => k.size

def accessState : LoadOp ⊕ StoreOp → CpuState
  | .inl _ => .ldmem
  | .inr _ => .stmem

theorem accessState_ne (q : LoadOp ⊕ StoreOp) : accessState q ≠ .fetch := by
  intro h
  cases q <;> cases h

/-- The load or store of an instruction, and its immediate. -/
def accessOp : Instr → Option ((LoadOp ⊕ StoreOp) × BitVec 32)
  | .load k _ _ imm => some (.inl k, imm)
  | .store k _ _ imm => some (.inr k, imm)
  | _ => none

/-- The transfer of a load or store, on the bus. -/
def OnBus (q : LoadOp ⊕ StoreOp) (a y : BitVec 32) (s : State) : Prop :=
  match q with
  | .inl _ => Reading false (wordAddr a) s
  | .inr k => Writing (wordAddr a) (storeData y k) (storeStrb a k) s

def busEvent (m : Rv32i.Memory) (q : LoadOp ⊕ StoreOp) (a y : BitVec 32) : Event :=
  match q with
  | .inl _ => busLoad m a
  | .inr k => busWrite k a y

theorem accessSize_cases (q : LoadOp ⊕ StoreOp) :
    accessSize q = 1 ∨ accessSize q = 2 ∨ accessSize q = 4 := by
  rcases q with k | k <;> cases k <;> simp [accessSize, LoadOp.size, StoreOp.size]

/-- The checks find the accesses that are not aligned. -/
theorem faulty_data {m : Main} {q : LoadOp ⊕ StoreOp} {a : BitVec 32}
    (ha : Asks m false false q.isLeft q.isRight) (hsize : m.memWordsize = sizeCode (accessSize q))
    (haddr : m.regOp1 = a) : Faulty m = !decide (Aligned (accessSize q) a) := by
  have hdata : (m.memDoRdata || m.memDoWdata) = true := by
    rw [ha.rdata, ha.wdata]
    cases q <;> rfl
  have hlow : (a.extractLsb' 0 2 != 0) = !decide (a.toNat % 4 = 0) := by
    rw [bne, ← Bool.decide_coe (_ == _)]
    congr 2
    rw [beq_iff_eq]
    apply propext
    rw [← BitVec.toNat_inj, extract_low]
    rfl
  rw [Faulty, hdata, ha.rinst, hsize, haddr, hlow, bit_zero, Bool.false_and, Bool.or_false,
    Bool.true_and]
  show _ = !decide (a.toNat % accessSize q = 0)
  rcases accessSize_cases q with h | h | h <;> rw [h]
  · show (false && _ || false && _) = !decide (a.toNat % 1 = 0)
    rw [Nat.mod_one]
    rfl
  · show (false && _ || true && _) = _
    rw [Bool.false_and, Bool.false_or, Bool.true_and]
    rcases Nat.mod_two_eq_zero_or_one a.toNat with h | h <;> rw [h] <;> rfl
  · show (true && _ || false && _) = _
    rw [Bool.true_and, Bool.false_and, Bool.or_false]

/-! ## Phases -/

/-- The next instruction is decoded, and the access at `a` is to come or under way. -/
structure Phase (p : Params) (h : Hart) (q : LoadOp ⊕ StoreOp) (a y : BitVec 32) (s : Machine) :
    Prop where
  trap : s.core.main.trap = false
  doWaitirq : s.core.main.irq.doWaitirq = false
  cpuState : s.core.main.cpuState = accessState q
  asks : Asks s.core.main false false q.isLeft q.isRight
  memWordsize : s.core.main.memWordsize = sizeCode (accessSize q)
  regPc : s.core.main.regPc = h.pc
  regNextPc : s.core.main.regNextPc = h.pc + 4
  aligned : Aligned 4 h.pc
  regOp1 : s.core.main.regOp1 = a
  regOp2 : q.isRight = true → s.core.main.regOp2 = y
  latchedRd : s.core.main.latchedRd = (fieldRd (h.mem.word h.pc)).setWidth 6
  latchedStore : q.isRight = true → s.core.main.latchedStore = false
  latchedStalu : s.core.main.latchedStalu = false
  latchedBranch : s.core.main.latchedBranch = false
  latchedCompr : s.core.main.latchedCompr = false
  extension : ∀ k, q = .inl k → s.core.main.latchedIsLu = (k == .lbu || k == .lhu || k == .lw)
    ∧ s.core.main.latchedIsLh = (k == .lh) ∧ s.core.main.latchedIsLb = (k == .lb)
  first : s.core.first = decodeFirst p (h.mem.word (h.pc + 4))
  cpuregs : Agrees h.x s.core.cpuregs
  mem : s.mem = h.mem

/-- The access is asked for, and the decoder sees the next instruction. -/
structure Requested (p : Params) (h : Hart) (q : LoadOp ⊕ StoreOp) (a y : BitVec 32) (s : Machine) :
    Prop extends Phase p h q a y s where
  decoderTrigger : s.core.main.decoderTrigger = true
  decoderPseudoTrigger : s.core.main.decoderPseudoTrigger = false
  memRdataQ : s.core.mem.memRdataQ = h.mem.word (h.pc + 4)
  free : Free s.core

structure Transfer (p : Params) (h : Hart) (q : LoadOp ⊕ StoreOp) (a y : BitVec 32) (s : Machine) :
    Prop extends Phase p h q a y s where
  decoderTrigger : s.core.main.decoderTrigger = false
  second : ∃ u, s.core.second =
    decodeSecond p (decodeFirst p (h.mem.word (h.pc + 4))) (h.mem.word (h.pc + 4)) u
  bus : OnBus q a y s.core

/-- The processor traps, with the transfer under way. -/
structure Failing (h : Hart) (q : LoadOp ⊕ StoreOp) (a y : BitVec 32) (s : Machine) : Prop where
  cpuState : s.core.main.cpuState = .trap
  regPc : s.core.main.regPc = h.pc
  asks : Asks s.core.main false false q.isLeft q.isRight
  bus : OnBus q a y s.core
  mem : s.mem = h.mem

/-! ## Waiting for the next instruction -/

/-- `ldmem` latches the write, `stmem` does not. -/
def Work.latching (q : LoadOp ⊕ StoreOp) (w : Work) : Work :=
  { w with main := { w.main with latchedStore := if q.isLeft then true else w.main.latchedStore } }

theorem access_waits {s : State} {i : Inputs} {w : Work} {q : LoadOp ⊕ StoreOp} (hp : Plain p)
    (hcpu : s.main.cpuState = accessState q) (hpre : s.main.memDoPrefetch = true)
    (hdone : memDone s i = false) : cpuStateCase p s i w = w.latching q := by
  rw [cpuStateCase, hcpu]
  cases q with
  | inl k =>
      show ldmemState s i w = _
      rw [ldmemState, hpre, hdone]
      rfl
  | inr k =>
      show stmemState p s i w = _
      rw [stmemState, hpre, hdone, hp.enableTrace]
      rfl

theorem Access.hold (hp : Plain p) (hr : i.resetn = true) {q : LoadOp ⊕ StoreOp} {x y : BitVec 32}
    (h₀ : Access p h (accessState q) x y s) (hdone : memDone s.core (s.inputs i) = false) :
    Access p h (accessState q) x y (s.step p i) := by
  have hne : s.core.main.cpuState ≠ .fetch := by
    rw [h₀.cpuState]
    exact accessState_ne q
  obtain ⟨hfirst, hsecond, -, hclasses⟩ := rest_edge (p := p) hr h₀.decoderTrigger hne hdone
  have hmain := main_edge hp hr (not_faulty h₀.asks fun _ => h₀.regPc ▸ h₀.aligned)
  rw [access_waits hp h₀.cpuState h₀.asks.prefetch hdone, hdone] at hmain
  have hflight : Flight p h (s.step p i) :=
    h₀.toFlight.edge hr hne hdone h₀.fetching.step_mem (hdone ▸ hmain)
      ⟨rfl, rfl, rfl, rfl, rfl, rfl, rfl⟩ (.inl rfl)
  refine { hflight with
    cpuState := ?_, asks := ?_, fetching := ?_, regOp1 := ?_, regOp2 := fun hst => ?_
    latchedStore := fun hst => ?_, latchedBranch := ?_, classes := ?_ }
  · rw [hmain]
    exact h₀.cpuState
  · rw [hmain]
    exact Asks.finished ⟨h₀.asks.prefetch, h₀.asks.rinst, h₀.asks.rdata, h₀.asks.wdata⟩ rfl rfl rfl
  · rcases h₀.fetching.take (p := p) hr h₀.trap hp.latchedMemRdata h₀.asks with
      ⟨-, -, hnext, -⟩ | ⟨htrue, -⟩
    · exact .inl hnext
    · rw [hdone] at htrue
      exact absurd htrue (by decide)
  · rw [hmain]
    exact h₀.regOp1
  · rw [hmain]
    exact h₀.regOp2 hst
  · rw [hmain]
    cases q with
    | inl k => cases hst
    | inr k => exact h₀.latchedStore hst
  · rw [hmain]
    exact h₀.latchedBranch
  · rw [hfirst, hsecond]
    exact hclasses

/-- The access at `a` is asked for, with its size and extension. -/
def Work.asking (q : LoadOp ⊕ StoreOp) (a : BitVec 32) (w : Work) : Work :=
  { w.latching q with
    main := { (w.latching q).main with
      memWordsize := sizeCode (accessSize q)
      regOp1 := a
      latchedIsLu :=
        match q with
        | .inl k => k == .lbu || k == .lhu || k == .lw
        | .inr _ => w.main.latchedIsLu
      latchedIsLh :=
        match q with
        | .inl k => k == .lh
        | .inr _ => w.main.latchedIsLh
      latchedIsLb :=
        match q with
        | .inl k => k == .lb
        | .inr _ => w.main.latchedIsLb }
    setMemDoRdata := q.isLeft || w.setMemDoRdata
    setMemDoWdata := q.isRight || w.setMemDoWdata }

theorem access_asks {s : State} {i : Inputs} {w : Work} {q : LoadOp ⊕ StoreOp} {word imm : BitVec 32}
    (hp : Plain p) (henc : Encodes word instr) (hq : accessOp instr = some (q, imm))
    (hcpu : s.main.cpuState = accessState q) (hpre : s.main.memDoPrefetch = true)
    (hrdata : s.main.memDoRdata = false) (hwdata : s.main.memDoWdata = false)
    (hdone : memDone s i = true) {u : Undef}
    (hsecond : s.second = decodeSecond p (decodeFirst p word) word u)
    (hfirst : s.first = decodeFirst p word) (hclasses : s.classes = classify s.first s.second) :
    cpuStateCase p s i w = w.asking q (s.main.regOp1 + imm) := by
  have himm : ∀ {m}, immOf instr = some m → s.second.decodedImm = m := by
    intro m hm
    rw [hsecond]
    exact decodedImm_of_encodes henc u hm
  rw [cpuStateCase, hcpu]
  cases instr with
  | load k rd rs1 m =>
      cases hq
      obtain ⟨h₁, h₂, h₃, h₄, h₅, h₆⟩ := load_of_encodes (p := p) henc u
      rw [← hsecond] at h₁ h₂ h₃ h₄ h₅ h₆
      show ldmemState s i w = _
      rw [ldmemState, memoryDone, hpre, hdone, hrdata, himm rfl, hclasses, hfirst, h₁, h₂, h₃, h₄, h₅, h₆]
      cases k <;> rfl
  | store k rs1 rs2 m =>
      cases hq
      obtain ⟨h₁, h₂, h₃⟩ := store_of_encodes (p := p) henc u
      rw [← hsecond] at h₁ h₂ h₃
      show stmemState p s i w = _
      rw [stmemState, memoryDone, hpre, hdone, hwdata, hp.enableTrace, himm rfl, h₁, h₂, h₃]
      cases k <;> rfl
  | _ => cases hq

/-- The next instruction is there. -/
theorem Access.request (hp : Plain p) (hr : i.resetn = true)
    (henc : Encodes (h.mem.word h.pc) instr) {q : LoadOp ⊕ StoreOp} {imm x y : BitVec 32}
    (hq : accessOp instr = some (q, imm)) (h₀ : Access p h (accessState q) x y s)
    (hdone : memDone s.core (s.inputs i) = true) : Requested p h q (x + imm) y (s.step p i) := by
  have hr' : (s.inputs i).resetn = true := by rw [inputs_resetn, hr]
  have hne : s.core.main.cpuState ≠ .fetch := by
    rw [h₀.cpuState]
    exact accessState_ne q
  -- `u` is what an undecoded instruction would leave in the second stage
  obtain ⟨u, hu⟩ := h₀.second
  have hbranch : (decodeFirst p (h.mem.word h.pc)).isBeqBneBltBgeBltuBgeu = false := by
    refine (congrArg Control.branch (control_of_encodes (p := p) henc u)).trans ?_
    cases instr with
    | load | store => rfl
    | _ => cases hq
  -- the word of the next instruction has come, so the interface is free
  rcases h₀.fetching.take (p := p) hr h₀.trap hp.latchedMemRdata h₀.asks with
    ⟨-, -, -, hfalse⟩ | ⟨-, hfree, hword, hlatched⟩
  · rw [hdone] at hfalse
    exact absurd hfalse (by decide)
  have hmain := main_edge hp hr (not_faulty h₀.asks fun _ => h₀.regPc ▸ h₀.aligned)
  rw [access_asks hp henc hq h₀.cpuState h₀.asks.prefetch h₀.asks.rdata h₀.asks.wdata hdone hu h₀.first
    h₀.classes, h₀.regOp1, hdone] at hmain
  rw [h₀.mem] at hword hlatched
  refine
    { trap := ?_, doWaitirq := ?_, cpuState := ?_, asks := ?_, memWordsize := ?_, regPc := ?_
      regNextPc := ?_, aligned := h₀.aligned, regOp1 := ?_, regOp2 := fun hst => ?_, latchedRd := ?_
      latchedStore := fun hst => ?_, latchedStalu := ?_, latchedBranch := ?_, latchedCompr := ?_
      extension := ?_, first := ?_, cpuregs := ?_, mem := h₀.fetching.step_mem.trans h₀.mem
      decoderTrigger := ?_, decoderPseudoTrigger := ?_, memRdataQ := hword, free := hfree }
  · rw [hmain]
    rfl
  · rw [hmain]
    rfl
  · rw [hmain]
    exact h₀.cpuState
  · rw [hmain]
    have hasks := asks_finished (p := p)
      (Work.asking q (x + imm) (defaults p s.core (s.inputs i)))
    cases q <;> exact hasks
  · rw [hmain]
    rfl
  · rw [hmain]
    exact h₀.regPc
  · rw [hmain]
    exact h₀.regNextPc
  · rw [hmain]
    rfl
  · rw [hmain]
    cases q with
    | inl k => cases hst
    | inr k => exact h₀.regOp2 rfl
  · rw [hmain]
    exact h₀.latchedRd hbranch
  · rw [hmain]
    cases q with
    | inl k => cases hst
    | inr k => exact h₀.latchedStore rfl
  · rw [hmain]
    exact h₀.latchedStalu
  · rw [hmain]
    exact h₀.latchedBranch
  · rw [hmain]
    exact h₀.latchedCompr
  · rintro k rfl
    rw [hmain]
    exact ⟨rfl, rfl, rfl⟩
  · show firstStep p s.core (s.inputs i) = _
    rw [firstStep, h₀.asks.rinst, hdone, hlatched, hr']
    rfl
  · rw [cpuregs_keep hne]
    exact h₀.cpuregs
  · rw [hmain]
    show (s.core.main.memDoRinst && memDone s.core (s.inputs i)) = true
    rw [h₀.asks.rinst, hdone]
    rfl
  · rw [hmain]
    rfl

/-! ## The transfer -/

theorem phase_waits {s : State} {i : Inputs} {w : Work} {q : LoadOp ⊕ StoreOp} (hp : Plain p)
    (hcpu : s.main.cpuState = accessState q) (ha : Asks s.main false false q.isLeft q.isRight)
    (hdone : memDone s i = false) : cpuStateCase p s i w = w.latching q := by
  rw [cpuStateCase, hcpu]
  cases q with
  | inl k =>
      show ldmemState s i w = _
      rw [ldmemState, memoryDone, ha.prefetch, ha.rdata, hdone]
      rfl
  | inr k =>
      show stmemState p s i w = _
      rw [stmemState, memoryDone, ha.prefetch, ha.wdata, hdone, hp.enableTrace]
      rfl

section

variable {q : LoadOp ⊕ StoreOp} {a y : BitVec 32}

/-- A cycle without the end of the transfer. -/
theorem Phase.edge (hp : Plain p) (hr : i.resetn = true) (h₀ : Phase p h q a y s)
    (haligned : Aligned (accessSize q) a) (hdone : memDone s.core (s.inputs i) = false)
    (hmem : (s.step p i).mem = s.mem) :
    Phase p h q a y (s.step p i) ∧ (s.step p i).core.main.decoderTrigger = false := by
  have hr' : (s.inputs i).resetn = true := by rw [inputs_resetn, hr]
  have hne : s.core.main.cpuState ≠ .fetch := by
    rw [h₀.cpuState]
    exact accessState_ne q
  -- an aligned access does not trap, so the case of the state decides
  have hfaulty : Faulty s.core.main = false := by
    rw [faulty_data h₀.asks h₀.memWordsize h₀.regOp1, decide_eq_true haligned]
    rfl
  have hmain := main_edge hp hr hfaulty
  rw [phase_waits hp h₀.cpuState h₀.asks hdone, hdone] at hmain
  refine ⟨
    { trap := ?_, doWaitirq := ?_, cpuState := ?_, asks := ?_, memWordsize := ?_, regPc := ?_
      regNextPc := ?_, aligned := h₀.aligned, regOp1 := ?_, regOp2 := fun hst => ?_, latchedRd := ?_
      latchedStore := fun hst => ?_, latchedStalu := ?_, latchedBranch := ?_, latchedCompr := ?_
      extension := fun k hk => ?_, first := ?_, cpuregs := ?_, mem := hmem.trans h₀.mem }, ?_⟩
  · rw [hmain]
    rfl
  · rw [hmain]
    rfl
  · rw [hmain]
    exact h₀.cpuState
  · rw [hmain]
    exact Asks.finished ⟨h₀.asks.prefetch, h₀.asks.rinst, h₀.asks.rdata, h₀.asks.wdata⟩ rfl rfl rfl
  · rw [hmain]
    exact h₀.memWordsize
  · rw [hmain]
    exact h₀.regPc
  · rw [hmain]
    exact h₀.regNextPc
  · rw [hmain]
    exact h₀.regOp1
  · rw [hmain]
    exact h₀.regOp2 hst
  · rw [hmain]
    exact h₀.latchedRd
  · rw [hmain]
    cases q with
    | inl k => cases hst
    | inr k => exact h₀.latchedStore hst
  · rw [hmain]
    exact h₀.latchedStalu
  · rw [hmain]
    exact h₀.latchedBranch
  · rw [hmain]
    exact h₀.latchedCompr
  · rw [hmain]
    exact h₀.extension k hk
  · show firstStep p s.core (s.inputs i) = _
    rw [firstStep, h₀.asks.rinst, hr', Bool.false_and]
    exact h₀.first
  · rw [cpuregs_keep hne]
    exact h₀.cpuregs
  · rw [hmain]
    show (s.core.main.memDoRinst && memDone s.core (s.inputs i)) = false
    rw [hdone, Bool.and_false]

/-- The transfer begins, aligned or not. -/
theorem Requested.onBus (hr : i.resetn = true) (h₀ : Requested p h q a y s) :
    OnBus q a y (s.step p i).core := by
  have hr' : (s.inputs i).resetn = true := by rw [inputs_resetn, hr]
  have ha := h₀.asks
  have hsize := h₀.memWordsize
  cases q with
  | inl k =>
      have hstep : (s.step p i).core.mem = _ := h₀.free.edge_load hr' h₀.trap ha
      rw [h₀.regOp1] at hstep
      exact ⟨by rw [hstep], by rw [hstep], by rw [hstep], by rw [hstep]; rfl, by rw [hstep]⟩
  | inr k =>
      have hstep : (s.step p i).core.mem = _ := h₀.free.edge_store hr' h₀.trap ha
      have hdata : memLaWdata s.core (s.inputs i) = storeData y k := by
        rw [memLaWdata, hsize, h₀.regOp2 rfl]
        cases k <;> rfl
      have hstrb : memLaWstrb s.core (s.inputs i) = storeStrb a k := by
        rw [memLaWstrb, hsize, h₀.regOp1]
        cases k <;> rfl
      rw [h₀.regOp1, hdata, hstrb] at hstep
      exact ⟨by rw [hstep], by rw [hstep], by rw [hstep], by rw [hstep]; rfl, by rw [hstep],
        by rw [hstep]⟩

theorem Requested.next (hp : Plain p) (hr : i.resetn = true) (h₀ : Requested p h q a y s)
    (haligned : Aligned (accessSize q) a) : Transfer p h q a y (s.step p i) := by
  have hr' : (s.inputs i).resetn = true := by rw [inputs_resetn, hr]
  obtain ⟨hphase, htrigger⟩ := h₀.toPhase.edge (p := p) hp hr haligned (h₀.free.done _)
    (step_mem_of_not_xfer (h₀.free.xfer i))
  refine { hphase with
    decoderTrigger := htrigger, second := ⟨(s.inputs i).undef, ?_⟩, bus := h₀.onBus hr }
  show secondStep p s.core (s.inputs i) = _
  rw [secondStep, decodes, h₀.decoderTrigger, h₀.decoderPseudoTrigger, h₀.first, h₀.memRdataQ, hr']
  rfl

/-- A check fails, with the transfer begun. -/
theorem Requested.fails (hp : Plain p) (hr : i.resetn = true) (h₀ : Requested p h q a y s)
    (haligned : ¬Aligned (accessSize q) a) : Failing h q a y (s.step p i) := by
  have hr' : (s.inputs i).resetn = true := by rw [inputs_resetn, hr]
  have hdone := h₀.free.done (s.inputs i)
  have hfaulty : Faulty s.core.main = true := by
    rw [faulty_data h₀.asks h₀.memWordsize h₀.regOp1, decide_eq_false haligned]
    rfl
  have hmain : (s.step p i).core.main = _ := mainStep_plain hp hr'
  rw [phase_waits hp h₀.cpuState h₀.asks hdone, hfaulty, hdone] at hmain
  refine ⟨?_, ?_, ?_, h₀.onBus hr, (step_mem_of_not_xfer (h₀.free.xfer i)).trans h₀.mem⟩
  · rw [hmain]
    rfl
  · rw [hmain]
    exact h₀.regPc
  · rw [hmain]
    exact Asks.finished ⟨h₀.asks.prefetch, h₀.asks.rinst, h₀.asks.rdata, h₀.asks.wdata⟩ rfl rfl rfl

/-! ## On the bus -/

theorem OnBus.memValid {s : State} (h₀ : OnBus q a y s) :
    s.mem.memValid = true ∧ (s.mem.memState = .read ∨ s.mem.memState = .write) := by
  cases q with
  | inl k =>
      have h₀ : Reading false (wordAddr a) s := h₀
      exact ⟨h₀.memValid, .inl h₀.memState⟩
  | inr k =>
      have h₀ : Writing (wordAddr a) (storeData y k) (storeStrb a k) s := h₀
      exact ⟨h₀.memValid, .inr h₀.memState⟩

theorem OnBus.xfer {s : State} (h₀ : OnBus q a y s) (i : Inputs) : memXfer s i = i.memReady := by
  rw [memXfer, h₀.memValid.1, Bool.true_and]

theorem OnBus.done {s : State} {i : Inputs} (hr : i.resetn = true) (h₀ : OnBus q a y s)
    (ha : Asks s.main false false q.isLeft q.isRight) : memDone s i = i.memReady := by
  have hdata : (s.main.memDoRdata || s.main.memDoWdata) = true := by
    rw [ha.rdata, ha.wdata]
    cases q <;> rfl
  cases q with
  | inl k =>
      rw [Reading.done h₀ hr, Bool.or_assoc, hdata, Bool.or_true, Bool.and_true]
  | inr k =>
      rw [Writing.done h₀ hr, Bool.or_assoc, hdata, Bool.or_true, Bool.and_true]

theorem OnBus.transfers (h₀ : OnBus q a y s.core) :
    s.transfers i = if i.memReady then [busEvent s.mem q a y] else [] := by
  rw [Machine.transfers, h₀.xfer]
  cases hready : i.memReady with
  | false => rfl
  | true =>
      cases q with
      | inl k =>
          have h₀ : Reading false (wordAddr a) s.core := h₀
          rw [h₀.memInstr, h₀.memWstrb, h₀.memAddr]
          rfl
      | inr k =>
          have h₀ : Writing (wordAddr a) (storeData y k) (storeStrb a k) s.core := h₀
          rw [h₀.memInstr, h₀.memWstrb, h₀.memAddr, h₀.memWdata, if_neg (storeStrb_ne a k)]
          rfl

/-- The bus waits, whether the processor has trapped or not. -/
theorem OnBus.hold (hr : i.resetn = true) (h₀ : OnBus q a y s.core) (hready : i.memReady = false) :
    OnBus q a y (s.step p i).core ∧ (s.step p i).mem = s.mem := by
  have hx : memXfer s.core (s.inputs i) = false := by rw [h₀.xfer, inputs_memReady, hready]
  have hr' : (s.inputs i).resetn = true := by rw [inputs_resetn, hr]
  have hready' : (s.inputs i).memReady = false := by rw [inputs_memReady, hready]
  have hstep : (s.step p i).core.mem = s.core.mem := by
    show memStep s.core (s.inputs i) = _
    cases ht : s.core.main.trap <;> rcases h₀.memValid.2 with hst | hst <;>
      simp [memStep, memLaRead, memLaWrite, hx, hr', hready', ht, hst]
  refine ⟨?_, step_mem_of_not_xfer (by rw [h₀.xfer, hready])⟩
  cases q with
  | inl k =>
      obtain ⟨h₁, h₂, h₃, h₄, h₅⟩ : Reading false (wordAddr a) s.core := h₀
      rw [← hstep] at h₁ h₂ h₃ h₄ h₅
      exact ⟨h₁, h₂, h₃, h₄, h₅⟩
  | inr k =>
      obtain ⟨h₁, h₂, h₃, h₄, h₅, h₆⟩ :
        Writing (wordAddr a) (storeData y k) (storeStrb a k) s.core := h₀
      rw [← hstep] at h₁ h₂ h₃ h₄ h₅ h₆
      exact ⟨h₁, h₂, h₃, h₄, h₅, h₆⟩

/-- The answer frees the bus. -/
theorem OnBus.free (hr : i.resetn = true) (ht : s.core.main.trap = false) (h₀ : OnBus q a y s.core)
    (ha : Asks s.core.main false false q.isLeft q.isRight) (hready : i.memReady = true) :
    Free (s.step p i).core := by
  have hr' : (s.inputs i).resetn = true := by rw [inputs_resetn, hr]
  have hready' : (s.inputs i).memReady = true := by rw [inputs_memReady, hready]
  cases q with
  | inl k =>
      have hstep : (s.step p i).core.mem = _ := Reading.edge hr' ht h₀
      rw [hready', ha.rinst, ha.rdata] at hstep
      exact ⟨by rw [hstep]; rfl, by rw [hstep]; rfl⟩
  | inr k =>
      have hstep : (s.step p i).core.mem = _ := Writing.edge hr' ht h₀
      rw [hready'] at hstep
      exact ⟨by rw [hstep]; rfl, by rw [hstep]; rfl⟩

theorem Transfer.hold (hp : Plain p) (hr : i.resetn = true) (h₀ : Transfer p h q a y s)
    (haligned : Aligned (accessSize q) a) (hready : i.memReady = false) :
    Transfer p h q a y (s.step p i) := by
  have hr' : (s.inputs i).resetn = true := by rw [inputs_resetn, hr]
  obtain ⟨hbus, hmem⟩ := h₀.bus.hold (p := p) hr hready
  have hdone : memDone s.core (s.inputs i) = false := by
    rw [h₀.bus.done hr' h₀.asks, inputs_memReady, hready]
  obtain ⟨hphase, htrigger⟩ := h₀.toPhase.edge (p := p) hp hr haligned hdone hmem
  refine { hphase with decoderTrigger := htrigger, second := ?_, bus := hbus }
  have hdec : decodes s.core = false := by rw [decodes, h₀.decoderTrigger, Bool.false_and]
  have hsecond : (s.step p i).core.second = s.core.second := by
    show secondStep p s.core (s.inputs i) = _
    rw [secondStep, hdec, hr']
    rfl
  rw [hsecond]
  exact h₀.second

/-- The memory after the transfer. -/
def accessMem (m : Rv32i.Memory) (q : LoadOp ⊕ StoreOp) (a y : BitVec 32) : Rv32i.Memory :=
  match q with
  | .inl _ => m
  | .inr k => m.store a k.size y

theorem OnBus.step_mem (h₀ : OnBus q a y s.core) (haligned : Aligned (accessSize q) a)
    (hready : i.memReady = true) : (s.step p i).mem = accessMem s.mem q a y := by
  cases q with
  | inl k => exact Reading.step_mem h₀
  | inr k =>
      have hx : memXfer s.core i = true := by rw [h₀.xfer, hready]
      have h₀ : Writing (wordAddr a) (storeData y k) (storeStrb a k) s.core := h₀
      rw [Machine.step, hx, h₀.memAddr, h₀.memWdata, h₀.memWstrb, if_pos rfl]
      exact busStore_store s.mem y haligned

/-- The last cycle of a load or store. -/
theorem phase_ends {s : State} {i : Inputs} {w : Work} (hp : Plain p)
    (hcpu : s.main.cpuState = accessState q) (ha : Asks s.main false false q.isLeft q.isRight)
    (hdone : memDone s i = true) {value : BitVec 32}
    (hvalue : q.isLeft = true → (if s.main.latchedIsLu then memRdataWord s i
      else if s.main.latchedIsLh then ((memRdataWord s i).extractLsb' 0 16).signExtend 32
      else if s.main.latchedIsLb then ((memRdataWord s i).extractLsb' 0 8).signExtend 32
      else w.main.regOut) = value) :
    cpuStateCase p s i w = { w.latching q with main := { (w.latching q).main with
      regOut := if q.isLeft then value else w.main.regOut
      cpuState := .fetch
      decoderTrigger := true
      decoderPseudoTrigger := true } } := by
  rw [cpuStateCase, hcpu]
  cases q with
  | inl k =>
      rw [← hvalue rfl]
      show ldmemState s i w = _
      rw [ldmemState, memoryDone, ha.prefetch, ha.rdata, hdone]
      rfl
  | inr k =>
      show stmemState p s i w = _
      rw [stmemState, memoryDone, ha.prefetch, ha.wdata, hdone, hp.enableTrace]
      rfl

/-- The transfer ends: the next instruction is launched at once. -/
theorem Transfer.finish (hp : Plain p) (hr : i.resetn = true) (h₀ : Transfer p h q a y s)
    (haligned : Aligned (accessSize q) a) (hready : i.memReady = true) {h' : Hart} {l : List Event}
    (hpc : h'.pc = h.pc + 4) (hmem : h'.mem = accessMem h.mem q a y)
    (hcode : h'.mem.word (h.pc + 4) = h.mem.word (h.pc + 4))
    (hload : ∀ k, q = .inl k → h'.x = h.x.write (fieldRd (h.mem.word h.pc)) (k.value h.mem a)
      ∧ l = regWrite (fieldRd (h.mem.word h.pc)) (k.value h.mem a))
    (hstore : ∀ k, q = .inr k → h'.x = h.x ∧ l = []) : Launch p h' l (s.step p i) := by
  have hr' : (s.inputs i).resetn = true := by rw [inputs_resetn, hr]
  have hready' : (s.inputs i).memReady = true := by rw [inputs_memReady, hready]
  have hne : s.core.main.cpuState ≠ .fetch := by
    rw [h₀.cpuState]
    exact accessState_ne q
  have hfaulty : Faulty s.core.main = false := by
    rw [faulty_data h₀.asks h₀.memWordsize h₀.regOp1, decide_eq_true haligned]
    rfl
  have hdone : memDone s.core (s.inputs i) = true := by
    rw [h₀.bus.done hr' h₀.asks, hready']
  -- the lanes of the answer, which `latched_is_*` extend, are the value of the load
  have hvalue : q.isLeft = true → (if s.core.main.latchedIsLu then memRdataWord s.core (s.inputs i)
      else if s.core.main.latchedIsLh then
        ((memRdataWord s.core (s.inputs i)).extractLsb' 0 16).signExtend 32
      else if s.core.main.latchedIsLb then
        ((memRdataWord s.core (s.inputs i)).extractLsb' 0 8).signExtend 32
      else (defaults p s.core (s.inputs i)).main.regOut) =
        match q with
        | .inl k => k.value h.mem a
        | .inr _ => 0 := by
    intro hq
    cases q with
    | inl k =>
        obtain ⟨hlu, hlh, hlb⟩ := h₀.extension k rfl
        have hrdata := Reading.rdata h₀.bus hready
        rw [h₀.mem] at hrdata
        rw [hlu, hlh, hlb]
        exact memRdataWord_load h₀.memWordsize h₀.regOp1 hrdata haligned _
    | inr k => cases hq
  have hmain := main_edge hp hr hfaulty
  rw [phase_ends hp h₀.cpuState h₀.asks hdone hvalue, hdone] at hmain
  have hregs : Agrees h.x (s.step p i).core.cpuregs := by
    rw [cpuregs_keep hne]
    exact h₀.cpuregs
  have hrd : (s.step p i).core.main.latchedRd = (fieldRd (h.mem.word h.pc)).setWidth 6 := by
    rw [hmain]
    exact h₀.latchedRd
  -- a load is written back in the fetch cycle, a store writes nothing
  have hwritten : Agrees h'.x (written p (s.step p i).core) ∧ retires p (s.step p i).core = l := by
    cases q with
    | inl k =>
        obtain ⟨hx, rfl⟩ := hload k rfl
        rw [hx]
        refine written_some hregs ?_ hrd
        rw [cpuregsWrite, hmain]
        show (if s.core.main.latchedBranch = true then _ else
          some (if s.core.main.latchedStalu = true then _ else k.value h.mem a)) = _
        rw [h₀.latchedBranch, h₀.latchedStalu]
        rfl
    | inr k =>
        obtain ⟨hx, rfl⟩ := hstore k rfl
        rw [hx]
        refine written_none hregs (.inr (cpuregsWrite_none hp ?_ ?_))
        · rw [hmain]
          exact h₀.latchedBranch
        · rw [hmain]
          exact h₀.latchedStore rfl
  -- the word that was prefetched for the next instruction is still in the decoder
  have htrigger : (s.step p i).core.main.decoderTrigger = true := by
    rw [hmain]
    rfl
  have hpseudo : (s.step p i).core.main.decoderPseudoTrigger = true := by
    rw [hmain]
    rfl
  have hfirst : (s.step p i).core.first = decodeFirst p (h.mem.word (h.pc + 4)) := by
    show firstStep p s.core (s.inputs i) = _
    rw [firstStep, h₀.asks.rinst, hr', Bool.false_and]
    exact h₀.first
  have hsecond : (s.step p i).core.second = s.core.second := by
    show secondStep p s.core (s.inputs i) = _
    rw [secondStep, decodes, h₀.decoderTrigger, Bool.false_and, hr']
    rfl
  rw [← hpc] at hcode
  refine
    { trap := ?_, doWaitirq := ?_, cpuState := ?_, pc := ?_, regs := hwritten.1, shows := hwritten.2
      mem := ?_, decoderTrigger := htrigger, asks := ?_, free := ?_
      aligned := hpc ▸ aligned_add_four h₀.aligned, first := ?_, second := fun j hj => ?_ }
  · rw [hmain]
    rfl
  · rw [hmain]
    rfl
  · rw [hmain]
    rfl
  · rw [branchPc, hmain]
    show (if s.core.main.latchedBranch = true then _ else s.core.main.regNextPc) = _
    rw [h₀.latchedBranch, hpc]
    exact h₀.regNextPc
  · rw [h₀.bus.step_mem haligned hready, h₀.mem, hmem]
  · rw [hmain]
    exact asks_finished _
  · exact h₀.bus.free hr h₀.trap h₀.asks hready
  · rw [hcode, hpc]
    exact hfirst
  · obtain ⟨u, hu⟩ := h₀.second
    refine ⟨u, ?_⟩
    rw [secondStep, decodes, htrigger, hpseudo, hj, hsecond, hu, hcode, hpc]
    rfl

/-! ## Traps -/

theorem Failing.hold (hp : Plain p) (hr : i.resetn = true) (h₀ : Failing h q a y s)
    (hready : i.memReady = false) : Failing h q a y (s.step p i) := by
  have hr' : (s.inputs i).resetn = true := by rw [inputs_resetn, hr]
  obtain ⟨hbus, hmem⟩ := h₀.bus.hold (p := p) hr hready
  have hdone : memDone s.core (s.inputs i) = false := by
    rw [h₀.bus.done hr' h₀.asks, inputs_memReady, hready]
  have hmain : (s.step p i).core.main = _ := mainStep_plain hp hr'
  rw [cpuStateCase, h₀.cpuState, hdone] at hmain
  refine ⟨?_, ?_, ?_, hbus, hmem.trans h₀.mem⟩
  · rw [hmain]
    cases Faulty s.core.main with
    | false => exact h₀.cpuState
    | true => rfl
  · rw [hmain]
    cases Faulty s.core.main <;> exact h₀.regPc
  · rw [hmain]
    cases Faulty s.core.main <;>
      exact Asks.finished ⟨h₀.asks.prefetch, h₀.asks.rinst, h₀.asks.rdata, h₀.asks.wdata⟩ rfl rfl rfl

/-- The transfer ends all the same. -/
theorem Failing.finish (hp : Plain p) (hr : i.resetn = true) (h₀ : Failing h q a y s)
    (hready : i.memReady = true) : Halted h.pc (s.step p i) := by
  have hr' : (s.inputs i).resetn = true := by rw [inputs_resetn, hr]
  have hdone : memDone s.core (s.inputs i) = true := by
    rw [h₀.bus.done hr' h₀.asks, inputs_memReady, hready]
  have hmain : (s.step p i).core.main = _ := mainStep_plain hp hr'
  rw [cpuStateCase, h₀.cpuState, hdone] at hmain
  have hx : memXfer s.core (s.inputs i) = true := by rw [h₀.bus.xfer, inputs_memReady, hready]
  have hready' : (s.inputs i).memReady = true := by rw [inputs_memReady, hready]
  have hvalid : (s.step p i).core.mem.memValid = false := by
    show (memStep s.core (s.inputs i)).memValid = false
    cases ht : s.core.main.trap <;> rcases h₀.bus.memValid.2 with hst | hst <;>
      simp [memStep, memLaRead, memLaWrite, hx, hr', hready', ht, hst]
  refine ⟨?_, ?_, ?_, ?_, fun hv => ?_⟩
  · rw [hmain]
    cases Faulty s.core.main with
    | false => exact h₀.cpuState
    | true => rfl
  · rw [hmain]
    cases Faulty s.core.main <;> exact h₀.regPc
  · rw [hmain]
    cases Faulty s.core.main <;> exact (asks_finished _).rdata
  · rw [hmain]
    cases Faulty s.core.main <;> exact (asks_finished _).wdata
  · rw [hvalid] at hv
    exact absurd hv (by decide)

end

end PicoSoc.Picorv32
