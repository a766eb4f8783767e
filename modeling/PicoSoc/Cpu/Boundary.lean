import PicoSoc.Cpu.Stages

set_option autoImplicit false

/-! # Between two instructions

The state `fetch`: the last instruction writes its register, the next one is fetched, and it is
launched when the decoder has it. A program counter that is not aligned leads to `trap`. -/

namespace PicoSoc.Picorv32

open Rv32i (Instr AluOp Cond LoadOp StoreOp Hart)

variable {p : Params} {h : Hart} {l : List Event} {s : Machine} {i : Inputs}

/-! ## The fetch ahead -/

theorem Free.hold (hr : i.resetn = true) (ht : s.core.main.trap = false) (hfree : Free s.core)
    (ha : Asks s.core.main false false false false) : Free (s.step p i).core := by
  have hr' : (s.inputs i).resetn = true := by rw [inputs_resetn, hr]
  have hstep : (s.step p i).core.mem = s.core.mem := hfree.edge_none hr' ht ha
  exact ⟨by rw [hstep, hfree.memState], by rw [hstep, hfree.memValid]⟩

/-- A fetch that is not wanted yet goes on, or there is none. -/
theorem Ahead.hold {b : Bool} {addr : BitVec 32} (hr : i.resetn = true)
    (ht : s.core.main.trap = false) (h₀ : Ahead b addr s) (ha : Asks s.core.main b false false false) :
    Ahead b addr (s.step p i) ∧ memDone s.core (s.inputs i) = false := by
  cases b with
  | true =>
      have h₀ : Fetching addr s := h₀
      exact h₀.hold hr ht ha
  | false =>
      have h₀ : Free s.core := h₀
      exact ⟨h₀.hold hr ht ha, h₀.done _⟩

/-- A fetch leaves the memory as it is. -/
theorem Ahead.step_mem {b : Bool} {addr : BitVec 32} (h₀ : Ahead b addr s) :
    (s.step p i).mem = s.mem ∧ s.transfers i = [] := by
  cases b with
  | true =>
      have h₀ : Fetching addr s := h₀
      exact ⟨h₀.step_mem, h₀.transfers⟩
  | false =>
      have h₀ : Free s.core := h₀
      exact ⟨step_mem_of_not_xfer (h₀.xfer _), transfers_of_not_xfer (h₀.xfer _)⟩

/-- The fetch of an aligned address begins. -/
theorem Free.ahead {addr : BitVec 32} {b c : Bool} (hr : i.resetn = true)
    (ht : s.core.main.trap = false) (hfree : Free s.core) (hbc : (b || c) = true)
    (ha : Asks s.core.main b c false false) (hpc : nextPc s.core = addr)
    (haddr : Rv32i.Aligned 4 addr) : Fetching addr (s.step p i) := by
  have hr' : (s.inputs i).resetn = true := by rw [inputs_resetn, hr]
  have hstep : (s.step p i).core.mem = _ := hfree.edge_fetch hr' ht hbc ha
  have hword : addr.extractLsb' 2 30 ++ 0#2 = addr := by
    have haddr : addr.toNat % 4 = 0 := haddr
    apply BitVec.eq_of_toNat_eq
    rw [BitVec.toNat_append]
    simp
    omega
  rw [hpc, hword] at hstep
  exact .inl ⟨by rw [hstep], by rw [hstep], by rw [hstep], by rw [hstep], by rw [hstep]⟩

/-! ## The state fetch -/

/-- The hart is reached; the register its last instruction writes is written in this cycle, and `l`
    shows it. -/
structure Boundary (p : Params) (h : Hart) (l : List Event) (s : Machine) : Prop where
  trap : s.core.main.trap = false
  doWaitirq : s.core.main.irq.doWaitirq = false
  cpuState : s.core.main.cpuState = .fetch
  pc : branchPc s.core = h.pc
  regs : Agrees h.x (written p s.core)
  shows : retires p s.core = l
  mem : s.mem = h.mem

/-- The next instruction is not asked for yet. -/
structure Unasked (p : Params) (h : Hart) (l : List Event) (s : Machine) : Prop
    extends Boundary p h l s where
  decoderTrigger : s.core.main.decoderTrigger = false
  asks : Asks s.core.main false false false false
  free : Free s.core

/-- It is asked for, and the bus is free. -/
structure Asked (p : Params) (h : Hart) (l : List Event) (s : Machine) : Prop
    extends Boundary p h l s where
  decoderTrigger : s.core.main.decoderTrigger = false
  asks : Asks s.core.main false true false false
  free : Free s.core
  nextPc : nextPc s.core = h.pc
  regPc : Rv32i.Aligned 4 s.core.main.regPc

/-- It is on its way. -/
structure Coming (p : Params) (h : Hart) (l : List Event) (s : Machine) : Prop
    extends Boundary p h l s where
  decoderTrigger : s.core.main.decoderTrigger = false
  asks : ∃ b, Asks s.core.main b true false false
  fetching : Fetching h.pc s
  aligned : Rv32i.Aligned 4 h.pc
  regPc : Rv32i.Aligned 4 s.core.main.regPc

/-- It is there; a load or store has let the second stage see it already. -/
structure Launch (p : Params) (h : Hart) (l : List Event) (s : Machine) : Prop
    extends Boundary p h l s where
  decoderTrigger : s.core.main.decoderTrigger = true
  asks : Asks s.core.main false false false false
  free : Free s.core
  aligned : Rv32i.Aligned 4 h.pc
  first : s.core.first = decodeFirst p (h.mem.word h.pc)
  second : ∀ i : Inputs, i.resetn = true → ∃ u, secondStep p s.core i =
    decodeSecond p (decodeFirst p (h.mem.word h.pc)) (h.mem.word h.pc) u

/-- Its address is not aligned, and the check sees it. -/
structure Stray (p : Params) (h : Hart) (l : List Event) (s : Machine) : Prop
    extends Boundary p h l s where
  decoderTrigger : s.core.main.decoderTrigger = false
  asks : ∃ b, Asks s.core.main b true false false
  memInstr : s.core.mem.memValid = true → s.core.mem.memInstr = true
  regPc : ¬Rv32i.Aligned 4 s.core.main.regPc

/-! ## Waiting for the instruction -/

/-- A cycle of the state `fetch` without an instruction. -/
theorem fetch_waits {s : State} {w : Work} (hp : Plain p) (hcpu : s.main.cpuState = .fetch)
    (ht : s.main.decoderTrigger = false) (hw : s.main.irq.doWaitirq = false) :
    cpuStateCase p s i w = { w with main := { w.main with
      memDoRinst := true
      memWordsize := 0
      regPc := branchPc s
      regNextPc := branchPc s
      latchedStore := false
      latchedStalu := false
      latchedBranch := false
      latchedIsLu := false
      latchedIsLh := false
      latchedIsLb := false
      latchedRd := s.first.decodedRd
      latchedCompr := s.first.compressedInstr } } := by
  rw [cpuStateCase, hcpu]
  simp only [fetchState, hp.enableIrq, ht, hw, Bool.false_and, Bool.not_false, Bool.true_and,
    Bool.false_eq_true, if_false]

/-- The register file after the edge. -/
theorem cpuregs_edge (hr : i.resetn = true) : (s.step p i).core.cpuregs = written p s.core := by
  have hr' : (s.inputs i).resetn = true := by rw [inputs_resetn, hr]
  show cpuregsStep p s.core (s.inputs i) = _
  rw [cpuregsStep, written]
  cases cpuregsWrite p s.core with
  | none => rfl
  | some v => cases hrd : decide (s.core.main.latchedRd = 0) <;> simp_all

/-- Without a latched result no register is written. -/
theorem cpuregsWrite_none {s : State} (hp : Plain p) (hb : s.main.latchedBranch = false)
    (hs : s.main.latchedStore = false) : cpuregsWrite p s = none := by
  rw [cpuregsWrite, hb, hs, hp.enableIrq]
  simp

/-- A cycle of waiting writes the register, and the next one waits at the hart. -/
theorem Boundary.waits (hp : Plain p) (hr : i.resetn = true) (h₀ : Boundary p h l s)
    (ht : s.core.main.decoderTrigger = false) (hf : Faulty s.core.main = false)
    (hmem : (s.step p i).mem = s.mem) :
    Boundary p h [] (s.step p i) ∧ (s.step p i).core.main.regPc = h.pc
      ∧ nextPc (s.step p i).core = h.pc
      ∧ (s.step p i).core.main.decoderTrigger =
        (s.core.main.memDoRinst && memDone s.core (s.inputs i))
      ∧ (s.step p i).core.main.decoderPseudoTrigger = false := by
  have hmain := main_edge hp hr hf
  rw [fetch_waits hp h₀.cpuState ht h₀.doWaitirq, h₀.pc] at hmain
  have hnone : cpuregsWrite p (s.step p i).core = none := by
    apply cpuregsWrite_none hp <;> rw [hmain] <;> rfl
  refine ⟨⟨?_, ?_, ?_, ?_, ?_, ?_, hmem.trans h₀.mem⟩, ?_, ?_, ?_, ?_⟩
  · rw [hmain]
    rfl
  · rw [hmain]
    rfl
  · rw [hmain]
    exact h₀.cpuState
  · rw [branchPc, hmain]
    rfl
  · rw [written, hnone, cpuregs_edge hr]
    exact h₀.regs
  · rw [retires, hnone]
  · rw [hmain]
    rfl
  · rw [nextPc, hmain]
    rfl
  · rw [hmain]
    rfl
  · rw [hmain]
    rfl

/-- The instruction is asked for. -/
theorem Unasked.asked (hp : Plain p) (hr : i.resetn = true) (h₀ : Unasked p h l s) :
    if Rv32i.Aligned 4 h.pc then Asked p h [] (s.step p i) else Stray p h [] (s.step p i) := by
  have hf := not_faulty h₀.asks fun hc => absurd hc (by decide)
  have hdone := h₀.free.done (s.inputs i)
  have hmem : (s.step p i).mem = s.mem := step_mem_of_not_xfer (h₀.free.xfer i)
  obtain ⟨hbound, hpc, hnext, htrigger, -⟩ :=
    h₀.toBoundary.waits hp hr h₀.decoderTrigger hf hmem
  rw [hdone, Bool.and_false] at htrigger
  have hfree : Free (s.step p i).core := h₀.free.hold hr h₀.trap h₀.asks
  have hasks : Asks (s.step p i).core.main false true false false := by
    rw [main_edge hp hr hf, fetch_waits hp h₀.cpuState h₀.decoderTrigger h₀.doWaitirq, hdone]
    exact Asks.finished ⟨h₀.asks.prefetch, rfl, h₀.asks.rdata, h₀.asks.wdata⟩ rfl rfl rfl
  split_ifs with haligned
  · exact ⟨hbound, htrigger, hasks, hfree, hnext, hpc ▸ haligned⟩
  · refine ⟨hbound, htrigger, ⟨_, hasks⟩, fun hvalid => ?_, hpc ▸ haligned⟩
    rw [hfree.memValid] at hvalid
    exact absurd hvalid (by decide)

/-- The fetch begins. -/
theorem Asked.coming (hp : Plain p) (hr : i.resetn = true) (h₀ : Asked p h l s) :
    if Rv32i.Aligned 4 h.pc then Coming p h [] (s.step p i) else Stray p h [] (s.step p i) := by
  have hf := not_faulty h₀.asks fun _ => h₀.regPc
  have hdone := h₀.free.done (s.inputs i)
  have hmem : (s.step p i).mem = s.mem := step_mem_of_not_xfer (h₀.free.xfer i)
  obtain ⟨hbound, hpc, -, htrigger, -⟩ := h₀.toBoundary.waits hp hr h₀.decoderTrigger hf hmem
  rw [hdone, Bool.and_false] at htrigger
  have hasks : Asks (s.step p i).core.main false true false false := by
    rw [main_edge hp hr hf, fetch_waits hp h₀.cpuState h₀.decoderTrigger h₀.doWaitirq, hdone]
    exact Asks.finished ⟨h₀.asks.prefetch, rfl, h₀.asks.rdata, h₀.asks.wdata⟩ rfl rfl rfl
  split_ifs with haligned
  · exact ⟨hbound, htrigger, ⟨_, hasks⟩, h₀.free.ahead hr h₀.trap rfl h₀.asks h₀.nextPc haligned,
      haligned, hpc ▸ haligned⟩
  · refine ⟨hbound, htrigger, ⟨_, hasks⟩, fun _ => ?_, hpc ▸ haligned⟩
    have hr' : (s.inputs i).resetn = true := by rw [inputs_resetn, hr]
    have hstep : (s.step p i).core.mem = _ := h₀.free.edge_fetch hr' h₀.trap rfl h₀.asks
    rw [hstep]

/-- It is not there yet. -/
theorem Coming.coming (hp : Plain p) (hr : i.resetn = true) (h₀ : Coming p h l s)
    (hdone : memDone s.core (s.inputs i) = false) : Coming p h [] (s.step p i) := by
  obtain ⟨b, ha⟩ := h₀.asks
  have hf := not_faulty ha fun _ => h₀.regPc
  obtain ⟨hbound, hpc, -, htrigger, -⟩ :=
    h₀.toBoundary.waits hp hr h₀.decoderTrigger hf h₀.fetching.step_mem
  rw [hdone, Bool.and_false] at htrigger
  have hasks : Asks (s.step p i).core.main b true false false := by
    rw [main_edge hp hr hf, fetch_waits hp h₀.cpuState h₀.decoderTrigger h₀.doWaitirq, hdone]
    exact Asks.finished ⟨ha.prefetch, rfl, ha.rdata, ha.wdata⟩ rfl rfl rfl
  rcases h₀.fetching.take hr h₀.trap hp.latchedMemRdata ha with ⟨-, -, hnext, -⟩ | ⟨htrue, -⟩
  · exact ⟨hbound, htrigger, ⟨b, hasks⟩, .inl hnext, h₀.aligned, hpc ▸ h₀.aligned⟩
  · rw [hdone] at htrue
    exact absurd htrue (by decide)

/-- What the edge leaves that brings a wanted instruction. -/
theorem Launch.of_done (hp : Plain p) (hr : i.resetn = true) (ht : s.core.main.trap = false)
    {b : Bool} (ha : Asks s.core.main b true false false) (hfetch : Fetching h.pc s)
    (haligned : Rv32i.Aligned 4 h.pc) (hmem : s.mem = h.mem)
    (hdone : memDone s.core (s.inputs i) = true) (hbound : Boundary p h l (s.step p i))
    (htrigger : (s.step p i).core.main.decoderTrigger = true)
    (hpseudo : (s.step p i).core.main.decoderPseudoTrigger = false)
    (hasks : Asks (s.step p i).core.main false false false false) : Launch p h l (s.step p i) := by
  have hr' : (s.inputs i).resetn = true := by rw [inputs_resetn, hr]
  rcases hfetch.take (p := p) hr ht hp.latchedMemRdata ha with
    ⟨-, -, -, hfalse⟩ | ⟨-, hfree, hq, hlatched⟩
  · rw [hdone] at hfalse
    exact absurd hfalse (by decide)
  have hfirst : (s.step p i).core.first = decodeFirst p (h.mem.word h.pc) := by
    show firstStep p s.core (s.inputs i) = _
    rw [firstStep, ha.rinst, hdone, hlatched, hr', hmem]
    rfl
  refine ⟨hbound, htrigger, hasks, hfree, haligned, hfirst, fun j hj => ⟨j.undef, ?_⟩⟩
  rw [secondStep, decodes, htrigger, hpseudo, hj, hfirst, hq, hmem]
  rfl

/-- It is there. -/
theorem Coming.launch (hp : Plain p) (hr : i.resetn = true) (h₀ : Coming p h l s)
    (hdone : memDone s.core (s.inputs i) = true) : Launch p h [] (s.step p i) := by
  obtain ⟨b, ha⟩ := h₀.asks
  have hf := not_faulty ha fun _ => h₀.regPc
  obtain ⟨hbound, hpc, -, htrigger, hpseudo⟩ :=
    h₀.toBoundary.waits hp hr h₀.decoderTrigger hf h₀.fetching.step_mem
  rw [ha.rinst, hdone] at htrigger
  refine .of_done hp hr h₀.trap ha h₀.fetching h₀.aligned h₀.mem hdone hbound htrigger hpseudo ?_
  rw [main_edge hp hr hf, fetch_waits hp h₀.cpuState h₀.decoderTrigger h₀.doWaitirq, hdone]
  exact asks_finished _

/-! ## Trap -/

/-- In the state `trap`, without a transfer of data to come. -/
structure Halted (pc : BitVec 32) (s : Machine) : Prop where
  cpuState : s.core.main.cpuState = .trap
  regPc : s.core.main.regPc = pc
  rdata : s.core.main.memDoRdata = false
  wdata : s.core.main.memDoWdata = false
  memInstr : s.core.mem.memValid = true → s.core.mem.memInstr = true

theorem transfers_of_valid (h : s.core.mem.memValid = true → s.core.mem.memInstr = true) :
    s.transfers i = [] := by
  cases hv : s.core.mem.memValid with
  | true => exact transfers_of_instr (h hv)
  | false => exact transfers_of_not_xfer (by rw [memXfer, hv, Bool.false_and])

/-- Without a request for data only instructions are fetched. -/
theorem memStep_instr {s : State} {i : Inputs} (h : s.mem.memValid = true → s.mem.memInstr = true)
    (hrdata : s.main.memDoRdata = false) (hwdata : s.main.memDoWdata = false)
    (hv : (memStep s i).memValid = true) : (memStep s i).memInstr = true := by
  revert hv
  unfold memStep memIdle
  split_ifs <;> cases s.mem.memState <;> simp_all

/-- The main state machine comes to the state `trap`, or stays there. -/
theorem Halted.of_main {v : Work} {b c : Bool} {pc : BitVec 32} {s : Machine}
    (hmain : s.core.main = (v.trapped b).finished p c) (hcpu : b = false → v.main.cpuState = .trap)
    (hpc : v.main.regPc = pc) (hrdata : v.main.memDoRdata = false)
    (hwdata : v.main.memDoWdata = false) (hsrdata : v.setMemDoRdata = false)
    (hswdata : v.setMemDoWdata = false)
    (hinstr : s.core.mem.memValid = true → s.core.mem.memInstr = true) : Halted pc s := by
  have hkeep : (v.trapped b).main.regPc = v.main.regPc ∧ (v.trapped b).main.memDoRdata = false
      ∧ (v.trapped b).main.memDoWdata = false ∧ (v.trapped b).setMemDoRdata = false
      ∧ (v.trapped b).setMemDoWdata = false ∧ (v.trapped b).main.cpuState = .trap := by
    cases b with
    | true => exact ⟨rfl, hrdata, hwdata, hsrdata, hswdata, rfl⟩
    | false => exact ⟨rfl, hrdata, hwdata, hsrdata, hswdata, hcpu rfl⟩
  obtain ⟨h₁, h₂, h₃, h₄, h₅, h₆⟩ := hkeep
  refine ⟨?_, ?_, ?_, ?_, hinstr⟩
  · rw [hmain]
    exact h₆
  · rw [hmain]
    exact h₁.trans hpc
  · rw [hmain]
    show ((v.trapped b).setMemDoRdata || ((v.trapped b).main.memDoRdata && !c)) = false
    rw [h₂, h₄, Bool.false_and, Bool.false_or]
  · rw [hmain]
    show ((v.trapped b).setMemDoWdata || ((v.trapped b).main.memDoWdata && !c)) = false
    rw [h₃, h₅, Bool.false_and, Bool.false_or]

theorem Stray.halts (hp : Plain p) (hr : i.resetn = true) (h₀ : Stray p h l s) :
    Halted h.pc (s.step p i) := by
  have hr' : (s.inputs i).resetn = true := by rw [inputs_resetn, hr]
  obtain ⟨b, ha⟩ := h₀.asks
  have hlow : (s.core.main.regPc.extractLsb' 0 2 != 0) = true := by
    refine bne_iff_ne.2 fun hpc => h₀.regPc ?_
    have hpc := congrArg BitVec.toNat hpc
    show s.core.main.regPc.toNat % 4 = 0
    simpa using hpc
  have hf : Faulty s.core.main = true := by
    rw [Faulty, ha.rinst, hlow, Bool.and_true, Bool.or_true]
  have hmain : (s.step p i).core.main = _ := mainStep_plain hp hr'
  rw [hf, fetch_waits hp h₀.cpuState h₀.decoderTrigger h₀.doWaitirq, h₀.pc] at hmain
  exact .of_main hmain (fun hc => absurd hc (by decide)) rfl ha.rdata ha.wdata rfl rfl
    (memStep_instr h₀.memInstr ha.rdata ha.wdata)

/-- It stays there, and `trap` is set. -/
theorem Halted.next {pc : BitVec 32} (hp : Plain p) (hr : i.resetn = true) (h₀ : Halted pc s) :
    Halted pc (s.step p i) ∧ (s.step p i).core.main.trap = true := by
  have hr' : (s.inputs i).resetn = true := by rw [inputs_resetn, hr]
  have hmain : (s.step p i).core.main = _ := mainStep_plain hp hr'
  rw [cpuStateCase, h₀.cpuState] at hmain
  refine ⟨.of_main hmain (fun _ => h₀.cpuState) h₀.regPc h₀.rdata h₀.wdata rfl rfl
    (memStep_instr h₀.memInstr h₀.rdata h₀.wdata), ?_⟩
  rw [hmain]
  cases Faulty s.core.main <;> rfl

/-! ## Runs -/

section

variable {r : Run p} {n : ℕ}

/-- From cycle `n` a state with `Q` is reached, with `l` shown and no launch before it. -/
abbrev Run.Leads (r : Run p) (n : ℕ) (l : List Event) (Q : Machine → Prop) : Prop :=
  Clocked.Leads r.events r.launches n l fun m => Q (r.state m)

/-- The instruction of the hart is launched, or its address is not aligned and the processor traps. -/
def Settled (p : Params) (h : Hart) (l : List Event) (s : Machine) : Prop :=
  Launch p h l s ∨ (¬Rv32i.Aligned 4 h.pc ∧ l = [] ∧ Halted h.pc s)

/-- The hart is reached after `l`; a part of it is shown in the cycle of the launch. -/
def Run.Arrives (r : Run p) (n : ℕ) (h : Hart) (l : List Event) : Prop :=
  ∃ l₁ l₂, l₁ ++ l₂ = l ∧ r.Leads n l₁ (Settled p h l₂)

theorem not_launches_of_trigger (ht : (r.state n).core.main.decoderTrigger = false) :
    ¬r.launches n := by
  rw [Run.launches, launchNextInsn, ht, Bool.and_false, Bool.false_and]
  decide

theorem not_launches_of_cpuState (hcpu : (r.state n).core.main.cpuState ≠ .fetch) :
    ¬r.launches n := by
  rw [Run.launches, launchNextInsn, beq_eq_false_iff_ne.2 hcpu, Bool.false_and, Bool.false_and]
  decide

theorem retires_of_cpuState {s : State} (hcpu : s.main.cpuState ≠ .fetch) : retires p s = [] := by
  rw [retires, cpuregsWrite, if_neg hcpu]

theorem Boundary.events (h₀ : Boundary p h l s) (ht : s.transfers i = []) : s.events p i = l := by
  rw [Machine.events, ht, h₀.shows, List.nil_append]

/-- A wanted instruction comes. -/
theorem Run.fetched {W : Machine → Prop} {addr : BitVec 32} (hp : Plain p) (hW : W (r.state n))
    (htrap : ∀ s, W s → s.core.main.trap = false) (hfetch : ∀ s, W s → Fetching addr s)
    (hasks : ∀ s, W s → ∃ b, Asks s.core.main b true false false)
    (hquiet : ∀ m, W (r.state m) → ¬r.launches m ∧ retires p (r.state m).core = [])
    (hstay : ∀ s i, i.resetn = true → W s → memDone s.core (s.inputs i) = false → W (s.step p i)) :
    Clocked.Leads r.events r.launches n [] fun m =>
      W (r.state m) ∧ memDone (r.state m).core (r.inputs m) = true := by
  have hr : ∀ m, (r.inputs m).resetn = true := fun m => by rw [Run.inputs, inputs_resetn, r.resetn]
  rcases hfetch _ hW with hreading | hheld
  · refine (Clocked.Leads.wait (W := fun m => W (r.state m) ∧ Reading true addr (r.state m).core)
      (R := fun m => (r.env m).memReady = true) ⟨hW, hreading⟩
      (fun m hm => r.answers m hm.2.memValid) ?_).mono ?_
    · rintro m ⟨hWm, hread⟩ hlow
      obtain ⟨b, ha⟩ := hasks _ hWm
      have hdone : memDone (r.state m).core (r.inputs m) = false := by
        rw [hread.done (hr m), Run.inputs, inputs_memReady, Bool.eq_false_iff.2 hlow,
          Bool.false_and]
      refine ⟨⟨hstay _ _ (r.resetn m) hWm hdone, ?_⟩, (hquiet m hWm).1, ?_⟩
      · rcases (hfetch _ hWm).take (p := p) (r.resetn m) (htrap _ hWm) hp.latchedMemRdata ha with
          ⟨-, -, hnext, -⟩ | ⟨htrue, -⟩
        · exact hnext
        · rw [Run.inputs, htrue] at hdone
          exact absurd hdone (by decide)
      · rw [Run.events, Machine.events, (hfetch _ hWm).transfers, (hquiet m hWm).2, List.append_nil]
    · rintro m ⟨⟨hWm, hread⟩, hready⟩
      obtain ⟨b, ha⟩ := hasks _ hWm
      refine ⟨hWm, ?_⟩
      rw [hread.done (hr m), Run.inputs, inputs_memReady, hready, ha.rinst]
      rfl
  · obtain ⟨b, ha⟩ := hasks _ hW
    exact .here ⟨hW, by rw [hheld.done (hr n), ha.rinst]⟩

theorem Coming.arrives (hp : Plain p) (h₀ : Coming p h l (r.state n)) : r.Arrives n h l := by
  have hevents : ∀ {m l}, Coming p h l (r.state m) → r.events m = l := fun hm =>
    hm.toBoundary.events hm.fetching.transfers
  have hquiet : ∀ {m l}, Coming p h l (r.state m) → ¬r.launches m := fun hm =>
    not_launches_of_trigger hm.decoderTrigger
  have hlast : ∀ {m l}, Coming p h l (r.state m) →
      memDone (r.state m).core (r.inputs m) = true → r.Leads m l (Launch p h []) := by
    intro m l hm hdone
    rw [← hevents hm]
    exact .next (hquiet hm) (hm.launch hp (r.resetn m) hdone)
  refine ⟨l, [], List.append_nil l, ?_⟩
  cases hdone : memDone (r.state n).core (r.inputs n) with
  | true => exact (hlast h₀ hdone).mono fun m hm => .inl hm
  | false =>
      have hnext : r.Leads n l (Coming p h []) := by
        rw [← hevents h₀]
        exact .next (hquiet h₀) (h₀.coming hp (r.resetn n) hdone)
      rw [← List.append_nil l]
      refine hnext.trans fun m hm => ?_
      rw [← List.append_nil []]
      refine (Run.fetched (W := Coming p h []) hp hm (fun s hs => hs.trap)
        (fun s hs => hs.fetching) (fun s hs => hs.asks) (fun k hk => ⟨hquiet hk, hk.shows⟩)
        fun s i hr hs hd => hs.coming hp hr hd).trans fun k hk => ?_
      exact (hlast hk.1 hk.2).mono fun m hm => .inl hm

theorem Stray.arrives (hp : Plain p) (h₀ : Stray p h l (r.state n))
    (haligned : ¬Rv32i.Aligned 4 h.pc) : r.Arrives n h l := by
  refine ⟨l, [], List.append_nil l, ?_⟩
  rw [← h₀.toBoundary.events (transfers_of_valid (i := r.env n) h₀.memInstr)]
  exact .next (not_launches_of_trigger h₀.decoderTrigger)
    (.inr ⟨haligned, rfl, h₀.halts hp (r.resetn n)⟩)

/-- A cycle that shows the last register write, and what comes after it. -/
theorem Run.Arrives.next (hbound : Boundary p h l (r.state n))
    (ht : (r.state n).transfers (r.env n) = [])
    (htrigger : (r.state n).core.main.decoderTrigger = false) (h₁ : r.Arrives (n + 1) h []) :
    r.Arrives n h l := by
  obtain ⟨l₁, l₂, hl, hP⟩ := h₁
  obtain ⟨rfl, rfl⟩ := List.append_eq_nil_iff.1 hl
  refine ⟨l, [], List.append_nil l, ?_⟩
  have hnext : Clocked.Leads r.events r.launches n (r.events n) fun m => m = n + 1 :=
    .next (not_launches_of_trigger htrigger) rfl
  have hrest := hnext.trans fun m hm => hm ▸ hP
  rwa [show r.events n = l from hbound.events ht, List.append_nil] at hrest

theorem Asked.arrives (hp : Plain p) (h₀ : Asked p h l (r.state n)) : r.Arrives n h l := by
  refine .next h₀.toBoundary (transfers_of_not_xfer (h₀.free.xfer _)) h₀.decoderTrigger ?_
  have hnext := h₀.coming hp (r.resetn n)
  split_ifs at hnext with haligned
  · exact Coming.arrives hp hnext
  · exact Stray.arrives hp hnext haligned

theorem Unasked.arrives (hp : Plain p) (h₀ : Unasked p h l (r.state n)) : r.Arrives n h l := by
  refine .next h₀.toBoundary (transfers_of_not_xfer (h₀.free.xfer _)) h₀.decoderTrigger ?_
  have hnext := h₀.asked hp (r.resetn n)
  split_ifs at hnext with haligned
  · exact Asked.arrives hp hnext
  · exact Stray.arrives hp hnext haligned

theorem Launch.arrives (h₀ : Launch p h l (r.state n)) : r.Arrives n h l :=
  ⟨[], l, rfl, .here (.inl h₀)⟩

/-- The ways to stand between two instructions. -/
inductive Between (p : Params) (h : Hart) (l : List Event) (s : Machine) : Prop
  | unasked (h₀ : Unasked p h l s)
  | asked (h₀ : Asked p h l s)
  | coming (h₀ : Coming p h l s)
  | launch (h₀ : Launch p h l s)

theorem Between.arrives (hp : Plain p) (h₀ : Between p h l (r.state n)) : r.Arrives n h l := by
  cases h₀ with
  | unasked h₀ => exact h₀.arrives hp
  | asked h₀ => exact h₀.arrives hp
  | coming h₀ => exact h₀.arrives hp
  | launch h₀ => exact h₀.arrives

end

end PicoSoc.Picorv32
