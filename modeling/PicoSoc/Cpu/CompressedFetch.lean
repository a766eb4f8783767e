import PicoSoc.Cpu.FetchControl

set_option autoImplicit false

/-! # The instruction words of compressed code

The phases of the core between two instruction fetches (`Inv`), and from them that every word used
by the decoder is the one at `next_pc` (`fetches_delivered`). -/

namespace PicoSoc.Picorv32.Rvc

open Clocked

variable {p : Params} {code : BitVec 30 → BitVec 32} {x : Bool} {s : State} {i i' : Inputs}

/-! ## The phases -/

/-- The instruction at `next_pc` is decoded and waits in `fetch`. -/
structure Decoded (p : Params) (code : BitVec 30 → BitVec 32) (s : State) : Prop where
  state : s.core.main.cpuState = .fetch
  quiet : s.core.main.Quiet
  flow : s.core.main.latchedBranch = false ∧ s.core.main.irq.irqState = 0
  trigger : s.core.main.decoderTrigger = true ∨ p.enableIrq = true
    ∧ s.core.main.irq.doWaitirq = true ∧ s.core.first.instrWaitirq = true
  complete : Completed code (halfAddr s.core.main.regNextPc) s
  size : s.core.first.compressedInstr = !longAt code (halfAddr s.core.main.regNextPc)
  orderly : Orderly s.core.first
  second : s.core.main.decoderPseudoTrigger = true → s.core.second.Branching s.core.first

/-- The first cycle of an interrupt entry. -/
structure Entering (p : Params) (s : State) : Prop where
  enable : p.enableIrq = true
  state : s.core.main.cpuState = .fetch
  quiet : s.core.main.Quiet
  flow : s.core.main.latchedBranch = false ∧ s.core.main.latchedStore = false
    ∧ s.core.main.irq.irqState = 1
  rests : Rests s

/-- The program counter has just jumped. -/
structure Starting (p : Params) (s : State) : Prop where
  state : s.core.main.cpuState = .fetch
  idle : s.core.main.decoderTrigger = false ∧ s.core.main.irq.doWaitirq = false
  data : s.core.main.memDoPrefetch = false ∧ s.core.main.memDoRdata = false
    ∧ s.core.main.memDoWdata = false
  flow : s.core.main.latchedBranch = true ∧ s.core.main.irq.irqState = 0
    ∨ s.core.main.latchedBranch = false ∧ p.enableIrq = true ∧ s.core.main.irq.irqState = 2
  target : s.core.main.memDoRinst = true → s.core.main.latchedStore = true →
    s.core.main.latchedStalu = false
  rests : Rests s

/-- The core waits for the instruction at `next_pc`. -/
structure Seeking (p : Params) (code : BitVec 30 → BitVec 32) (s : State) (i : Inputs) : Prop where
  state : s.core.main.cpuState = .fetch
  idle : s.core.main.decoderTrigger = false ∧ s.core.main.irq.doWaitirq = false
  data : s.core.main.memDoRdata = false ∧ s.core.main.memDoWdata = false
  flow : s.core.main.latchedBranch = false ∧ s.core.main.irq.irqState = 0
  fetching : Fetching p code (halfAddr s.core.main.regNextPc) s.core.main.memDoPrefetch
    s.core.main.memDoRinst i.memRdata s

/-- The request for the next instruction in each of the states that execute one. -/
def Requests (p : Params) (m : Main) : Prop :=
  match m.cpuState with
  | .trap | .fetch => False
  | .ldRs1 | .ldRs2 | .shift => m.memDoRinst = false
  | .exec => m.memDoRinst = (m.memDoPrefetch && !m.ctl.waits p)
  | .stmem | .ldmem => m.memDoRinst = true ∧ m.memDoPrefetch = true

/-- An instruction is executed while the next one is prefetched. -/
structure Executing (p : Params) (code : BitVec 30 → BitVec 32) (x : Bool) (s : State)
    (i : Inputs) : Prop where
  requests : Requests p s.core.main
  calm : s.core.main.ctl.Calm s.core.main.memDoPrefetch (halfAddr s.core.main.regNextPc)
  flow : s.core.main.latchedBranch = false ∧ s.core.main.latchedStalu = false
  reads : Reads s.core s.core.main.memDoPrefetch
  started : s.core.main.cpuState ≠ .ldRs1 → s.core.main.memDoPrefetch = true →
    s.core.mem.memState ≠ .idle
  classes : if s.core.main.cpuState = .ldRs1 then
      s.core.first.isBeqBneBltBgeBltuBgeu = true → s.core.classes.isLuiAuipcJal = false
    else s.core.classes.isSltiBltSlt = (classify s.core.first s.core.second).isSltiBltSlt
      ∧ s.core.classes.isSltiuBltuSltu = (classify s.core.first s.core.second).isSltiuBltuSltu
  stage : s.core.main.cpuState = .exec → s.core.first.isBeqBneBltBgeBltuBgeu = true →
    Stage p x s.core
  fetching : Fetching p code (halfAddr s.core.main.regNextPc) s.core.main.memDoPrefetch
    s.core.main.memDoRinst i.memRdata s

/-- A load or a store accesses the memory; the next instruction is decoded. -/
structure Accesses (code : BitVec 30 → BitVec 32) (s : State) : Prop where
  state : s.core.main.cpuState = .stmem ∧ s.core.main.memDoRdata = false
      ∧ s.core.main.memDoWdata = true
    ∨ s.core.main.cpuState = .ldmem ∧ s.core.main.memDoRdata = true
      ∧ s.core.main.memDoWdata = false
  quiet : s.core.main.memDoPrefetch = false ∧ s.core.main.memDoRinst = false
  flow : s.core.main.latchedBranch = false ∧ s.core.main.irq.irqState = 0
  ready : Ready code (following code (halfAddr s.core.main.regNextPc)) s
  size : s.core.first.compressedInstr = !longAt code (halfAddr s.core.main.regNextPc)
  orderly : Orderly s.core.first
  second : s.core.second.Branching s.core.first
    ∨ s.core.main.decoderTrigger = true ∧ s.core.main.decoderPseudoTrigger = false
  accessing : Accessing s

/-- A taken branch waits for the access behind it to end. -/
structure Discards (p : Params) (x : Bool) (s : State) : Prop where
  state : s.core.main.cpuState = .exec
  branch : s.core.first.isBeqBneBltBgeBltuBgeu = true
  request : s.core.main.memDoRinst = true ∧ s.core.main.memDoRdata = false
    ∧ s.core.main.memDoWdata = false
  idle : s.core.main.decoderTrigger = false ∧ s.core.main.irq.irqState = 0
  flow : s.core.main.latchedBranch = true ∧ s.core.main.latchedStore = true
    ∧ s.core.main.latchedStalu = false
  waits : s.core.main.ctl.waits p = false
  target : s.core.main.regOut = s.core.main.regPc + s.core.second.decodedImm
  classes : s.core.classes.isSltiBltSlt = (classify s.core.first s.core.second).isSltiBltSlt
    ∧ s.core.classes.isSltiuBltuSltu = (classify s.core.first s.core.second).isSltiuBltuSltu
  settled : AluReady p s.core ∧ Compared p x s.core
  taken : ∀ i : Picorv32.Inputs, i.undef.aluOut0 = x → taken p s.core i = true
  discarding : Discarding s

/-- One of the phases, unless the core has trapped. -/
inductive Phase (p : Params) (code : BitVec 30 → BitVec 32) (x : Bool) (s : State)
    (i : Inputs) : Prop
  | trapped (h : s.core.main.cpuState = .trap)
  | decoded (h : Decoded p code s)
  | entering (h : Entering p s)
  | starting (h : Starting p s)
  | seeking (h : Seeking p code s i)
  | executing (h : Executing p code x s i)
  | accesses (h : Accesses code s)
  | discards (h : Discards p x s)

structure Inv (p : Params) (code : BitVec 30 → BitVec 32) (x : Bool) (s : State) (i : Inputs) :
    Prop where
  cleared : s.clearPrefetchedHighWordQ = true → s.prefetchedHighWord = false
  trapped : s.core.main.trap = true → s.core.main.cpuState = .trap
  aligned : p.catchMisalign = false → s.core.main.regPc &&& ~~~1#32 = s.core.main.regPc
  phase : Phase p code x s i

/-! ## The registers beside the requests -/

theorem firstStep_keep (hr : i.resetn = true)
    (h : (s.core.main.memDoRinst && memDone p s i) = false) : firstStep p s i = s.core.first := by
  simp [firstStep, hr, h]

theorem firstStep_new (hr : i.resetn = true)
    (h : (s.core.main.memDoRinst && memDone p s i) = true) :
    firstStep p s i = decodeFirst p (memRdataLatched p s i) := by
  simp [firstStep, hr, h]

theorem secondStep_keep (hr : i.resetn = true) (h : s.core.main.decoderTrigger = false) :
    secondStep p s i = s.core.second := by
  simp [secondStep, hr, decodes, h]

theorem secondStep_branching (hr : i.resetn = true) (hf : Orderly s.core.first)
    (h : s.core.second.Branching s.core.first
      ∨ s.core.main.decoderTrigger = true ∧ s.core.main.decoderPseudoTrigger = false) :
    (secondStep p s i).Branching s.core.first := by
  cases hd : decodes s.core
  · have h : s.core.second.Branching s.core.first := by
      rcases h with h | ⟨h₁, h₂⟩
      · exact h
      · simp [decodes, h₁, h₂] at hd
    simpa [secondStep, hr, hd] using h
  · simpa [secondStep, hr, hd] using decodeSecond_branching hf.2 i.undef

/-- What a completed fetch decodes. -/
theorem firstStep_delivered {a : BitVec 31} (hr : i.resetn = true)
    (h : (s.core.main.memDoRinst && memDone p s i) = true)
    (hd : Delivered code a (memRdataLatched p s i)) :
    (firstStep p s i).compressedInstr = (!longAt code a) ∧ Orderly (firstStep p s i) := by
  rw [firstStep_new hr h]
  exact ⟨by rw [decodeFirst_compressed, isLong_of_low hd.1], decodeFirst_orderly p _⟩

theorem clear_of_flow (hr : i.resetn = true) (hb : s.core.main.latchedBranch = false)
    (hq : s.core.main.irq.irqState = 0)
    (hc : s.clearPrefetchedHighWordQ = true → s.prefetchedHighWord = false) :
    clearPrefetchedHighWord s i = false := by
  cases hp : s.prefetchedHighWord <;> simp_all [clearPrefetchedHighWord]

/-! ## Traps -/

theorem mainStep_trapped (hr : i.resetn = true) (hc : s.core.main.cpuState = .trap) :
    (mainStep p s i).cpuState = .trap := by
  by_contra h
  have hctl := congrArg Ctl.cpuState (mainStep_ctl hr h)
  have hwork : (work p s i).main.cpuState = .trap := by
    have : (showing (memDone p s i) s.core).main.cpuState = .trap := hc
    simp only [work, cpuStateCase, this]
    exact hc
  exact h (hctl.trans hwork)

theorem mainStep_trap_state (hr : i.resetn = true) (ht : (mainStep p s i).trap = true) :
    (mainStep p s i).cpuState = .trap := by
  by_contra h
  obtain ⟨q, hq⟩ := mainStep_of_not_trap hr h
  have htrap : (work p s i).main.trap = true := by rw [hq] at ht; exact ht
  by_cases hc : s.core.main.cpuState = .trap
  · exact h (mainStep_trapped hr hc)
  · have hframe := (frame_cpuStateCase (p := p) (s := showing (memDone p s i) s.core)
      (i := shownTo i.toInputs)
      (w := defaults p (showing (memDone p s i) s.core) (shownTo i.toInputs)) hc).trap
    have hfalse : (work p s i).main.trap = false := hframe
    rw [hfalse] at htrap
    cases htrap

/-! ## Steps -/

/-- A cycle without reset or trap whose instruction accesses the code memory answers; `i'` is what
    the next cycle sees. -/
structure Edge (p : Params) (code : BitVec 30 → BitVec 32) (s : State) (i i' : Inputs) : Prop where
  resetn : i.resetn = true
  trap : s.core.main.trap = false
  cleared : s.clearPrefetchedHighWordQ = true → s.prefetchedHighWord = false
  answers : Answers code s i
  keeps : p.latchedMemRdata = true → (step p i s).core.mem.memValid = false →
    (s.core.mem.memValid = true → i.memReady = true) → i'.memRdata = i.memRdata
  stays : (mainStep p s i).cpuState ≠ .trap

/-- The main state machine as the core shows it `mem_done`. -/
abbrev shownCore (p : Params) (s : State) (i : Inputs) : Picorv32.State :=
  showing (memDone p s i) s.core

theorem work_fetch (hc : s.core.main.cpuState = .fetch) :
    work p s i = fetchState p (shownCore p s i)
      (defaults p (shownCore p s i) (shownTo i.toInputs)) := by
  have : (shownCore p s i).main.cpuState = .fetch := hc
  simp only [work, cpuStateCase, this]

theorem Edge.ctl (e : Edge p code s i i') :
    (step p i s).core.main.ctl = (work p s i).ctl (memDone p s i) :=
  mainStep_ctl e.resetn e.stays

theorem nextPc_of_flow (hb : s.core.main.latchedBranch = false) :
    nextPc s.core = s.core.main.regNextPc := by
  simp [nextPc, hb]

/-- The word arrives: the instruction is decoded. -/
theorem decoded_of_done {c : Ctl} {a : BitVec 31} (e : Edge p code s i i')
    (hctl : (step p i s).core.main.ctl = c) (hstate : c.cpuState = .fetch)
    (hquiet : c.prefetch = false ∧ c.rinst = false ∧ c.rdata = false ∧ c.wdata = false)
    (hflow : c.branch = false ∧ c.irqState = 0) (ht : c.trigger = true) (hp : c.pseudo = false)
    (hn : c.nextPc = a) (hdone : memDone p s i = true) (hrinst : s.core.main.memDoRinst = true)
    (hd : Delivered code a (memRdataLatched p s i)) (hcomplete : Completed code a (step p i s)) :
    Decoded p code (step p i s) := by
  subst hctl hn
  obtain ⟨hsize, horderly⟩ := firstStep_delivered e.resetn (by rw [hdone, hrinst]; rfl) hd
  exact ⟨hstate, hquiet, hflow, .inl ht, hcomplete, hsize, horderly, fun h => by
    have h : (step p i s).core.main.ctl.pseudo = true := h
    rw [hp] at h
    cases h⟩

theorem Seeking.sequential (h : Seeking p code s i) (e : Edge p code s i i') : Sequential s i :=
  ⟨e.resetn, e.trap, h.flow.1, h.flow.2, h.data.1, h.data.2, e.cleared⟩

theorem Seeking.step (h : Seeking p code s i) (e : Edge p code s i i') :
    Phase p code x (step p i s) i' := by
  have hpc : halfAddr (nextPc s.core) = halfAddr s.core.main.regNextPc := by
    rw [nextPc_of_flow h.flow.1]
  have hcycle := Fetching.cycle (h.sequential e) hpc e.answers h.fetching
  have hctl := e.ctl
  rw [work_fetch h.state, fetchState_seek (s := shownCore p s i) h.state h.idle.1 h.idle.2
    h.flow.1 h.flow.2, memDone_showing] at hctl
  cases hdone : memDone p s i
  · rw [hdone] at hctl
    have hn : halfAddr (Rvc.step p i s).core.main.regNextPc = halfAddr s.core.main.regNextPc :=
      congrArg Ctl.nextPc hctl
    have hp : (Rvc.step p i s).core.main.memDoPrefetch = s.core.main.memDoPrefetch :=
      congrArg Ctl.prefetch hctl
    have hri : (Rvc.step p i s).core.main.memDoRinst = true := congrArg Ctl.rinst hctl
    refine .seeking ⟨congrArg Ctl.cpuState hctl, ⟨?_, congrArg Ctl.doWaitirq hctl⟩, ⟨?_, ?_⟩,
      ⟨congrArg Ctl.branch hctl, congrArg Ctl.irqState hctl⟩, ?_⟩
    · exact (congrArg Ctl.trigger hctl).trans (Bool.and_false _)
    · exact (congrArg Ctl.rdata hctl).trans h.data.1
    · exact (congrArg Ctl.wdata hctl).trans h.data.2
    · rw [hn, hp, hri]
      exact hcycle.going hdone true i'.memRdata (fun _ => rfl) e.keeps
  · obtain ⟨hri, hd, hcomplete⟩ := hcycle.done hdone
    rw [hdone] at hctl
    exact .decoded (decoded_of_done e hctl rfl ⟨rfl, rfl, rfl, rfl⟩ ⟨rfl, rfl⟩
      (by exact (Bool.and_true _).trans hri) rfl rfl hdone hri hd hcomplete)

/-- The address of a jump is the one the access starts with. -/
theorem Starting.address (h : Starting p s) (hri : s.core.main.memDoRinst = true) :
    nextPc s.core = branchPc s.core := by
  rcases h.flow with ⟨hb, -⟩ | ⟨hb, -, -⟩
  · cases hs : s.core.main.latchedStore
    · simp [nextPc, branchPc, hb, hs]
    · simp [nextPc, branchPc, hb, hs, h.target hri hs]
  · simp [nextPc, branchPc, hb]

theorem Starting.step (h : Starting p s) (e : Edge p code s i i') :
    Phase p code x (step p i s) i' := by
  have hclear : clearPrefetchedHighWord s i = true := by
    rcases h.flow with ⟨hb, -⟩ | ⟨-, -, hq⟩
    · simp [clearPrefetchedHighWord, hb]
    · simp [clearPrefetchedHighWord, hq]
  have hdone : memDone p s i = false := h.rests.not_done
  have hctl := e.ctl
  rw [work_fetch h.state, fetchState_start (s := shownCore p s i) h.state h.idle.1 h.idle.2
    h.flow, memDone_showing, hdone] at hctl
  have hn : halfAddr (Rvc.step p i s).core.main.regNextPc = halfAddr (branchPc s.core) :=
    congrArg Ctl.nextPc hctl
  have hp : (Rvc.step p i s).core.main.memDoPrefetch = false :=
    (congrArg Ctl.prefetch hctl).trans h.data.1
  have hri : (Rvc.step p i s).core.main.memDoRinst = true := congrArg Ctl.rinst hctl
  refine .seeking ⟨congrArg Ctl.cpuState hctl, ⟨?_, congrArg Ctl.doWaitirq hctl⟩, ⟨?_, ?_⟩,
    ⟨congrArg Ctl.branch hctl, congrArg Ctl.irqState hctl⟩, ?_⟩
  · exact (congrArg Ctl.trigger hctl).trans (Bool.and_false _)
  · exact (congrArg Ctl.rdata hctl).trans h.data.2.1
  · exact (congrArg Ctl.wdata hctl).trans h.data.2.2
  · rw [hn, hp, hri]
    exact start_cycle e.resetn e.trap h.data.2.1 h.data.2.2 h.data.1 hclear h.rests
      fun hri => ⟨rfl, by rw [h.address hri]⟩

theorem Entering.step (h : Entering p s) (e : Edge p code s i i') :
    Phase p code x (step p i s) i' := by
  obtain ⟨hp, hri, hd, hw⟩ := h.quiet
  have hdone : memDone p s i = false := h.rests.not_done
  have hctl := e.ctl
  rw [work_fetch h.state, fetchState_enter (s := shownCore p s i) h.enable h.state h.flow.1
    h.flow.2.1 h.flow.2.2, memDone_showing, hdone] at hctl
  have hstore : (Rvc.step p i s).core.main.latchedStore = false := congrArg Ctl.store hctl
  refine .starting ⟨congrArg Ctl.cpuState hctl, ⟨?_, congrArg Ctl.doWaitirq hctl⟩, ⟨?_, ?_, ?_⟩,
    .inr ⟨congrArg Ctl.branch hctl, h.enable, congrArg Ctl.irqState hctl⟩, fun _ hs => ?_,
    (quiet_cycle e.resetn e.trap ⟨hp, hri, hd, hw⟩ h.rests).1⟩
  · exact (congrArg Ctl.trigger hctl).trans (Bool.and_false _)
  · exact (congrArg Ctl.prefetch hctl).trans hp
  · exact (congrArg Ctl.rdata hctl).trans hd
  · exact (congrArg Ctl.wdata hctl).trans hw
  · rw [hstore] at hs
    cases hs

theorem halfAddr_insnSize {a : BitVec 31} {pc : BitVec 32} (ha : halfAddr pc = a)
    (hsize : s.core.first.compressedInstr = !longAt code a) :
    halfAddr (pc + insnSize s.core) = following code a := by
  cases hl : longAt code a
  · rw [hl] at hsize
    rw [insnSize, following, hsize, hl, Bool.not_false, if_pos rfl, if_neg (by simp),
      halfAddr_add_two, ha]
  · rw [hl] at hsize
    rw [insnSize, following, hsize, hl, Bool.not_true, if_neg (by simp), if_pos rfl,
      halfAddr_add_four, ha]

/-- A completed fetch lasts while nothing is requested. -/
theorem Completed.keep {a : BitVec 31} (h : Completed code a s) (hrests : Rests (step p i s))
    (hkeep : (step p i s).prefetchedHighWord = s.prefetchedHighWord
      ∧ (step p i s).mem16bitBuffer = s.mem16bitBuffer) : Completed code a (step p i s) := by
  refine ⟨hrests.idle, hrests.valid, hrests.secondword, fun hodd => ?_⟩
  rw [hkeep.1, hkeep.2]
  exact h.ready hodd

theorem Decoded.step (h : Decoded p code s) (e : Edge p code s i i') :
    Phase p code x (step p i s) i' := by
  obtain ⟨hp, hri, hd, hw⟩ := h.quiet
  have hdone : memDone p s i = false := h.complete.rests.not_done
  have hclear := clear_of_flow (i := i) e.resetn h.flow.1 h.flow.2 e.cleared
  obtain ⟨hrests, hkeep⟩ := quiet_cycle (p := p) e.resetn e.trap ⟨hp, hri, hd, hw⟩ h.complete.rests
  have hcomplete := h.complete.keep hrests (hkeep hclear)
  have hfirst : (Rvc.step p i s).core.first = s.core.first :=
    firstStep_keep e.resetn (by rw [hri, Bool.false_and])
  have hsize := halfAddr_insnSize rfl h.size
  have hctl := e.ctl
  rw [work_fetch h.state, hdone] at hctl
  obtain ⟨⟨hrd, hwd⟩, htrigger, hpseudo, ⟨hsr, hsw⟩, hpre⟩ :=
    @fetchState_rested p (shownCore p s i) (shownTo i.toInputs)
  have hdisp := @fetchState_dispatch p (shownCore p s i) (shownTo i.toInputs) h.state h.trigger
    h.flow.1 h.flow.2
  rw [← hctl] at hdisp
  have htrigger' : (Rvc.step p i s).core.main.decoderTrigger = false :=
    (congrArg Ctl.trigger hctl).trans (htrigger.trans (by
      have : (shownCore p s i).main.memDoRinst = false := hri
      rw [this, Bool.false_and]))
  have hpseudo' : (Rvc.step p i s).core.main.decoderPseudoTrigger = false :=
    (congrArg Ctl.pseudo hctl).trans hpseudo
  have hrd' : (Rvc.step p i s).core.main.memDoRdata = false := by
    refine (congrArg Ctl.rdata hctl).trans ?_
    simp only [Work.ctl, hsr, hrd]
    exact hd
  have hwd' : (Rvc.step p i s).core.main.memDoWdata = false := by
    refine (congrArg Ctl.wdata hctl).trans ?_
    simp only [Work.ctl, hsw, hwd]
    exact hw
  have hpre' : (Rvc.step p i s).core.main.cpuState = .fetch →
      (Rvc.step p i s).core.main.memDoPrefetch = false := by
    intro hc
    refine (congrArg Ctl.prefetch hctl).trans ?_
    simp only [Work.ctl, hpre ((congrArg Ctl.cpuState hctl).symm.trans hc)]
    exact hp
  -- what the fetch state does with the decoded instruction
  cases hdisp with
  | irq hen hc hr hflow =>
    exact .entering ⟨hen, hc, ⟨hpre' hc, hr, hrd', hwd'⟩, hflow, hrests⟩
  | waiting hen hf hc hr hflow hwait hn =>
    have hn : halfAddr (Rvc.step p i s).core.main.regNextPc = halfAddr s.core.main.regNextPc := hn
    refine .decoded ⟨hc, ⟨hpre' hc, hr, hrd', hwd'⟩, hflow, .inr ⟨hen, hwait, ?_⟩, ?_, ?_, ?_, ?_⟩
    · rw [hfirst]; exact hf
    · rw [hn]; exact hcomplete
    · rw [hn, hfirst]; exact h.size
    · rw [hfirst]; exact h.orderly
    · intro hps
      rw [hpseudo'] at hps
      cases hps
  | next hc hflow hwait hn =>
    have hn : halfAddr (Rvc.step p i s).core.main.regNextPc
        = following code (halfAddr s.core.main.regNextPc) := hn.trans hsize
    refine .seeking ⟨hc, ⟨htrigger', hwait⟩, ⟨hrd', hwd'⟩, hflow, ?_⟩
    rw [hn]
    exact hcomplete.fetching
  | jump hc hflow hwait =>
    refine .starting ⟨hc, ⟨htrigger', hwait⟩, ⟨hpre' hc, hrd', hwd'⟩, .inl ⟨hflow.1, hflow.2.2⟩,
      fun _ hs => ?_, hrests⟩
    have hstore : (Rvc.step p i s).core.main.latchedStore = false := hflow.2.1
    rw [hstore] at hs
    cases hs
  | execute ht hc hr hflow hwait hn hpre =>
    have hc : (Rvc.step p i s).core.main.cpuState = .ldRs1 := hc
    have hn : halfAddr (Rvc.step p i s).core.main.regNextPc
        = following code (halfAddr s.core.main.regNextPc) := hn.trans hsize
    have hpre : (Rvc.step p i s).core.main.memDoPrefetch
        = (!s.core.first.instrJalr && !s.core.first.instrRetirq) := hpre
    -- the second decoder stage knows a branch, now or since the trigger
    have hsecond : (Rvc.step p i s).core.second.Branching s.core.first := by
      refine secondStep_branching e.resetn h.orderly ?_
      cases hps : s.core.main.decoderPseudoTrigger
      · exact .inr ⟨ht, rfl⟩
      · exact .inl (h.second hps)
    refine .executing ⟨?_, ⟨rfl, ⟨hrd', hwd'⟩, htrigger', ⟨hflow.2.2, hwait⟩, rfl⟩,
      ⟨hflow.1, hflow.2.1⟩, ⟨rfl, fun hj => ?_, fun hj hq => ?_, ?_, ?_⟩,
      fun hne => absurd hc hne, ?_, fun hx => ?_, ?_⟩
    · simp only [Requests, hc]
      exact hr
    · rw [hfirst] at hj
      rcases hj with hj | hj <;> simp [hpre, hj]
    · rw [hfirst] at hj hq
      simp [hpre, hj, hq]
    · rw [hfirst]; exact h.orderly
    · rw [hfirst]; exact hsecond
    · rw [if_pos hc, hfirst]
      intro hbr
      obtain ⟨h₁, h₂, h₃, -⟩ := h.orderly.2 hbr
      cases hdec : decodes s.core <;> simp [Rvc.step, classesStep, e.resetn, hdec, classify, h₁, h₂, h₃]
    · rw [hc] at hx
      cases hx
    · rw [hn]
      exact hcomplete.fetching

/-! ### The execution of an instruction -/

theorem Executing.sequential (h : Executing p code x s i) (e : Edge p code s i i') :
    Sequential s i :=
  ⟨e.resetn, e.trap, h.flow.1, h.calm.irq.1, h.calm.data.1, h.calm.data.2, e.cleared⟩

theorem Executing.cycle (h : Executing p code x s i) (e : Edge p code s i i') :
    Cycle p code (halfAddr s.core.main.regNextPc) s i :=
  Fetching.cycle (h.sequential e) (by rw [nextPc_of_flow h.flow.1]) e.answers h.fetching

/-- In the states that have not requested the next instruction. -/
theorem Executing.not_done (h : Executing p code x s i) (hri : s.core.main.memDoRinst = false) :
    memDone p s i = false := by
  simp [memDone, hri, show s.core.main.memDoRdata = false from h.calm.data.1,
    show s.core.main.memDoWdata = false from h.calm.data.2]

theorem classesStep_keep (hr : i.resetn = true) (ht : s.core.main.decoderTrigger = false) :
    classesStep s.core i.toInputs = classify s.core.first s.core.second := by
  simp [classesStep, hr, decodes, ht]

/-- The next state executes the same instruction. -/
theorem Executing.next (h : Executing p code x s i) (e : Edge p code s i i')
    (hdone : memDone p s i = false) (hreq : Requests p (step p i s).core.main)
    (hcalm : (step p i s).core.main.ctl.Calm s.core.main.memDoPrefetch
      (halfAddr s.core.main.regNextPc))
    (hflow : (step p i s).core.main.latchedBranch = false
      ∧ (step p i s).core.main.latchedStalu = false)
    (hri : s.core.main.memDoRinst = true → (step p i s).core.main.memDoRinst = true)
    (hstage : (step p i s).core.main.cpuState = .exec →
      s.core.first.isBeqBneBltBgeBltuBgeu = true → Stage p x (step p i s).core) :
    Executing p code x (step p i s) i' := by
  have hcycle := h.cycle e
  have ht : s.core.main.decoderTrigger = false := h.calm.trigger
  have hfirst : (Rvc.step p i s).core.first = s.core.first :=
    firstStep_keep e.resetn (by rw [hdone, Bool.and_false])
  have hsecond : (Rvc.step p i s).core.second = s.core.second := secondStep_keep e.resetn ht
  have hclasses : (Rvc.step p i s).core.classes = classify s.core.first s.core.second :=
    classesStep_keep e.resetn ht
  have hp : (Rvc.step p i s).core.main.memDoPrefetch = s.core.main.memDoPrefetch := hcalm.prefetch
  have hn : halfAddr (Rvc.step p i s).core.main.regNextPc = halfAddr s.core.main.regNextPc :=
    hcalm.nextPc
  refine ⟨hreq, ?_, hflow, ⟨rfl, ?_, ?_, ?_, ?_⟩, fun _ hpre => ?_, ?_, ?_, ?_⟩
  · rw [hp, hn]; exact hcalm
  · rw [hfirst, hp]; exact h.reads.quiet
  · rw [hfirst, hp]; exact h.reads.asked
  · rw [hfirst]; exact h.reads.orderly
  · rw [hfirst, hsecond]; exact h.reads.second
  · rw [hp] at hpre
    -- a prefetch has left the idle state, with a request or without
    cases hri' : s.core.main.memDoRinst
    · have hf := h.fetching
      rw [hpre, hri'] at hf
      exact prefetch_started (h.sequential e) hpre hri' hf
    · have hstarted : s.core.mem.memState ≠ .idle := by
        refine h.started (fun hc => ?_) hpre
        have := h.requests
        simp only [Requests, hc, hri'] at this
        cases this
      rw [(hcycle.busy hdone hri' hpre hstarted).1]
      decide
  · rw [hfirst, hsecond, hclasses]
    split
    case isTrue =>
      intro hbr
      obtain ⟨h₁, h₂, h₃, -⟩ := h.reads.orderly.2 hbr
      simp [classify, h₁, h₂, h₃]
    case isFalse => exact ⟨rfl, rfl⟩
  · rw [hfirst]
    exact hstage
  · rw [hp, hn]
    exact hcycle.going hdone _ i'.memRdata hri e.keeps

/-- Back in `fetch` the core waits for the next instruction. -/
theorem Executing.seeks (h : Executing p code x s i) (e : Edge p code s i i')
    (hdone : memDone p s i = false) (hc : (step p i s).core.main.cpuState = .fetch)
    (hcalm : (step p i s).core.main.ctl.Calm s.core.main.memDoPrefetch
      (halfAddr s.core.main.regNextPc))
    (hb : (step p i s).core.main.latchedBranch = false)
    (hri : s.core.main.memDoRinst = true → (step p i s).core.main.memDoRinst = true) :
    Seeking p code (step p i s) i' := by
  have hp : (Rvc.step p i s).core.main.memDoPrefetch = s.core.main.memDoPrefetch := hcalm.prefetch
  have hn : halfAddr (Rvc.step p i s).core.main.regNextPc = halfAddr s.core.main.regNextPc :=
    hcalm.nextPc
  refine ⟨hc, ⟨hcalm.trigger, hcalm.irq.2⟩, hcalm.data, ⟨hb, hcalm.irq.1⟩, ?_⟩
  rw [hp, hn]
  exact (h.cycle e).going hdone _ i'.memRdata hri e.keeps

/-- `jalr` and `retirq` jump without having requested anything. -/
theorem Executing.jumps (h : Executing p code x s i) (e : Edge p code s i i')
    (hc : (step p i s).core.main.cpuState = .fetch)
    (hcalm : (step p i s).core.main.ctl.Calm s.core.main.memDoPrefetch
      (halfAddr s.core.main.regNextPc))
    (hb : (step p i s).core.main.latchedBranch = true)
    (hp : s.core.main.memDoPrefetch = false) (hri : s.core.main.memDoRinst = false)
    (hri' : (step p i s).core.main.memDoRinst = false) : Starting p (step p i s) := by
  have hf := h.fetching
  rw [hp, hri] at hf
  have hrests := (quiet_cycle (p := p) e.resetn e.trap ⟨hp, hri, h.calm.data⟩ hf.rests).1
  exact ⟨hc, ⟨hcalm.trigger, hcalm.irq.2⟩, ⟨hcalm.prefetch.trans hp, hcalm.data⟩,
    .inl ⟨hb, hcalm.irq.1⟩, fun h => absurd (hri'.symm.trans h) (by simp), hrests⟩

/-- The states `ld_rs1` and `ld_rs2`. -/
theorem Executing.leaves (h : Executing p code x s i) (e : Edge p code s i i')
    (hri : s.core.main.memDoRinst = false)
    (hl : (step p i s).core.main.ctl.Leaves p s.core.first s.core.main.memDoPrefetch
      (halfAddr s.core.main.regNextPc)) : Phase p code x (step p i s) i' := by
  obtain ⟨hcalm, hl⟩ := hl
  have hdone := h.not_done (i := i) hri
  have hri' : s.core.main.memDoRinst = true → (Rvc.step p i s).core.main.memDoRinst = true := by
    intro h
    rw [hri] at h
    cases h
  have hstate : (Rvc.step p i s).core.main.ctl.cpuState = (Rvc.step p i s).core.main.cpuState := rfl
  rw [hstate] at hl
  cases hc : (Rvc.step p i s).core.main.cpuState <;> rw [hc] at hl
  · exact .trapped hc
  · cases hb : (Rvc.step p i s).core.main.latchedBranch
    · exact .seeking (h.seeks e hdone hc hcalm hb hri')
    · obtain ⟨hp, hr⟩ := hl hb
      exact .starting (h.jumps e hc hcalm hb hp hri hr)
  · refine .executing (h.next e hdone ?_ hcalm ⟨hl.1, hl.2.1⟩ hri' fun hx => ?_)
    · simp only [Requests, hc]; exact hl.2.2
    · rw [hc] at hx; cases hx
  · refine .executing (h.next e hdone ?_ hcalm ⟨hl.1, hl.2.1⟩ hri' fun hx => ?_)
    · simp only [Requests, hc]; exact hl.2.2
    · rw [hc] at hx; cases hx
  · obtain ⟨⟨hb, hst, hr⟩, hent⟩ := hl
    refine .executing (h.next e hdone ?_ hcalm ⟨hb, hst⟩ hri' fun _ hbr => ?_)
    · simp only [Requests, hc]
      refine Eq.trans hr ?_
      rw [show (Rvc.step p i s).core.main.memDoPrefetch = _ from hcalm.prefetch]
    · exact stage_of_entered (hent hbr).1 (hent hbr).2
  · refine .executing (h.next e hdone ?_ hcalm ⟨hl.1, hl.2.1⟩ hri' fun hx => ?_)
    · simp only [Requests, hc]; exact hl.2.2
    · rw [hc] at hx; cases hx
  · refine .executing (h.next e hdone ?_ hcalm ⟨hl.1, hl.2.1⟩ hri' fun hx => ?_)
    · simp only [Requests, hc]
      exact ⟨hl.2.2.1, hcalm.prefetch.trans hl.2.2.2⟩
    · rw [hc] at hx; cases hx
  · refine .executing (h.next e hdone ?_ hcalm ⟨hl.1, hl.2.1⟩ hri' fun hx => ?_)
    · simp only [Requests, hc]
      exact ⟨hl.2.2.1, hcalm.prefetch.trans hl.2.2.2⟩
    · rw [hc] at hx; cases hx

theorem Executing.work_calm (h : Executing p code x s i) (hri : s.core.main.memDoRinst = false) :
    (defaults p (shownCore p s i) (shownTo i.toInputs)).Calm s.core.main.memDoPrefetch
      (halfAddr s.core.main.regNextPc) := by
  refine ⟨⟨rfl, h.calm.data, ?_, ⟨h.calm.irq.1, rfl⟩, rfl⟩, h.flow, ⟨hri, rfl⟩, ⟨rfl, rfl⟩⟩
  have : (shownCore p s i).main.memDoRinst = false := hri
  simp [Work.ctl, Main.ctl, defaults, this]

theorem Executing.shown_reads (h : Executing p code x s i) :
    Reads (shownCore p s i) s.core.main.memDoPrefetch :=
  ⟨rfl, h.reads.quiet, h.reads.asked, h.reads.orderly, h.reads.second⟩

theorem Executing.step_ldRs1 (h : Executing p code x s i) (e : Edge p code s i i')
    (hc : s.core.main.cpuState = .ldRs1) : Phase p code x (step p i s) i' := by
  have hri : s.core.main.memDoRinst = false := by simpa only [Requests, hc] using h.requests
  have hlui : s.core.first.isBeqBneBltBgeBltuBgeu = true → s.core.classes.isLuiAuipcJal = false := by
    have := h.classes
    rwa [if_pos hc] at this
  refine h.leaves e hri ?_
  have hwork : work p s i = ldRs1State p (shownCore p s i) (shownTo i.toInputs)
      (defaults p (shownCore p s i) (shownTo i.toInputs)) := by
    have : (shownCore p s i).main.cpuState = .ldRs1 := hc
    simp only [work, cpuStateCase, this]
  rw [e.ctl, hwork, h.not_done hri]
  exact leaves_ldRs1State (s := shownCore p s i) h.shown_reads (h.work_calm hri) hc hlui

theorem Executing.step_ldRs2 (h : Executing p code x s i) (e : Edge p code s i i')
    (hc : s.core.main.cpuState = .ldRs2) : Phase p code x (step p i s) i' := by
  have hri : s.core.main.memDoRinst = false := by simpa only [Requests, hc] using h.requests
  refine h.leaves e hri ?_
  have hwork : work p s i = ldRs2State p (shownCore p s i) (shownTo i.toInputs)
      (defaults p (shownCore p s i) (shownTo i.toInputs)) := by
    have : (shownCore p s i).main.cpuState = .ldRs2 := hc
    simp only [work, cpuStateCase, this]
  rw [e.ctl, hwork, h.not_done hri]
  exact leaves_ldRs2State (s := shownCore p s i) h.shown_reads (h.work_calm hri) hc

theorem Executing.step_shift (h : Executing p code x s i) (e : Edge p code s i i')
    (hc : s.core.main.cpuState = .shift) : Phase p code x (step p i s) i' := by
  have hri : s.core.main.memDoRinst = false := by simpa only [Requests, hc] using h.requests
  have hdone := h.not_done (i := i) hri
  have hwork : work p s i = shiftState p (shownCore p s i)
      (defaults p (shownCore p s i) (shownTo i.toInputs)) := by
    have : (shownCore p s i).main.cpuState = .shift := hc
    simp only [work, cpuStateCase, this]
  have hctl := e.ctl
  rw [hwork, hdone, shiftState_ctl (s := shownCore p s i) hri] at hctl
  have hcalm : (Rvc.step p i s).core.main.ctl.Calm s.core.main.memDoPrefetch
      (halfAddr s.core.main.regNextPc) := by
    rw [hctl]
    exact ⟨rfl, h.calm.data, rfl, ⟨h.calm.irq.1, rfl⟩, rfl⟩
  have hri' : s.core.main.memDoRinst = true → (Rvc.step p i s).core.main.memDoRinst = true := by
    intro h
    rw [hri] at h
    cases h
  by_cases h0 : (s.core.main.regSh == 0) = true
  · have hstate : (Rvc.step p i s).core.main.cpuState = .fetch :=
      (congrArg Ctl.cpuState hctl).trans (if_pos h0)
    exact .seeking (h.seeks e hdone hstate hcalm ((congrArg Ctl.branch hctl).trans h.flow.1) hri')
  · have hstate : (Rvc.step p i s).core.main.cpuState = .shift :=
      ((congrArg Ctl.cpuState hctl).trans (if_neg h0)).trans hc
    refine .executing (h.next e hdone ?_ hcalm ⟨(congrArg Ctl.branch hctl).trans h.flow.1,
      (congrArg Ctl.stalu hctl).trans h.flow.2⟩ hri' fun hx => ?_)
    · simp only [Requests, hstate]
      refine (congrArg Ctl.rinst hctl).trans ?_
      simp only [Bool.not_eq_true] at h0
      exact (congrArg (· && _) h0).trans rfl
    · rw [hstate] at hx
      cases hx

/-! ### The state `exec` -/

theorem work_exec (hc : s.core.main.cpuState = .exec) :
    work p s i = execState p (shownCore p s i) (shownTo i.toInputs)
      (defaults p (shownCore p s i) (shownTo i.toInputs)) := by
  have : (shownCore p s i).main.cpuState = .exec := hc
  simp only [work, cpuStateCase, this]

/-- `exec` keeps the operands and computes the target of a branch. -/
structure ExecRegisters (p : Params) (s : State) (i : Inputs) (m : Main) : Prop where
  ops : m.regOp1 = s.core.main.regOp1 ∧ m.regOp2 = s.core.main.regOp2
  outcome : m.aluOut0Q = aluOut0 p s.core i.toInputs
  target : m.regOut = s.core.main.regPc + s.core.second.decodedImm
  regPc : m.regPc = if p.catchMisalign then s.core.main.regPc else s.core.main.regPc &&& ~~~1#32

theorem exec_registers (hr : i.resetn = true) (hc : s.core.main.cpuState = .exec)
    (hstays : (mainStep p s i).cpuState ≠ .trap) : ExecRegisters p s i (mainStep p s i) := by
  obtain ⟨q, hq⟩ := mainStep_of_not_trap hr hstays
  have hkeep : (work p s i).main.regOp1 = s.core.main.regOp1
      ∧ (work p s i).main.regOp2 = s.core.main.regOp2
      ∧ (work p s i).main.aluOut0Q = aluOut0 p s.core i.toInputs
      ∧ (work p s i).main.regOut = s.core.main.regPc + s.core.second.decodedImm
      ∧ (work p s i).main.regPc = s.core.main.regPc := by
    rw [work_exec hc]
    unfold execState
    dsimp only
    refine ⟨?_, ?_, ?_, ?_, ?_⟩
    · exact field_ite (·.main.regOp1) rfl (field_ite (·.main.regOp1) rfl rfl)
    · exact field_ite (·.main.regOp2) rfl (field_ite (·.main.regOp2) rfl rfl)
    · exact field_ite (·.main.aluOut0Q) rfl (field_ite (·.main.aluOut0Q) rfl rfl)
    · exact field_ite (·.main.regOut) rfl (field_ite (·.main.regOut) rfl rfl)
    · exact field_ite (·.main.regPc) rfl (field_ite (·.main.regPc) rfl rfl)
  obtain ⟨h₁, h₂, h₃, h₄, h₅⟩ := hkeep
  rw [hq]
  refine ⟨⟨h₁, h₂⟩, h₃, h₄, ?_⟩
  rw [← h₅]
  rfl

/-- A comparison reads the same registers in the next cycle. -/
theorem exec_sameOperands (e : Edge p code s i i') (hc : s.core.main.cpuState = .exec)
    (ht : s.core.main.decoderTrigger = false)
    (hclasses : s.core.classes.isSltiBltSlt = (classify s.core.first s.core.second).isSltiBltSlt
      ∧ s.core.classes.isSltiuBltuSltu = (classify s.core.first s.core.second).isSltiuBltuSltu) :
    SameOperands s.core (step p i s).core := by
  have hreg := exec_registers e.resetn hc e.stays
  have hnext : (Rvc.step p i s).core.classes = classify s.core.first s.core.second :=
    classesStep_keep e.resetn ht
  refine ⟨secondStep_keep e.resetn ht, hreg.ops, ?_⟩
  rw [hnext]
  exact ⟨hclasses.1.symm, hclasses.2.symm⟩

theorem Executing.compare (h : Executing p code x s i) (hc : s.core.main.cpuState = .exec) :
    s.core.classes.isSltiBltSlt = (classify s.core.first s.core.second).isSltiBltSlt
      ∧ s.core.classes.isSltiuBltuSltu
        = (classify s.core.first s.core.second).isSltiuBltuSltu := by
  have := h.classes
  rwa [if_neg (by rw [hc]; decide)] at this

/-- The ALU is not ready. -/
theorem Executing.step_wait (h : Executing p code x s i) (e : Edge p code s i i')
    (hx : i.undef.aluOut0 = x) (hc : s.core.main.cpuState = .exec)
    (hw : s.core.main.ctl.waits p = true) : Phase p code x (step p i s) i' := by
  have hri : s.core.main.memDoRinst = false := by
    have := h.requests
    simp only [Requests, hc] at this
    rw [this, hw, Bool.not_true, Bool.and_false]
  have hdone := h.not_done (i := i) hri
  have hctl := e.ctl
  rw [work_exec hc, hdone, execState_wait (s := shownCore p s i) hw] at hctl
  have hcalm : (Rvc.step p i s).core.main.ctl.Calm s.core.main.memDoPrefetch
      (halfAddr s.core.main.regNextPc) := by
    rw [hctl]
    refine ⟨rfl, h.calm.data, ?_, ⟨h.calm.irq.1, rfl⟩, rfl⟩
    exact (congrArg (· && _) hri).trans rfl
  have hstate : (Rvc.step p i s).core.main.cpuState = .exec :=
    (congrArg Ctl.cpuState hctl).trans hc
  have hwait : (Rvc.step p i s).core.main.aluWait = s.core.main.aluWait2 :=
    congrArg Ctl.aluWait hctl
  have hwait2 : (Rvc.step p i s).core.main.aluWait2 = false := congrArg Ctl.aluWait2 hctl
  have hslow : (p.twoCycleAlu || p.twoCycleCompare) = true := (Bool.and_eq_true_iff.mp hw).1
  refine .executing (h.next e hdone ?_ hcalm ⟨(congrArg Ctl.branch hctl).trans h.flow.1,
    (congrArg Ctl.stalu hctl).trans h.flow.2⟩ (fun h => by rw [hri] at h; cases h) fun _ hbr => ?_)
  · have hrinst : (Rvc.step p i s).core.main.memDoRinst
        = (s.core.main.memDoPrefetch && !s.core.main.aluWait2) := congrArg Ctl.rinst hctl
    have hpre : (Rvc.step p i s).core.main.memDoPrefetch = s.core.main.memDoPrefetch :=
      hcalm.prefetch
    simp only [Requests, hstate]
    rw [hrinst, hpre]
    simp only [Ctl.waits, Main.ctl, hslow, hwait, hwait2, Bool.true_and, Bool.or_false]
  · exact stage_step (h.stage hc hbr) hw
      (exec_sameOperands e hc h.calm.trigger (h.compare hc)) rfl
      (exec_registers e.resetn hc e.stays).outcome hx ⟨hwait, hwait2⟩

/-- Anything but a branch goes back to `fetch`. -/
theorem Executing.step_end (h : Executing p code x s i) (e : Edge p code s i i')
    (hc : s.core.main.cpuState = .exec) (hw : s.core.main.ctl.waits p = false)
    (hbr : s.core.first.isBeqBneBltBgeBltuBgeu = false) : Phase p code x (step p i s) i' := by
  have hri : s.core.main.memDoRinst = s.core.main.memDoPrefetch := by
    have := h.requests
    simp only [Requests, hc] at this
    rw [this, hw, Bool.not_false, Bool.and_true]
  have hcycle := h.cycle e
  have hctl := e.ctl
  rw [work_exec hc, execState_end (s := shownCore p s i) hw hbr, memDone_showing] at hctl
  cases hdone : memDone p s i
  · rw [hdone] at hctl
    have hcalm : (Rvc.step p i s).core.main.ctl.Calm s.core.main.memDoPrefetch
        (halfAddr s.core.main.regNextPc) := by
      rw [hctl]
      exact ⟨rfl, h.calm.data, Bool.and_false _, ⟨h.calm.irq.1, rfl⟩, rfl⟩
    have hrinst : (Rvc.step p i s).core.main.memDoRinst = s.core.main.memDoRinst :=
      congrArg Ctl.rinst hctl
    cases hj : s.core.first.instrJalr
    · exact .seeking (h.seeks e hdone (congrArg Ctl.cpuState hctl) hcalm
        ((congrArg Ctl.branch hctl).trans hj) fun h => hrinst.trans h)
    · have hp := h.reads.quiet (.inl hj)
      rw [hp] at hri
      exact .starting (h.jumps e (congrArg Ctl.cpuState hctl) hcalm
        ((congrArg Ctl.branch hctl).trans hj) hp hri (hrinst.trans hri))
  · obtain ⟨hri', hd, hcomplete⟩ := hcycle.done hdone
    rw [hdone] at hctl
    have hj : s.core.first.instrJalr = false := by
      cases hj : s.core.first.instrJalr
      · rfl
      · rw [hri, h.reads.quiet (.inl hj)] at hri'
        cases hri'
    refine .decoded (decoded_of_done e hctl rfl ⟨rfl, rfl, ?_, ?_⟩ ⟨hj, h.calm.irq.1⟩ ?_ rfl rfl
      hdone hri' hd hcomplete)
    · rfl
    · rfl
    · exact (Bool.and_true _).trans hri'

theorem stage_of_settled {s : Picorv32.State} (h : AluReady p s ∧ Compared p x s)
    (h1 : s.main.aluWait = false) (h2 : s.main.aluWait2 = false) : Stage p x s := by
  unfold Stage
  rw [h1, h2, if_neg (by simp), if_neg (by simp)]
  exact h

/-- A branch: taken or not, with the next instruction there or not. -/
theorem Executing.step_branch (h : Executing p code x s i) (e : Edge p code s i i')
    (ha : p.catchMisalign = false → s.core.main.regPc &&& ~~~1#32 = s.core.main.regPc)
    (hx : i.undef.aluOut0 = x) (hc : s.core.main.cpuState = .exec)
    (hw : s.core.main.ctl.waits p = false)
    (hbr : s.core.first.isBeqBneBltBgeBltuBgeu = true) : Phase p code x (step p i s) i' := by
  have hri : s.core.main.memDoRinst = s.core.main.memDoPrefetch := by
    have := h.requests
    simp only [Requests, hc] at this
    rw [this, hw, Bool.not_false, Bool.and_true]
  have hcycle := h.cycle e
  have hreg := exec_registers e.resetn hc e.stays
  have hsame := exec_sameOperands e hc h.calm.trigger (h.compare hc)
  -- the comparison has settled, so the ALU gives the same outcome in every cycle from now on
  have hsettled := (h.stage hc hbr).settled hw
  have hsettled' := settled_step hsettled hsame rfl hreg.outcome hx
  have hctl := e.ctl
  have htk : Picorv32.taken p (shownCore p s i) (shownTo i.toInputs)
      = Picorv32.taken p s.core i.toInputs := rfl
  rw [work_exec hc, execState_branch (s := shownCore p s i) hw hbr, memDone_showing, htk] at hctl
  have hwait : (Rvc.step p i s).core.main.aluWait = false := congrArg Ctl.aluWait hctl
  have hwait2 : (Rvc.step p i s).core.main.aluWait2 = false := congrArg Ctl.aluWait2 hctl
  have hwaits : (Rvc.step p i s).core.main.ctl.waits p = false := by
    simp [Ctl.waits, Main.ctl, hwait, hwait2]
  cases hdone : memDone p s i
  · rw [hdone] at hctl
    have hstate : (Rvc.step p i s).core.main.cpuState = .exec :=
      (congrArg Ctl.cpuState hctl).trans hc
    cases htaken : taken p s.core i.toInputs
    · -- not taken: `exec` goes on waiting for the next instruction
      rw [htaken] at hctl
      have hcalm : (Rvc.step p i s).core.main.ctl.Calm s.core.main.memDoPrefetch
          (halfAddr s.core.main.regNextPc) := by
        rw [hctl]
        exact ⟨rfl, h.calm.data, Bool.and_false _, ⟨h.calm.irq.1, rfl⟩, rfl⟩
      have hrinst : (Rvc.step p i s).core.main.memDoRinst = s.core.main.memDoRinst :=
        congrArg Ctl.rinst hctl
      have hpre : (Rvc.step p i s).core.main.memDoPrefetch = s.core.main.memDoPrefetch :=
        hcalm.prefetch
      refine .executing (h.next e hdone ?_ hcalm ⟨congrArg Ctl.branch hctl,
        (congrArg Ctl.stalu hctl).trans h.flow.2⟩ (fun h => hrinst.trans h)
        fun _ _ => stage_of_settled hsettled' hwait hwait2)
      simp only [Requests, hstate]
      rw [hrinst, hpre, hwaits, hri, Bool.not_false, Bool.and_true]
    · -- taken: the access in progress is discarded
      rw [htaken] at hctl
      have hfirst : (Rvc.step p i s).core.first = s.core.first :=
        firstStep_keep e.resetn (by rw [hdone, Bool.and_false])
      have hsecond : (Rvc.step p i s).core.second = s.core.second := hsame.second
      have hclasses : (Rvc.step p i s).core.classes = classify s.core.first s.core.second :=
        classesStep_keep e.resetn h.calm.trigger
      refine .discards ⟨hstate, ?_, ⟨congrArg Ctl.rinst hctl, ?_, ?_⟩,
        ⟨congrArg Ctl.trigger hctl, (congrArg Ctl.irqState hctl).trans h.calm.irq.1⟩,
        ⟨congrArg Ctl.branch hctl, congrArg Ctl.store hctl, ?_⟩, hwaits, ?_, ?_, hsettled',
        fun i'' hi'' => ?_, ?_⟩
      · rw [hfirst]; exact hbr
      · exact (congrArg Ctl.rdata hctl).trans h.calm.data.1
      · exact (congrArg Ctl.wdata hctl).trans h.calm.data.2
      · exact (congrArg Ctl.stalu hctl).trans h.flow.2
      · have hpc : (Rvc.step p i s).core.main.regPc = s.core.main.regPc := by
          refine hreg.regPc.trans ?_
          cases hm : p.catchMisalign
          · exact ha hm
          · rfl
        rw [hpc, hsecond]
        exact hreg.target
      · rw [hclasses, hfirst, hsecond]
        exact ⟨rfl, rfl⟩
      · rw [taken_step hsettled hsettled' hsame hx hi'', htaken]
      · cases hp : s.core.main.memDoPrefetch
        · have hf := h.fetching
          rw [hri, hp] at hf
          rw [hp] at hri
          exact .rests (quiet_cycle e.resetn e.trap ⟨hp, hri, h.calm.data⟩ hf.rests).1
        · obtain ⟨hs, hv, hl⟩ := hcycle.busy hdone (hri.trans hp) hp
            (h.started (by rw [hc]; decide) hp)
          exact .busy hs hv fun hlast hreg => by rw [hl hlast] at hreg; cases hreg
  · -- the next instruction is there: it is decoded, or a new fetch starts at the target
    obtain ⟨hri', hd, hcomplete⟩ := hcycle.done hdone
    rw [hdone] at hctl
    cases htaken : taken p s.core i.toInputs
    · rw [htaken] at hctl
      refine .decoded (decoded_of_done e hctl rfl ⟨rfl, rfl, ?_, ?_⟩ ⟨rfl, h.calm.irq.1⟩ ?_ rfl rfl
        hdone hri' hd hcomplete)
      · rfl
      · rfl
      · exact ((Bool.true_and _).trans (Bool.and_true _)).trans hri'
    · rw [htaken] at hctl
      refine .starting ⟨congrArg Ctl.cpuState hctl, ⟨congrArg Ctl.trigger hctl,
        congrArg Ctl.doWaitirq hctl⟩, ⟨congrArg Ctl.prefetch hctl, congrArg Ctl.rdata hctl,
        congrArg Ctl.wdata hctl⟩, .inl ⟨congrArg Ctl.branch hctl,
        (congrArg Ctl.irqState hctl).trans h.calm.irq.1⟩, fun _ _ => ?_, hcomplete.rests⟩
      exact (congrArg Ctl.stalu hctl).trans h.flow.2

/-- The branch is still taken when the discarded access ends. -/
theorem Discards.step (h : Discards p x s) (e : Edge p code s i i')
    (ha : p.catchMisalign = false → s.core.main.regPc &&& ~~~1#32 = s.core.main.regPc)
    (hx : i.undef.aluOut0 = x) : Phase p code x (step p i s) i' := by
  have hclear : clearPrefetchedHighWord s i = true := by
    simp [clearPrefetchedHighWord, h.flow.1]
  have hreg := exec_registers e.resetn h.state e.stays
  have hsame := exec_sameOperands e h.state h.idle.1 h.classes
  have hsettled' := settled_step h.settled hsame rfl hreg.outcome hx
  have hctl := e.ctl
  have htk : Picorv32.taken p (shownCore p s i) (shownTo i.toInputs)
      = Picorv32.taken p s.core i.toInputs := rfl
  rw [work_exec h.state, execState_branch (s := shownCore p s i) h.waits h.branch,
    memDone_showing, htk, h.taken i.toInputs hx] at hctl
  have hrinst : (Rvc.step p i s).core.main.memDoRinst = true := congrArg Ctl.rinst hctl
  have hsecond : (Rvc.step p i s).core.second = s.core.second := hsame.second
  have hpc : (Rvc.step p i s).core.main.regPc = s.core.main.regPc := by
    refine hreg.regPc.trans ?_
    cases hm : p.catchMisalign
    · exact ha hm
    · rfl
  have htarget : (Rvc.step p i s).core.main.regOut = s.core.main.regOut := by
    rw [h.target]
    exact hreg.target
  have hb : (Rvc.step p i s).core.main.latchedBranch = true := congrArg Ctl.branch hctl
  have hst : (Rvc.step p i s).core.main.latchedStore = true := congrArg Ctl.store hctl
  -- the target stays in `reg_out`, so the fetch goes on for the same address
  have hnext : halfAddr (nextPc (Rvc.step p i s).core) = halfAddr (nextPc s.core) := by
    simp only [nextPc, hb, hst, h.flow.1, h.flow.2.1, htarget, Bool.and_self, if_true]
  obtain ⟨hend, hgoing⟩ := discard_cycle e.resetn e.trap h.request.2.2 h.request.1
    hclear hrinst (fun _ => hnext) h.discarding
  have hstalu : (Rvc.step p i s).core.main.latchedStalu = false :=
    (congrArg Ctl.stalu hctl).trans h.flow.2.2
  have hirq : (Rvc.step p i s).core.main.irq.irqState = 0 :=
    (congrArg Ctl.irqState hctl).trans h.idle.2
  have htrig : (Rvc.step p i s).core.main.decoderTrigger = false := congrArg Ctl.trigger hctl
  cases hdone : memDone p s i
  · rw [hdone] at hctl
    have hfirst : (Rvc.step p i s).core.first = s.core.first :=
      firstStep_keep e.resetn (by rw [hdone, Bool.and_false])
    have hclasses : (Rvc.step p i s).core.classes = classify s.core.first s.core.second :=
      classesStep_keep e.resetn h.idle.1
    refine .discards ⟨(congrArg Ctl.cpuState hctl).trans h.state, ?_, ⟨hrinst, ?_, ?_⟩,
      ⟨htrig, hirq⟩, ⟨hb, hst, hstalu⟩, ?_, ?_, ?_, hsettled', fun i'' hi'' => ?_, hgoing hdone⟩
    · rw [hfirst]; exact h.branch
    · exact (congrArg Ctl.rdata hctl).trans h.request.2.1
    · exact (congrArg Ctl.wdata hctl).trans h.request.2.2
    · rw [hctl]
      simp [Ctl.waits]
    · rw [hpc, hsecond]
      exact hreg.target
    · rw [hclasses, hfirst, hsecond]
      exact ⟨rfl, rfl⟩
    · rw [taken_step h.settled hsettled' hsame hx hi'', h.taken i.toInputs hx]
  · rw [hdone] at hctl
    -- the discarded word has come, and the fetch at the target can begin
    exact .starting ⟨congrArg Ctl.cpuState hctl, ⟨htrig, congrArg Ctl.doWaitirq hctl⟩,
      ⟨congrArg Ctl.prefetch hctl, congrArg Ctl.rdata hctl, congrArg Ctl.wdata hctl⟩,
      .inl ⟨hb, hirq⟩, fun _ _ => hstalu, hend hdone⟩

/-! ### Loads and stores -/

/-- A load or a store waits for the next instruction. -/
theorem Executing.step_mem (h : Executing p code x s i) (e : Edge p code s i i')
    (hc : s.core.main.cpuState = .stmem ∨ s.core.main.cpuState = .ldmem) :
    Phase p code x (step p i s) i' := by
  obtain ⟨hri, hp⟩ : s.core.main.memDoRinst = true ∧ s.core.main.memDoPrefetch = true := by
    rcases hc with hc | hc <;> simpa only [Requests, hc] using h.requests
  have hcycle := h.cycle e
  have hctl := e.ctl
  have hmem := @memState_wait p (shownCore p s i) (shownTo i.toInputs) hc hp hri h.calm.data.1
    h.calm.data.2
  rw [memDone_showing] at hmem
  rw [work, hmem] at hctl
  cases hdone : memDone p s i
  · rw [hdone] at hctl
    have hstate : (Rvc.step p i s).core.main.cpuState = s.core.main.cpuState :=
      congrArg Ctl.cpuState hctl
    have hrinst : (Rvc.step p i s).core.main.memDoRinst = true := congrArg Ctl.rinst hctl
    have hpre : (Rvc.step p i s).core.main.memDoPrefetch = true := congrArg Ctl.prefetch hctl
    have hcalm : (Rvc.step p i s).core.main.ctl.Calm s.core.main.memDoPrefetch
        (halfAddr s.core.main.regNextPc) := by
      rw [hctl, hp]
      exact ⟨rfl, ⟨rfl, rfl⟩, rfl, ⟨h.calm.irq.1, rfl⟩, rfl⟩
    refine .executing (h.next e hdone ?_ hcalm ⟨(congrArg Ctl.branch hctl).trans h.flow.1,
      (congrArg Ctl.stalu hctl).trans h.flow.2⟩ (fun _ => hrinst) fun hx => ?_)
    · rcases hc with hc | hc <;> simp only [Requests, hstate, hc] <;> exact ⟨hrinst, hpre⟩
    · rw [hstate] at hx
      rcases hc with hc | hc <;> rw [hc] at hx <;> cases hx
  · -- the next instruction is decoded before the data access begins
    obtain ⟨-, hd, hcomplete⟩ := hcycle.done hdone
    rw [hdone] at hctl
    obtain ⟨hsize, horderly⟩ := firstStep_delivered e.resetn (by rw [hdone, hri]; rfl) hd
    have hn : halfAddr (Rvc.step p i s).core.main.regNextPc = halfAddr s.core.main.regNextPc :=
      congrArg Ctl.nextPc hctl
    have hrd : (Rvc.step p i s).core.main.memDoRdata = (s.core.main.cpuState == .ldmem) :=
      (congrArg Ctl.rdata hctl).trans (Bool.true_and _)
    have hwd : (Rvc.step p i s).core.main.memDoWdata = (s.core.main.cpuState == .stmem) :=
      (congrArg Ctl.wdata hctl).trans (Bool.true_and _)
    have hstate : (Rvc.step p i s).core.main.cpuState = s.core.main.cpuState :=
      congrArg Ctl.cpuState hctl
    refine .accesses ⟨?_, ⟨congrArg Ctl.prefetch hctl, congrArg Ctl.rinst hctl⟩,
      ⟨(congrArg Ctl.branch hctl).trans h.flow.1, (congrArg Ctl.irqState hctl).trans h.calm.irq.1⟩,
      ?_, ?_, horderly, .inr ⟨congrArg Ctl.trigger hctl, congrArg Ctl.pseudo hctl⟩,
      .rests hcomplete.rests⟩
    · rw [hrd, hwd, hstate]
      rcases hc with hc | hc <;> rw [hc]
      · exact .inl ⟨rfl, rfl, rfl⟩
      · exact .inr ⟨rfl, rfl, rfl⟩
    · rw [hn]; exact hcomplete.ready
    · rw [hn]; exact hsize

theorem Accesses.data (h : Accesses code s) : DataRequest s.core.main := by
  refine ⟨h.quiet.1, h.quiet.2, ?_⟩
  rcases h.state with ⟨-, hrd, hwd⟩ | ⟨-, hrd, hwd⟩
  · exact .inr ⟨hrd, hwd⟩
  · exact .inl ⟨hrd, hwd⟩

theorem Accesses.step (h : Accesses code s) (e : Edge p code s i i') :
    Phase p code x (step p i s) i' := by
  have hclear := clear_of_flow (i := i) e.resetn h.flow.1 h.flow.2 e.cleared
  have hcycle := access_cycle (p := p) e.resetn e.trap h.data hclear h.accessing
  have hfirst : (Rvc.step p i s).core.first = s.core.first :=
    firstStep_keep e.resetn (by rw [h.quiet.2, Bool.false_and])
  have hsecond : (Rvc.step p i s).core.second.Branching s.core.first :=
    secondStep_branching e.resetn h.orderly h.second
  have hstates : s.core.main.cpuState = .stmem ∧ s.core.main.memDoWdata = true
      ∨ s.core.main.cpuState = .ldmem ∧ s.core.main.memDoRdata = true := by
    rcases h.state with ⟨hc, hrd, hwd⟩ | ⟨hc, hrd, hwd⟩
    · exact .inl ⟨hc, hwd⟩
    · exact .inr ⟨hc, hrd⟩
  have hctl := e.ctl
  have hmem := @memState_access p (shownCore p s i) (shownTo i.toInputs) h.quiet.1 h.quiet.2
    hstates
  rw [memDone_showing] at hmem
  rw [work, hmem] at hctl
  have hn : halfAddr (Rvc.step p i s).core.main.regNextPc = halfAddr s.core.main.regNextPc :=
    congrArg Ctl.nextPc hctl
  -- a data access leaves the halfword buffer to the next fetch
  have hready : Ready code (following code (halfAddr s.core.main.regNextPc)) (Rvc.step p i s) := by
    intro hodd
    rw [hcycle.high, hcycle.buffer]
    exact h.ready hodd
  cases hdone : memDone p s i
  · rw [hdone] at hctl
    have hstate : (Rvc.step p i s).core.main.cpuState = s.core.main.cpuState :=
      congrArg Ctl.cpuState hctl
    have hrd : (Rvc.step p i s).core.main.memDoRdata = s.core.main.memDoRdata :=
      congrArg Ctl.rdata hctl
    have hwd : (Rvc.step p i s).core.main.memDoWdata = s.core.main.memDoWdata :=
      congrArg Ctl.wdata hctl
    refine .accesses ⟨?_, ⟨(congrArg Ctl.prefetch hctl).trans h.quiet.1,
      (congrArg Ctl.rinst hctl).trans h.quiet.2⟩,
      ⟨(congrArg Ctl.branch hctl).trans h.flow.1, (congrArg Ctl.irqState hctl).trans h.flow.2⟩,
      ?_, ?_, ?_, .inl ?_, hcycle.going hdone hrd hwd⟩
    · rw [hstate, hrd, hwd]; exact h.state
    · rw [hn]; exact hready
    · rw [hn, hfirst]; exact h.size
    · rw [hfirst]; exact h.orderly
    · rw [hfirst]; exact hsecond
  · rw [hdone] at hctl
    have hrests := hcycle.done hdone
    refine .decoded ⟨congrArg Ctl.cpuState hctl, ⟨(congrArg Ctl.prefetch hctl).trans h.quiet.1,
      (congrArg Ctl.rinst hctl).trans h.quiet.2, congrArg Ctl.rdata hctl, congrArg Ctl.wdata hctl⟩,
      ⟨(congrArg Ctl.branch hctl).trans h.flow.1, (congrArg Ctl.irqState hctl).trans h.flow.2⟩,
      .inl (congrArg Ctl.trigger hctl), ?_, ?_, ?_, fun _ => ?_⟩
    · rw [hn]; exact ⟨hrests.idle, hrests.valid, hrests.secondword, hready⟩
    · rw [hn, hfirst]; exact h.size
    · rw [hfirst]; exact h.orderly
    · rw [hfirst]; exact hsecond

/-! ## Runs -/

theorem Executing.step (h : Executing p code x s i) (e : Edge p code s i i')
    (ha : p.catchMisalign = false → s.core.main.regPc &&& ~~~1#32 = s.core.main.regPc)
    (hx : i.undef.aluOut0 = x) : Phase p code x (step p i s) i' := by
  cases hc : s.core.main.cpuState
  case trap =>
    have := h.requests
    simp only [Requests, hc] at this
  case fetch =>
    have := h.requests
    simp only [Requests, hc] at this
  case ldRs1 => exact h.step_ldRs1 e hc
  case ldRs2 => exact h.step_ldRs2 e hc
  case exec =>
    cases hw : s.core.main.ctl.waits p
    · cases hbr : s.core.first.isBeqBneBltBgeBltuBgeu
      · exact h.step_end e hc hw hbr
      · exact h.step_branch e ha hx hc hw hbr
    · exact h.step_wait e hx hc hw
  case shift => exact h.step_shift e hc
  case stmem => exact h.step_mem e (.inl hc)
  case ldmem => exact h.step_mem e (.inr hc)

/-- The flag of the buffer is low a cycle after it was cleared. -/
theorem step_cleared (h : (step p i s).clearPrefetchedHighWordQ = true) :
    (step p i s).prefetchedHighWord = false := by
  have h : clearPrefetchedHighWord s i = true := h
  simp only [Rvc.step, portStep, h, if_true]

theorem Phase.step (h : Phase p code x s i) (e : Edge p code s i i')
    (ha : p.catchMisalign = false → s.core.main.regPc &&& ~~~1#32 = s.core.main.regPc)
    (hx : i.undef.aluOut0 = x) : Phase p code x (step p i s) i' := by
  cases h with
  | trapped h => exact .trapped (mainStep_trapped e.resetn h)
  | decoded h => exact h.step e
  | entering h => exact h.step e
  | starting h => exact h.step e
  | seeking h => exact h.step e
  | executing h => exact h.step e ha hx
  | accesses h => exact h.step e
  | discards h => exact h.step e ha hx

theorem clear_low_idem (pc : BitVec 32) : pc &&& ~~~1#32 &&& ~~~1#32 = pc &&& ~~~1#32 := by
  rw [BitVec.and_assoc, BitVec.and_self]

theorem mainStep_aligned (h : p.catchMisalign = false) :
    (mainStep p s i).regPc &&& ~~~1#32 = (mainStep p s i).regPc := by
  simp only [mainStep, finish, finishWith, h, Bool.false_eq_true, if_false]
  exact clear_low_idem _

/-- After a cycle in reset the core rests, and asks for nothing. -/
theorem mainStep_reset (hr : i.resetn = false) :
    (mainStep p s i).trap = false ∧ ((mainStep p s i).cpuState = .trap ∨ (mainStep p s i).ctl =
      { cpuState := .fetch, prefetch := false, rinst := false, rdata := false, wdata := false,
        trigger := false, pseudo := false, branch := false, store := ~~~p.stackaddr != 0,
        stalu := false, irqState := 0, doWaitirq := false, aluWait := false, aluWait2 := false,
        nextPc := halfAddr p.progaddrReset }) := by
  have hdone : memDone p s i = false := by simp [memDone, hr]
  have hresetn : (shownTo i.toInputs).resetn = false := hr
  set s' := showing (memDone p s i) s.core with hs'
  have hdone' : Picorv32.memDone s' (shownTo i.toInputs) = false := memDone_showing.trans hdone
  set w := irqInputs p s' (shownTo i.toInputs)
    (resetState p (defaults p s' (shownTo i.toInputs))) with hw
  have hmain : mainStep p s i
      = finish p s' (shownTo i.toInputs) (checks p s' (shownTo i.toInputs) w) := by
    simp only [mainStep, hr, Bool.not_false, if_true, hw, hs']
  have hin : w.main = (resetState p (defaults p s' (shownTo i.toInputs))).main :=
    irqInputs_main
  have hset : w.setMemDoRinst = false ∧ w.setMemDoRdata = false ∧ w.setMemDoWdata = false := by
    rw [hw, irqInputs]
    split <;> exact ⟨rfl, rfl, rfl⟩
  obtain ⟨hm, -, h₁, h₂, h₃⟩ := @rvc_checks_passes p s' (shownTo i.toInputs) w
  have htrap : w.main.trap = false := by
    rw [hin, resetState]
    cases ~~~p.stackaddr != 0 <;> rfl
  have hctl : w.main.ctl =
      { w.main.ctl with
        cpuState := .fetch, trigger := false, pseudo := false, branch := false,
        store := ~~~p.stackaddr != 0, stalu := false, irqState := 0, doWaitirq := false,
        aluWait := false, aluWait2 := false, nextPc := halfAddr p.progaddrReset } := by
    rw [hin, resetState]
    cases ~~~p.stackaddr != 0 <;> simp [Main.ctl, defaults, hdone']
  rw [hmain]
  rcases hm with hm | hm
  · refine ⟨by simp only [finish, finishWith, hm, htrap], .inr ?_⟩
    have hend : (finish p s' (shownTo i.toInputs) (checks p s' (shownTo i.toInputs) w)).ctl
        = { w.main.ctl with prefetch := false, rinst := false, rdata := false, wdata := false } := by
      simp [Main.ctl, finish, finishWith, hresetn, hm, h₁, h₂, h₃, hset]
      exact halfAddr_align p.catchMisalign _
    rw [hend, hctl]
  · exact ⟨by simp only [finish, finishWith, hm, htrap], .inl (by simp only [finish, finishWith, hm])⟩

/-- The interface after a cycle in reset. -/
theorem step_rests (hr : i.resetn = false) :
    Rests (step p i s) ∧ (step p i s).prefetchedHighWord = false := by
  have hclear : clearPrefetchedHighWord s i = true := by simp [clearPrefetchedHighWord, hr]
  have hport : portStep p s i = { (portStep p s i) with
      mem := { (portStep p s i).mem with memState := .idle, memValid := false }
      secondword := false
      prefetchedHighWord := false } := by
    simp [portStep, hr, hclear]
  exact ⟨⟨congrArg (·.mem.memState) hport, congrArg (·.mem.memValid) hport,
    congrArg (·.secondword) hport⟩, congrArg (·.prefetchedHighWord) hport⟩

theorem Inv.reset (hr : i.resetn = false) : Inv p code x (step p i s) i' := by
  obtain ⟨hrests, hhigh⟩ := step_rests (p := p) (s := s) hr
  obtain ⟨htrap, hc⟩ := mainStep_reset (p := p) (s := s) hr
  refine ⟨fun _ => hhigh, fun h => ?_, mainStep_aligned, ?_⟩
  · have h : (mainStep p s i).trap = true := h
    rw [htrap] at h
    cases h
  · rcases hc with hc | hc
    · exact .trapped hc
    · have hctl : (step p i s).core.main.ctl = _ := hc
      refine .seeking ⟨congrArg Ctl.cpuState hctl, ⟨congrArg Ctl.trigger hctl,
        congrArg Ctl.doWaitirq hctl⟩, ⟨congrArg Ctl.rdata hctl, congrArg Ctl.wdata hctl⟩,
        ⟨congrArg Ctl.branch hctl, congrArg Ctl.irqState hctl⟩, ?_⟩
      refine .idle hrests.idle hrests.valid hrests.secondword (fun _ h => ?_) fun _ _ =>
        congrArg Ctl.prefetch hctl
      rw [hhigh] at h
      cases h

/-- One cycle of a run. -/
theorem Inv.step (h : Inv p code x s i) (hans : Answers code s i)
    (hkeep : p.latchedMemRdata = true → (step p i s).core.mem.memValid = false →
      (s.core.mem.memValid = true → i.memReady = true) → i'.memRdata = i.memRdata)
    (hx : i.undef.aluOut0 = x) : Inv p code x (Rvc.step p i s) i' := by
  cases hr : i.resetn
  · exact .reset hr
  · refine ⟨step_cleared, mainStep_trap_state hr, mainStep_aligned, ?_⟩
    by_cases hstays : (mainStep p s i).cpuState = .trap
    · exact .trapped hstays
    · have hc : s.core.main.cpuState ≠ .trap := fun hc => hstays (mainStep_trapped hr hc)
      have htrap : s.core.main.trap = false := by
        rw [← Bool.not_eq_true]
        exact fun ht => hc (h.trapped ht)
      exact h.phase.step ⟨hr, htrap, h.cleared, hans, hkeep, hstays⟩ h.aligned hx

/-! ## Runs -/

/-- A memory that answers each instruction access with the word of a fixed code memory; with
    `LATCHED_MEM_RDATA` it keeps the word between the accesses. -/
structure CodeMemory (p : Params) (code : BitVec 30 → BitVec 32) (s : ℕ → State)
    (env : ℕ → Inputs) : Prop where
  answers : ∀ n, Answers code (s n) (env n)
  keeps : p.latchedMemRdata = true → ∀ n, (s (n + 1)).core.mem.memValid = false →
    ((s n).core.mem.memValid = true → (env n).memReady = true) →
      (env (n + 1)).memRdata = (env n).memRdata

/-- From a cycle in reset on. -/
theorem run_inv {s : ℕ → State} {env : ℕ → Inputs} (hstep : ∀ n, s (n + 1) = step p (env n) (s n))
    (hmem : CodeMemory p code s env) (hx : ∀ n, (env n).undef.aluOut0 = x) {n₀ : ℕ}
    (hreset : (env n₀).resetn = false) (n : ℕ) : Inv p code x (s (n₀ + n + 1)) (env (n₀ + n + 1)) := by
  induction n with
  | zero =>
    rw [Nat.add_zero, hstep]
    exact .reset hreset
  | succ n ih =>
    have hnext : Inv p code x (step p (env (n₀ + n + 1)) (s (n₀ + n + 1))) (env (n₀ + n + 1 + 1)) :=
      ih.step (hmem.answers _) (fun hl hv hd => hmem.keeps hl _ ((hstep _).symm ▸ hv) hd) (hx _)
    rw [← hstep] at hnext
    exact hnext

/-- The word the decoder uses. -/
theorem Inv.delivered (h : Inv p code x s i) (hr : i.resetn = true) (hans : Answers code s i)
    (htrap : s.core.main.cpuState ≠ .trap)
    (hbranch : ¬(s.core.main.cpuState = .exec ∧ s.core.main.latchedBranch = true))
    (hri : s.core.main.memDoRinst = true) (hdone : memDone p s i = true) :
    Delivered code (halfAddr (nextPc s.core)) (memRdataLatched p s i) := by
  have ht : s.core.main.trap = false := by
    rw [← Bool.not_eq_true]
    exact fun ht => htrap (h.trapped ht)
  have hrests : ¬Rests s := fun h => by rw [h.not_done] at hdone; cases hdone
  cases h.phase with
  | trapped h => exact absurd h htrap
  | decoded h => rw [h.quiet.2.1] at hri; cases hri
  | entering h => exact absurd h.rests hrests
  | starting h => exact absurd h.rests hrests
  | seeking hs =>
    have hseq : Sequential s i := ⟨hr, ht, hs.flow.1, hs.flow.2, hs.data.1, hs.data.2, h.cleared⟩
    have hpc := congrArg halfAddr (nextPc_of_flow hs.flow.1)
    rw [hpc]
    exact ((Fetching.cycle hseq hpc hans hs.fetching).done hdone).2.1
  | executing he =>
    have hseq : Sequential s i := ⟨hr, ht, he.flow.1, he.calm.irq.1, he.calm.data.1,
      he.calm.data.2, h.cleared⟩
    have hpc := congrArg halfAddr (nextPc_of_flow he.flow.1)
    rw [hpc]
    exact ((Fetching.cycle hseq hpc hans he.fetching).done hdone).2.1
  | accesses h => rw [h.quiet.2] at hri; cases hri
  | discards h => exact absurd ⟨h.state, h.flow.1⟩ hbranch

/-- The inputs from a memory that holds `code`, with every undefined value zero. -/
def answering (code : BitVec 30 → BitVec 32) (ready resetn : Bool) (s : State) : Inputs :=
  { (default : Inputs) with
    resetn := resetn
    memReady := ready
    memRdata := code (s.core.mem.memAddr.extractLsb' 2 30) }

/-- A run on that memory, in reset in the first cycle. -/
def codeRun (p : Params) (code : BitVec 30 → BitVec 32) (ready : ℕ → Bool) : ℕ → State
  | 0 => default
  | n + 1 => step p (answering code (ready n) (n != 0) (codeRun p code ready n))
      (codeRun p code ready n)

theorem codeMemory_answering (h : p.latchedMemRdata = false) (ready : ℕ → Bool) :
    CodeMemory p code (codeRun p code ready)
      fun n => answering code (ready n) (n != 0) (codeRun p code ready n) :=
  ⟨fun _ _ _ _ => rfl, fun hl => absurd (hl.symm.trans h) (by decide)⟩

/-- In a run from reset with any waits of the memory, the word used by the decoder is the one at
    `next_pc`, but for words that no instruction is taken from: those behind a taken branch and
    those in the state `trap`. -/
theorem fetches_delivered {s : ℕ → State} {env : ℕ → Inputs}
    (hstep : ∀ n, s (n + 1) = step p (env n) (s n)) (hmem : CodeMemory p code s env)
    (hx : ∀ n, (env n).undef.aluOut0 = x) {n₀ n : ℕ} (hreset : (env n₀).resetn = false)
    (hn : n₀ < n) (htrap : (s n).core.main.cpuState ≠ .trap)
    (hbranch : ¬((s n).core.main.cpuState = .exec ∧ (s n).core.main.latchedBranch = true))
    (hri : (s n).core.main.memDoRinst = true) (hdone : memDone p (s n) (env n) = true) :
    (memRdataLatched p (s n) (env n)).extractLsb' 0 16 = half code (halfAddr (nextPc (s n).core))
      ∧ ((memRdataLatched p (s n) (env n)).extractLsb' 0 2 = 0b11#2 →
        (memRdataLatched p (s n) (env n)).extractLsb' 16 16
          = half code (halfAddr (nextPc (s n).core + 2))) := by
  obtain ⟨d, rfl⟩ := Nat.exists_eq_add_of_lt hn
  have hr : (env (n₀ + d + 1)).resetn = true := by
    simp only [memDone, Bool.and_eq_true] at hdone
    tauto
  obtain ⟨hlow, hhigh⟩ := (run_inv hstep hmem hx hreset d).delivered hr (hmem.answers _) htrap hbranch
    hri hdone
  refine ⟨hlow, fun hlong => ?_⟩
  rw [halfAddr_add_two]
  refine hhigh ?_
  rw [← isLong_of_low hlow, isLong, hlong]
  rfl

/-- `jal x0, 6` at address 0 and `addi x1, x0, 1` across the boundary of two words at address 6. -/
def jumpCode (a : BitVec 30) : BitVec 32 :=
  if a = 0 then 0x0060006f else if a = 1 then 0x00930001 else if a = 2 then 0x00010010
  else 0x00010001

theorem fetches_delivered_jump :
    let s := codeRun {} jumpCode (· % 3 == 0)
    let w := memRdataLatched {} (s 9) (answering jumpCode true true (s 9))
    w.extractLsb' 0 16 = half jumpCode (halfAddr (nextPc (s 9).core))
      ∧ (w.extractLsb' 0 2 = 0b11#2 →
        w.extractLsb' 16 16 = half jumpCode (halfAddr (nextPc (s 9).core + 2))) :=
  @fetches_delivered {} jumpCode false _
    (fun n => answering jumpCode (n % 3 == 0) (n != 0) (codeRun {} jumpCode (· % 3 == 0) n))
    (fun _ => rfl) (codeMemory_answering rfl _) (fun _ => rfl) 0 9 rfl (by decide)
    (by decide +kernel) (by decide +kernel) (by decide +kernel) (by decide +kernel)

/-- The word a cycle hands to the decoder is not the one at `next_pc`. -/
def Misses (p : Params) (code : BitVec 30 → BitVec 32) (ready : ℕ → Bool) (n : ℕ) : Prop :=
  let s := codeRun p code ready n
  let i := answering code (ready n) (n != 0) s
  s.core.main.memDoRinst = true ∧ memDone p s i = true
    ∧ (memRdataLatched p s i).extractLsb' 0 16 ≠ half code (halfAddr (nextPc s.core))

/-- `beq x0, x0, 16` at address 0. -/
def branchCode (a : BitVec 30) : BitVec 32 :=
  if a = 0 then 0x00000863 else if a = 4 then 0x00100093 else 0x00000013

/-- `c.nop` at address 0, `ecall` at address 2. -/
def ecallCode (a : BitVec 30) : BitVec 32 :=
  if a = 0 then 0x00730001 else if a = 1 then 0x00930000 else 0x00000010

/-- The word behind a taken branch, and the one an `ecall` has trapped before. -/
theorem words_missed :
    Misses {} branchCode (fun n => n < 5 || 9 < n) 10
      ∧ Misses { catchIllinsn := false } ecallCode (fun n => n < 9 || 14 < n) 15 := by
  unfold Misses
  decide +kernel

end PicoSoc.Picorv32.Rvc
