import PicoSoc.Cpu.FetchPort
import PicoSoc.Cpu.Interrupts

set_option autoImplicit false

/-! # The requests of the main state machine

What each state of the main state machine makes of the fetch of the instruction at `next_pc`: the
registers that matter (`Ctl`) and one lemma for each state. -/

namespace PicoSoc.Picorv32

/-! ## Decoded instructions -/

/-- A conditional branch is nothing else that could reach the state `exec`. -/
def First.Branching (f : First) : Prop :=
  f.isBeqBneBltBgeBltuBgeu = true → f.instrLui = false ∧ f.instrAuipc = false
    ∧ f.instrJal = false ∧ f.instrJalr = false ∧ f.isAluRegImm = false

/-- So it is for the second stage. -/
def Second.Branching (f : First) (d : Second) : Prop :=
  f.isBeqBneBltBgeBltuBgeu = true →
    d.isJalrAddiSltiSltiuXoriOriAndi = false ∧ d.isSlliSrliSrai = false

namespace Rvc

variable {p : Params} {w : BitVec 32} {f : First}

theorem decodeFirst_of_long (h : isLong w = true) : decodeFirst p w = Picorv32.decodeFirst p w := by
  rw [decodeFirst, if_pos h]

/-- No 32-bit opcode ends in anything but 11. -/
theorem opcode_ne (h : isLong w = false) {c : BitVec 7} (hc : c.extractLsb' 0 2 = 3) :
    (opcode w == c) = false := by
  have hlow : w.extractLsb' 0 2 = (opcode w).extractLsb' 0 2 := by
    apply BitVec.eq_of_getLsbD_eq
    intro j hj
    simp [opcode, hj]
  rw [beq_eq_false_iff_ne]
  intro heq
  rw [isLong, hlow, heq, hc] at h
  exact absurd h (by decide)

/-- The flags a 16-bit instruction starts from. -/
structure Plain (f : First) : Prop where
  lui : f.instrLui = false
  auipc : f.instrAuipc = false
  jal : f.instrJal = false
  jalr : f.instrJalr = false
  retirq : f.instrRetirq = false
  branch : f.isBeqBneBltBgeBltuBgeu = false
  load : f.isLbLhLwLbuLhu = false
  store : f.isSbShSw = false
  aluImm : f.isAluRegImm = false

theorem plain_of_short (h : isLong w = false) : Plain (Picorv32.decodeFirst p w) := by
  constructor <;> simp only [Picorv32.decodeFirst, isIrqOpcode] <;>
    rw [opcode_ne h (by decide)] <;> rfl

/-- What the fetch relies on. -/
def Orderly (f : First) : Prop := f.Coherent ∧ f.Branching

theorem Plain.orderly (h : Plain f) : Orderly f := by
  obtain ⟨h₁, h₂, h₃, h₄, h₅, h₆, h₇, h₈, h₉⟩ := h
  refine ⟨⟨?_, ?_⟩, ?_⟩ <;> simp [First.Branching, *]

theorem orderly_ite {c : Prop} [Decidable c] {x y : First} (hx : Orderly x) (hy : Orderly y) :
    Orderly (if c then x else y) := by
  by_cases hc : c
  · rw [if_pos hc]; exact hx
  · rw [if_neg hc]; exact hy

theorem decodeQ0_orderly (h : Plain f) : Orderly (decodeQ0 p w f) := by
  have hf := h.orderly
  obtain ⟨h₁, h₂, h₃, h₄, h₅, h₆, h₇, h₈, h₉⟩ := h
  unfold decodeQ0
  split
  · refine ⟨⟨?_, ?_⟩, ?_⟩ <;> simp [First.Branching, *]
  · refine ⟨⟨?_, ?_⟩, ?_⟩ <;> simp [First.Branching, *]
  · refine ⟨⟨?_, ?_⟩, ?_⟩ <;> simp [First.Branching, *]
  · exact hf

theorem decodeQ1_orderly (h : Plain f) : Orderly (decodeQ1 p w f) := by
  have hf := h.orderly
  obtain ⟨h₁, h₂, h₃, h₄, h₅, h₆, h₇, h₈, h₉⟩ := h
  have halu : ∀ x : First, x.instrJalr = false → x.instrRetirq = false →
      x.isBeqBneBltBgeBltuBgeu = false → Orderly x := by
    intro x hj hr hb
    refine ⟨⟨?_, ?_⟩, ?_⟩ <;> simp [First.Branching, hj, hr, hb]
  have hcalm : ∀ {c : Prop} [Decidable c] {x y : First},
      (x.instrJalr = false ∧ x.instrRetirq = false ∧ x.isBeqBneBltBgeBltuBgeu = false) →
      (y.instrJalr = false ∧ y.instrRetirq = false ∧ y.isBeqBneBltBgeBltuBgeu = false) →
      (if c then x else y).instrJalr = false ∧ (if c then x else y).instrRetirq = false
        ∧ (if c then x else y).isBeqBneBltBgeBltuBgeu = false := by
    intro c _ x y hx hy
    by_cases hc : c
    · rw [if_pos hc]; exact hx
    · rw [if_neg hc]; exact hy
  unfold decodeQ1
  extract_lets rd rs1'
  split
  · exact halu _ h₄ h₅ h₆
  · exact halu _ h₄ h₅ h₆
  · exact halu _ h₄ h₅ h₆
  · exact orderly_ite (orderly_ite (halu _ h₄ h₅ h₆) (halu _ h₄ h₅ h₆)) hf
  · rename_i x y _ _
    have hx : x.instrJalr = false ∧ x.instrRetirq = false ∧ x.isBeqBneBltBgeBltuBgeu = false :=
      hcalm ⟨h₄, h₅, h₆⟩ ⟨h₄, h₅, h₆⟩
    have hy : y.instrJalr = false ∧ y.instrRetirq = false ∧ y.isBeqBneBltBgeBltuBgeu = false :=
      hcalm hx hx
    refine orderly_ite ?_ ?_ <;> exact halu _ hy.1 hy.2.1 hy.2.2
  · exact halu _ h₄ h₅ h₆
  · refine ⟨⟨?_, ?_⟩, ?_⟩ <;> simp [First.Branching, *]

theorem decodeQ2_orderly (h : Plain f) : Orderly (decodeQ2 p w f) := by
  have hf := h.orderly
  obtain ⟨h₁, h₂, h₃, h₄, h₅, h₆, h₇, h₈, h₉⟩ := h
  unfold decodeQ2
  dsimp only
  split
  · refine orderly_ite ?_ hf
    refine ⟨⟨?_, ?_⟩, ?_⟩ <;> simp [First.Branching, *]
  · refine orderly_ite ?_ hf
    refine ⟨⟨?_, ?_⟩, ?_⟩ <;> simp [First.Branching, *]
  · refine orderly_ite (orderly_ite (orderly_ite ?_ hf) ?_) (orderly_ite (orderly_ite ?_ hf) ?_) <;>
      refine ⟨⟨?_, ?_⟩, ?_⟩ <;> simp [First.Branching, *]
  · refine ⟨⟨?_, ?_⟩, ?_⟩ <;> simp [First.Branching, *]
  · exact hf

theorem decodeFirst_orderly (p : Params) (w : BitVec 32) : Orderly (decodeFirst p w) := by
  cases hl : isLong w
  · have h := plain_of_short (p := p) hl
    have hstart : Plain
        { Picorv32.decodeFirst p w with
          compressedInstr := true
          decodedRd := 0
          decodedRs1 := 0
          decodedRs2 := 0
          decodedImmJ := rvcImmJ w } := ⟨h.1, h.2, h.3, h.4, h.5, h.6, h.7, h.8, h.9⟩
    rw [decodeFirst, if_neg (by simp [hl])]
    dsimp only
    split
    · exact decodeQ0_orderly hstart
    · exact decodeQ1_orderly hstart
    · exact decodeQ2_orderly hstart
  · rw [decodeFirst_of_long hl]
    refine ⟨decodeFirst_coherent p w, ?_⟩
    intro h
    simp_all [Picorv32.decodeFirst]

theorem decodeSecond_branching (hf : f.Branching) (u : Undef) :
    (decodeSecond p f w u).Branching f := by
  intro h
  obtain ⟨-, -, -, hj, hi⟩ := hf h
  simp [decodeSecond, Picorv32.decodeSecond, hj, hi]

/-- The decoder of the quadrants leaves the size of the instruction alone. -/
theorem decodeQ_compressed (h : f.compressedInstr = true) :
    (decodeQ0 p w f).compressedInstr = true ∧ (decodeQ1 p w f).compressedInstr = true
      ∧ (decodeQ2 p w f).compressedInstr = true := by
  have hite : ∀ {c : Prop} [Decidable c] {x y : First}, x.compressedInstr = true →
      y.compressedInstr = true → (if c then x else y).compressedInstr = true := by
    intro c _ x y hx hy
    by_cases hc : c
    · rw [if_pos hc]; exact hx
    · rw [if_neg hc]; exact hy
  refine ⟨?_, ?_, ?_⟩
  · unfold decodeQ0
    split <;> exact h
  · unfold decodeQ1
    dsimp only
    split
    · exact h
    · exact h
    · exact h
    · exact hite (hite h h) h
    · exact hite (hite (hite h h) (hite h h)) (hite (hite h h) (hite h h))
    · exact h
    · exact h
  · unfold decodeQ2
    dsimp only
    split
    · exact hite h h
    · exact hite h h
    · exact hite (hite (hite h h) h) (hite (hite h h) h)
    · exact h
    · exact h

theorem decodeFirst_compressed (p : Params) (w : BitVec 32) :
    (decodeFirst p w).compressedInstr = !isLong w := by
  cases hl : isLong w
  · obtain ⟨h0, h1, h2⟩ := decodeQ_compressed (p := p) (w := w)
      (f := { Picorv32.decodeFirst p w with
        compressedInstr := true
        decodedRd := 0
        decodedRs1 := 0
        decodedRs2 := 0
        decodedImmJ := rvcImmJ w }) rfl
    rw [decodeFirst, if_neg (by simp [hl])]
    dsimp only
    split
    · exact h0
    · exact h1
    · exact h2
  · rw [decodeFirst_of_long hl]
    rfl

end Rvc

/-! ## The registers that matter -/

/-- The registers of the main state machine the fetch depends on. -/
structure Ctl where
  cpuState : CpuState
  prefetch : Bool
  rinst : Bool
  rdata : Bool
  wdata : Bool
  trigger : Bool
  pseudo : Bool
  branch : Bool
  store : Bool
  stalu : Bool
  irqState : BitVec 2
  doWaitirq : Bool
  aluWait : Bool
  aluWait2 : Bool
  nextPc : BitVec 31

def Main.ctl (m : Main) : Ctl where
  cpuState := m.cpuState
  prefetch := m.memDoPrefetch
  rinst := m.memDoRinst
  rdata := m.memDoRdata
  wdata := m.memDoWdata
  trigger := m.decoderTrigger
  pseudo := m.decoderPseudoTrigger
  branch := m.latchedBranch
  store := m.latchedStore
  stalu := m.latchedStalu
  irqState := m.irq.irqState
  doWaitirq := m.irq.doWaitirq
  aluWait := m.aluWait
  aluWait2 := m.aluWait2
  nextPc := Rvc.halfAddr m.regNextPc

/-- What the end of the cycle makes of them, `done` telling whether `mem_done` is high. -/
def Work.ctl (done : Bool) (w : Work) : Ctl :=
  { w.main.ctl with
    prefetch := !done && w.main.memDoPrefetch
    rinst := w.setMemDoRinst || (!done && w.main.memDoRinst)
    rdata := w.setMemDoRdata || (!done && w.main.memDoRdata)
    wdata := w.setMemDoWdata || (!done && w.main.memDoWdata) }

namespace Rvc

variable {p : Params} {s : State} {i : Inputs}

/-- The main state machine is shown `mem_done`. -/
theorem memDone_showing :
    Picorv32.memDone (showing (memDone p s i) s.core) (shownTo i.toInputs) = memDone p s i := by
  cases h : memDone p s i
  · simp [Picorv32.memDone, Picorv32.memXfer, showing, shownTo]
  · have hreq : i.resetn = true ∧ (s.core.main.memDoRinst || s.core.main.memDoRdata
        || s.core.main.memDoWdata) = true := by
      simp only [memDone, Bool.and_eq_true, Bool.or_eq_true] at h ⊢
      tauto
    obtain ⟨hr, hreq⟩ := hreq
    simp only [Picorv32.memDone, Picorv32.memXfer, showing, shownTo, hr, hreq]
    rfl

/-- The work of a cycle before the common end. -/
def work (p : Params) (s : State) (i : Inputs) : Work :=
  cpuStateCase p (showing (memDone p s i) s.core) (shownTo i.toInputs)
    (defaults p (showing (memDone p s i) s.core) (shownTo i.toInputs))

/-- The end of a cycle without a trap keeps the registers. -/
theorem mainStep_of_not_trap (hr : i.resetn = true) (hc : (mainStep p s i).cpuState ≠ .trap) :
    ∃ q, mainStep p s i = finish p (showing (memDone p s i) s.core) (shownTo i.toInputs)
      { work p s i with nextIrqPending := q } := by
  have hmain : mainStep p s i = finish p (showing (memDone p s i) s.core) (shownTo i.toInputs)
      (checks p (showing (memDone p s i) s.core) (shownTo i.toInputs)
        (irqInputs p (showing (memDone p s i) s.core) (shownTo i.toInputs) (work p s i))) := by
    simp only [mainStep, hr, Bool.not_true, Bool.false_eq_true, if_false, work]
  have hin : ∃ q, irqInputs p (showing (memDone p s i) s.core) (shownTo i.toInputs) (work p s i)
      = { work p s i with nextIrqPending := q } := by
    unfold irqInputs
    split
    · exact ⟨_, rfl⟩
    · exact ⟨_, rfl⟩
  obtain ⟨q, hq⟩ := hin
  rw [hq] at hmain
  obtain ⟨hm, -, h₁, h₂, h₃⟩ := @rvc_checks_passes p (showing (memDone p s i) s.core)
    (shownTo i.toInputs) { work p s i with nextIrqPending := q }
  rw [hmain] at hc ⊢
  generalize checks p (showing (memDone p s i) s.core) (shownTo i.toInputs)
    { work p s i with nextIrqPending := q } = v at *
  rcases hm with hm | hm
  · refine ⟨v.nextIrqPending, ?_⟩
    obtain ⟨main, r, d, w, q'⟩ := v
    obtain rfl : main = (work p s i).main := hm
    obtain rfl : r = (work p s i).setMemDoRinst := h₁
    obtain rfl : d = (work p s i).setMemDoRdata := h₂
    obtain rfl : w = (work p s i).setMemDoWdata := h₃
    rfl
  · exact absurd (congrArg (·.cpuState) hm) hc

theorem halfAddr_align (c : Bool) (pc : BitVec 32) :
    halfAddr (if c then pc else pc &&& ~~~1#32) = halfAddr pc := by
  cases c
  · exact halfAddr_clear pc
  · rfl

theorem mainStep_ctl (hr : i.resetn = true) (hc : (mainStep p s i).cpuState ≠ .trap) :
    (mainStep p s i).ctl = (work p s i).ctl (memDone p s i) := by
  obtain ⟨q, hq⟩ := mainStep_of_not_trap hr hc
  have hdone := @memDone_showing p s i
  have hresetn : (shownTo i.toInputs).resetn = true := hr
  rw [hq]
  cases hd : memDone p s i <;> rw [hd] at hdone
  · simp [Main.ctl, Work.ctl, finish, finishWith, hdone, hresetn]
    exact halfAddr_align p.catchMisalign _
  · simp [Main.ctl, Work.ctl, finish, finishWith, hdone, hresetn]
    exact halfAddr_align p.catchMisalign _

end Rvc

/-! ## The state `fetch` -/

section Fetch

open Rvc

variable {p : Params} {s : State} {i : Inputs} {done : Bool}

/-- Waiting for the instruction at `next_pc`. -/
theorem fetchState_seek (hc : s.main.cpuState = .fetch) (ht : s.main.decoderTrigger = false)
    (hw : s.main.irq.doWaitirq = false) (hb : s.main.latchedBranch = false)
    (hq : s.main.irq.irqState = 0) :
    (fetchState p s (defaults p s i)).ctl done =
      { cpuState := .fetch
        prefetch := !done && s.main.memDoPrefetch
        rinst := !done
        rdata := !done && s.main.memDoRdata
        wdata := !done && s.main.memDoWdata
        trigger := s.main.memDoRinst && memDone s i
        pseudo := false
        branch := false
        store := false
        stalu := false
        irqState := 0
        doWaitirq := false
        aluWait := false
        aluWait2 := false
        nextPc := halfAddr s.main.regNextPc } := by
  simp [fetchState, Work.ctl, Main.ctl, defaults, branchPc, hc, ht, hw, hb, hq]

/-- The cycle of a jump. -/
theorem fetchState_start (hc : s.main.cpuState = .fetch) (ht : s.main.decoderTrigger = false)
    (hw : s.main.irq.doWaitirq = false)
    (hb : s.main.latchedBranch = true ∧ s.main.irq.irqState = 0
      ∨ s.main.latchedBranch = false ∧ p.enableIrq = true ∧ s.main.irq.irqState = 2) :
    (fetchState p s (defaults p s i)).ctl done =
      { cpuState := .fetch
        prefetch := !done && s.main.memDoPrefetch
        rinst := !done
        rdata := !done && s.main.memDoRdata
        wdata := !done && s.main.memDoWdata
        trigger := s.main.memDoRinst && memDone s i
        pseudo := false
        branch := false
        store := false
        stalu := false
        irqState := 0
        doWaitirq := false
        aluWait := false
        aluWait2 := false
        nextPc := halfAddr (branchPc s) } := by
  rcases hb with ⟨hb, hq⟩ | ⟨hb, hp, hq⟩
  · simp [fetchState, Work.ctl, Main.ctl, defaults, hc, ht, hw, hb, hq]
  · simp [fetchState, Work.ctl, Main.ctl, defaults, hc, ht, hw, hb, hq, hp]

/-- The first cycle of an interrupt entry. -/
theorem fetchState_enter (hp : p.enableIrq = true) (hc : s.main.cpuState = .fetch)
    (hb : s.main.latchedBranch = false) (hs : s.main.latchedStore = false)
    (hq : s.main.irq.irqState = 1) :
    (fetchState p s (defaults p s i)).ctl done =
      { cpuState := .fetch
        prefetch := !done && s.main.memDoPrefetch
        rinst := !done
        rdata := !done && s.main.memDoRdata
        wdata := !done && s.main.memDoWdata
        trigger := s.main.memDoRinst && memDone s i
        pseudo := false
        branch := false
        store := false
        stalu := false
        irqState := 2
        doWaitirq := false
        aluWait := false
        aluWait2 := false
        nextPc := halfAddr p.progaddrIrq } := by
  simp [fetchState, Work.ctl, Main.ctl, defaults, hc, hb, hs, hq, hp]

/-- What becomes of a decoded instruction: an interrupt entry, `waitirq`, the next instruction, a
    jump or the state `ld_rs1`. -/
inductive Dispatched (p : Params) (s : State) (c : Ctl) : Prop
  | irq (hp : p.enableIrq = true) (hc : c.cpuState = .fetch) (hr : c.rinst = false)
      (hflow : c.branch = false ∧ c.store = false ∧ c.irqState = 1)
  | waiting (hp : p.enableIrq = true) (hf : s.first.instrWaitirq = true) (hc : c.cpuState = .fetch)
      (hr : c.rinst = false) (hflow : c.branch = false ∧ c.irqState = 0)
      (hw : c.doWaitirq = true) (hn : c.nextPc = halfAddr s.main.regNextPc)
  | next (hc : c.cpuState = .fetch) (hflow : c.branch = false ∧ c.irqState = 0)
      (hw : c.doWaitirq = false) (hn : c.nextPc = halfAddr (s.main.regNextPc + insnSize s))
  | jump (hc : c.cpuState = .fetch)
      (hflow : c.branch = true ∧ c.store = false ∧ c.irqState = 0) (hw : c.doWaitirq = false)
  | execute (ht : s.main.decoderTrigger = true) (hc : c.cpuState = .ldRs1) (hr : c.rinst = false)
      (hflow : c.branch = false ∧ c.stalu = false ∧ c.irqState = 0) (hw : c.doWaitirq = false)
      (hn : c.nextPc = halfAddr (s.main.regNextPc + insnSize s))
      (hpre : c.prefetch = (!s.first.instrJalr && !s.first.instrRetirq))

theorem fetchState_dispatch (hc : s.main.cpuState = .fetch)
    (ht : s.main.decoderTrigger = true
      ∨ p.enableIrq = true ∧ s.main.irq.doWaitirq = true ∧ s.first.instrWaitirq = true)
    (hb : s.main.latchedBranch = false) (hq : s.main.irq.irqState = 0) :
    Dispatched p s ((fetchState p s (defaults p s i)).ctl false) := by
  have hpc : branchPc s = s.main.regNextPc := by simp [branchPc, hb]
  have hwait : (!s.main.decoderTrigger && !s.main.irq.doWaitirq) = false := by
    rcases ht with ht | ⟨-, ht, -⟩ <;> simp [ht]
  by_cases hent : (p.enableIrq && ((s.main.decoderTrigger && !s.main.irq.irqActive
      && !s.main.irq.irqDelay && irqRequests s != 0) || s.main.irq.irqState != 0)) = true
  · have hen : p.enableIrq = true := (Bool.and_eq_true_iff.mp hent).1
    refine .irq hen ?_ ?_ ⟨?_, ?_, ?_⟩ <;> unfold fetchState <;> dsimp only <;> rw [if_pos hent] <;>
      simp [Work.ctl, Main.ctl, defaults, hc, hq, hwait]
  · by_cases hwaitirq : (p.enableIrq && (s.main.decoderTrigger || s.main.irq.doWaitirq)
        && s.first.instrWaitirq) = true
    · obtain ⟨⟨hen, -⟩, hf⟩ : (p.enableIrq = true
          ∧ (s.main.decoderTrigger || s.main.irq.doWaitirq) = true)
          ∧ s.first.instrWaitirq = true := by
        simpa only [Bool.and_eq_true] using hwaitirq
      by_cases hpend : (s.main.irq.irqPending != 0) = true
      · refine .next ?_ ⟨?_, ?_⟩ ?_ ?_ <;> unfold fetchState <;> dsimp only <;>
          rw [if_neg hent, if_pos hwaitirq, if_pos hpend] <;>
          simp [Work.ctl, Main.ctl, defaults, hc, hq, hpc]
      · refine .waiting hen hf ?_ ?_ ⟨?_, ?_⟩ ?_ ?_ <;> unfold fetchState <;> dsimp only <;>
          rw [if_neg hent, if_pos hwaitirq, if_neg hpend] <;>
          simp [Work.ctl, Main.ctl, defaults, hc, hq, hpc, hwait]
    · have htrigger : s.main.decoderTrigger = true := by
        rcases ht with ht | ⟨h₁, h₂, h₃⟩
        · exact ht
        · simp [h₁, h₂, h₃] at hwaitirq
      by_cases hjal : s.first.instrJal = true
      · refine .jump ?_ ⟨?_, ?_, ?_⟩ ?_ <;> unfold fetchState <;> dsimp only <;>
          rw [if_neg hent, if_neg hwaitirq, if_pos htrigger, if_pos hjal] <;>
          simp [Work.ctl, Main.ctl, defaults, hc, hq]
      · refine .execute htrigger ?_ ?_ ⟨?_, ?_, ?_⟩ ?_ ?_ ?_ <;> unfold fetchState <;>
          dsimp only <;> rw [if_neg hent, if_neg hwaitirq, if_pos htrigger, if_neg hjal]
        · rfl
        · rfl
        · rfl
        · rfl
        · exact hq
        · rfl
        · simp [Work.ctl, Main.ctl, branchPc, hb, hq]
        · simp [Work.ctl]

/-- What `fetch` leaves as it is. -/
structure Work.Rested (s : State) (i : Inputs) (w : Work) : Prop where
  data : w.main.memDoRdata = s.main.memDoRdata ∧ w.main.memDoWdata = s.main.memDoWdata
  trigger : w.main.decoderTrigger = (s.main.memDoRinst && memDone s i)
  pseudo : w.main.decoderPseudoTrigger = false
  sets : w.setMemDoRdata = false ∧ w.setMemDoWdata = false
  prefetch : w.main.cpuState = .fetch → w.main.memDoPrefetch = s.main.memDoPrefetch

theorem rested_ite {c : Prop} [Decidable c] {x y : Work} (hx : x.Rested s i) (hy : y.Rested s i) :
    (if c then x else y).Rested s i := by
  by_cases hc : c
  · rw [if_pos hc]; exact hx
  · rw [if_neg hc]; exact hy

theorem fetchState_rested : (fetchState p s (defaults p s i)).Rested s i := by
  have hrest : ∀ w : Work, w.main.memDoRdata = s.main.memDoRdata →
      w.main.memDoWdata = s.main.memDoWdata →
      w.main.decoderTrigger = (s.main.memDoRinst && memDone s i) →
      w.main.decoderPseudoTrigger = false → w.setMemDoRdata = false → w.setMemDoWdata = false →
      w.main.memDoPrefetch = s.main.memDoPrefetch → w.Rested s i :=
    fun w h₁ h₂ h₃ h₄ h₅ h₆ h₇ => ⟨⟨h₁, h₂⟩, h₃, h₄, ⟨h₅, h₆⟩, fun _ => h₇⟩
  unfold fetchState
  dsimp only
  refine rested_ite ?_ (rested_ite (rested_ite ?_ ?_) (rested_ite (rested_ite ?_ ?_) ?_))
  · exact hrest _ rfl rfl rfl rfl rfl rfl rfl
  · exact hrest _ rfl rfl rfl rfl rfl rfl rfl
  · exact hrest _ rfl rfl rfl rfl rfl rfl rfl
  · exact hrest _ rfl rfl rfl rfl rfl rfl rfl
  · exact ⟨⟨rfl, rfl⟩, rfl, rfl, ⟨rfl, rfl⟩, fun h => by cases h⟩
  · exact hrest _ rfl rfl rfl rfl rfl rfl rfl

end Fetch

/-! ## The states that read the operands -/

section Operands

open Rvc

variable {p : Params} {s : State} {i : Inputs} {w : Work} {f : First} {n : BitVec 31}

/-- The ALU is not ready yet. -/
def Ctl.waits (p : Params) (c : Ctl) : Bool :=
  (p.twoCycleAlu || p.twoCycleCompare) && (c.aluWait || c.aluWait2)

/-- The instruction is being executed while the one at `n` is prefetched; nothing is decided. -/
structure Ctl.Calm (prefetch : Bool) (n : BitVec 31) (c : Ctl) : Prop where
  prefetch : c.prefetch = prefetch
  data : c.rdata = false ∧ c.wdata = false
  trigger : c.trigger = false
  irq : c.irqState = 0 ∧ c.doWaitirq = false
  nextPc : c.nextPc = n

/-- Where the states `ld_rs1` and `ld_rs2` lead. -/
def Ctl.Leaves (p : Params) (f : First) (prefetch : Bool) (n : BitVec 31) (c : Ctl) : Prop :=
  c.Calm prefetch n ∧ match c.cpuState with
    | .trap => True
    | .fetch => c.branch = true → prefetch = false ∧ c.rinst = false
    | .ldRs1 | .ldRs2 | .shift => c.branch = false ∧ c.stalu = false ∧ c.rinst = false
    | .exec => (c.branch = false ∧ c.stalu = false ∧ c.rinst = (prefetch && !c.waits p))
        ∧ (f.isBeqBneBltBgeBltuBgeu = true →
          c.aluWait = (p.twoCycleAlu || p.twoCycleCompare)
            ∧ c.aluWait2 = (p.twoCycleAlu && p.twoCycleCompare))
    | .stmem | .ldmem => c.branch = false ∧ c.stalu = false ∧ c.rinst = true ∧ prefetch = true

/-- The registers with nothing assigned yet. -/
structure Work.Calm (prefetch : Bool) (n : BitVec 31) (w : Work) : Prop where
  calm : (w.ctl false).Calm prefetch n
  flow : w.main.latchedBranch = false ∧ w.main.latchedStalu = false
  rinst : w.main.memDoRinst = false ∧ w.setMemDoRinst = false
  wait : w.main.aluWait = false ∧ w.main.aluWait2 = false

theorem leaves_ite {c : Prop} [Decidable c] {x y : Work}
    {prefetch : Bool} (hx : c → (x.ctl false).Leaves p f prefetch n)
    (hy : ¬c → (y.ctl false).Leaves p f prefetch n) :
    ((if c then x else y).ctl false).Leaves p f prefetch n := by
  by_cases hc : c
  · rw [if_pos hc]; exact hx hc
  · rw [if_neg hc]; exact hy hc

variable {prefetch : Bool}

/-- A state that requests nothing further. -/
theorem leaves_reading {c : CpuState} (hw : w.Calm prefetch n)
    (hc : c = .ldRs1 ∨ c = .ldRs2 ∨ c = .shift ∨ c = .trap) (hs : w.main.cpuState = c) :
    (w.ctl false).Leaves p f prefetch n := by
  obtain ⟨hcalm, ⟨hb, ht⟩, ⟨hr, hr'⟩, -⟩ := hw
  refine ⟨hcalm, ?_⟩
  have hstate : (w.ctl false).cpuState = c := hs
  have hrinst : (w.ctl false).rinst = false := by simp [Work.ctl, hr, hr']
  rw [hstate]
  rcases hc with rfl | rfl | rfl | rfl
  · exact ⟨hb, ht, hrinst⟩
  · exact ⟨hb, ht, hrinst⟩
  · exact ⟨hb, ht, hrinst⟩
  · trivial

theorem leaves_trapOrIrq {k : ℕ} (hw : w.Calm prefetch n) :
    ((trapOrIrq p s k .fetch w).ctl false).Leaves p f prefetch n := by
  obtain ⟨⟨h₁, h₂, h₃, h₄, h₅⟩, ⟨hb, ht⟩, -⟩ := hw
  refine leaves_ite (fun _ => ⟨⟨h₁, h₂, h₃, h₄, h₅⟩, fun hbranch => ?_⟩)
    (fun _ => ⟨⟨h₁, h₂, h₃, h₄, h₅⟩, trivial⟩)
  exact absurd (hb.symm.trans hbranch) (by simp)

theorem leaves_pcpiState (hw : w.Calm prefetch n)
    (hc : w.main.cpuState = .ldRs1 ∨ w.main.cpuState = .ldRs2) :
    ((pcpiState p s i w).ctl false).Leaves p f prefetch n := by
  obtain ⟨⟨h₁, h₂, h₃, h₄, h₅⟩, ⟨hb, ht⟩, hr, hwait⟩ := hw
  refine leaves_ite (fun _ => ⟨⟨h₁, h₂, h₃, h₄, h₅⟩, fun hbranch => ?_⟩)
    (fun _ => leaves_ite (fun _ => leaves_trapOrIrq ⟨⟨h₁, h₂, h₃, h₄, h₅⟩, ⟨hb, ht⟩, hr, hwait⟩)
      (fun _ => ?_))
  · exact absurd (hb.symm.trans hbranch) (by simp)
  · rcases hc with hc | hc
    · exact leaves_reading ⟨⟨h₁, h₂, h₃, h₄, h₅⟩, ⟨hb, ht⟩, hr, hwait⟩ (.inl rfl) hc
    · exact leaves_reading ⟨⟨h₁, h₂, h₃, h₄, h₅⟩, ⟨hb, ht⟩, hr, hwait⟩ (.inr (.inl rfl)) hc

/-- The instruction being executed asked for the prefetch, unless it is a `jalr` or `retirq`. -/
theorem leaves_operandsState (hw : w.Calm prefetch n) (hpre : s.main.memDoPrefetch = prefetch)
    (hstore : s.first.isSbShSw = true → prefetch = true) :
    ((operandsState p s w).ctl false).Leaves p s.first prefetch n := by
  obtain ⟨⟨h₁, h₂, h₃, h₄, h₅⟩, ⟨hb, ht⟩, ⟨hr, hr'⟩, hwait⟩ := hw
  unfold operandsState
  dsimp only
  refine leaves_ite (fun hs => ⟨⟨h₁, h₂, h₃, h₄, h₅⟩, hb, ht, ?_, hstore hs⟩)
    (fun _ => leaves_ite (fun _ => ?_) (fun _ => ?_))
  · simp [Work.ctl]
  · exact leaves_reading ⟨⟨h₁, h₂, h₃, h₄, h₅⟩, ⟨hb, ht⟩, ⟨hr, hr'⟩, hwait⟩ (.inr (.inr (.inl rfl)))
      rfl
  · by_cases hslow : (p.twoCycleAlu || (p.twoCycleCompare && s.first.isBeqBneBltBgeBltuBgeu)) = true
    · rw [if_pos hslow]
      refine ⟨⟨h₁, h₂, h₃, h₄, h₅⟩, ⟨hb, ht, ?_⟩, fun hbr => ?_⟩
      · have hflag : (p.twoCycleAlu || p.twoCycleCompare) = true := by
          revert hslow
          cases p.twoCycleAlu <;> cases p.twoCycleCompare <;> simp
        simp [Work.ctl, Main.ctl, Ctl.waits, hr, hr', hflag]
      · rw [hbr, Bool.and_true] at hslow
        simp [Work.ctl, Main.ctl, hbr, hslow]
    · rw [if_neg hslow]
      refine ⟨⟨h₁, h₂, h₃, h₄, h₅⟩, ⟨hb, ht, ?_⟩, fun hbr => ?_⟩
      · simp [Work.ctl, Main.ctl, Ctl.waits, hr', hpre, hwait.1, hwait.2]
      · rw [hbr, Bool.and_true, Bool.not_eq_true] at hslow
        obtain ⟨h₁, h₂⟩ := Bool.or_eq_false_iff.mp hslow
        simp [Work.ctl, Main.ctl, hwait.1, hwait.2, h₁, h₂]

theorem leaves_toExec {op1 op2 : BitVec 32} (hw : w.Calm prefetch n)
    (hpre : s.main.memDoPrefetch = prefetch) (hbr : s.first.isBeqBneBltBgeBltuBgeu = false) :
    ((toExec p s op1 op2 w).ctl false).Leaves p s.first prefetch n := by
  obtain ⟨⟨h₁, h₂, h₃, h₄, h₅⟩, ⟨hb, ht⟩, ⟨hr, hr'⟩, hwait⟩ := hw
  unfold toExec
  dsimp only
  cases halu : p.twoCycleAlu
  · rw [if_neg (by simp)]
    refine ⟨⟨h₁, h₂, h₃, h₄, h₅⟩, ⟨hb, ht, ?_⟩, fun h => absurd (hbr.symm.trans h) (by simp)⟩
    simp [Work.ctl, Main.ctl, Ctl.waits, hr', hpre, hwait.1, hwait.2]
  · rw [if_pos rfl]
    refine ⟨⟨h₁, h₂, h₃, h₄, h₅⟩, ⟨hb, ht, ?_⟩, fun h => absurd (hbr.symm.trans h) (by simp)⟩
    simp [Work.ctl, Main.ctl, Ctl.waits, hr, hr', halu]

theorem leaves_toFetch {v : BitVec 32} (hw : w.Calm prefetch n) :
    ((toFetch v w).ctl false).Leaves p f prefetch n := by
  obtain ⟨⟨h₁, h₂, h₃, h₄, h₅⟩, ⟨hb, -⟩, -⟩ := hw
  exact ⟨⟨h₁, h₂, h₃, h₄, h₅⟩, fun hbranch => absurd (hb.symm.trans hbranch) (by simp)⟩

/-- What holds of the decoded instruction while its operands are read. -/
structure Reads (s : State) (prefetch : Bool) : Prop where
  requested : s.main.memDoPrefetch = prefetch
  quiet : s.first.instrJalr = true ∨ s.first.instrRetirq = true → prefetch = false
  asked : s.first.instrJalr = false → s.first.instrRetirq = false → prefetch = true
  orderly : Orderly s.first
  second : s.second.Branching s.first

theorem Reads.store {s : State} (h : Reads s prefetch) (hs : s.first.isSbShSw = true) :
    prefetch = true :=
  h.asked (h.orderly.1.store hs).1 (h.orderly.1.store hs).2

theorem leaves_ldRs1State (h : Reads s prefetch) (hw : w.Calm prefetch n)
    (hc : w.main.cpuState = .ldRs1)
    (hlui : s.first.isBeqBneBltBgeBltuBgeu = true → s.classes.isLuiAuipcJal = false) :
    ((ldRs1State p s i w).ctl false).Leaves p s.first prefetch n := by
  obtain ⟨⟨h₁, h₂, h₃, h₄, h₅⟩, ⟨hb, ht⟩, ⟨hr, hr'⟩, hwait⟩ := hw
  have hbranch : ∀ {b : Bool}, (s.first.isBeqBneBltBgeBltuBgeu = true → b = false) → b = true →
      s.first.isBeqBneBltBgeBltuBgeu = false := by
    intro b hb hb'
    cases hbr : s.first.isBeqBneBltBgeBltuBgeu
    · rfl
    · rw [hb hbr] at hb'
      cases hb'
  unfold ldRs1State
  dsimp only
  refine leaves_ite (fun _ => leaves_ite (fun _ => leaves_ite (fun _ => ?_) (fun _ => ?_))
      (fun _ => ?_))
    (fun _ => leaves_ite (fun _ => ?_) (fun _ => leaves_ite (fun hl => ?_)
    (fun _ => leaves_ite (fun _ => ?_) (fun _ => leaves_ite (fun _ => ?_)
    (fun _ => leaves_ite (fun hretirq => ?_) (fun _ => leaves_ite (fun _ => ?_)
    (fun _ => leaves_ite (fun _ => ?_) (fun _ => leaves_ite (fun hload => ?_)
    (fun _ => leaves_ite (fun _ => ?_) (fun _ => leaves_ite (fun hi => ?_)
    (fun _ => leaves_ite (fun _ => ?_) (fun _ => ?_))))))))))))
  · exact leaves_pcpiState ⟨⟨h₁, h₂, h₃, h₄, h₅⟩, ⟨hb, ht⟩, ⟨hr, hr'⟩, hwait⟩ (.inl hc)
  · exact leaves_reading ⟨⟨h₁, h₂, h₃, h₄, h₅⟩, ⟨hb, ht⟩, ⟨hr, hr'⟩, hwait⟩ (.inr (.inl rfl)) rfl
  · exact leaves_trapOrIrq ⟨⟨h₁, h₂, h₃, h₄, h₅⟩, ⟨hb, ht⟩, ⟨hr, hr'⟩, hwait⟩
  · exact leaves_toFetch ⟨⟨h₁, h₂, h₃, h₄, h₅⟩, ⟨hb, ht⟩, ⟨hr, hr'⟩, hwait⟩
  · exact leaves_toExec ⟨⟨h₁, h₂, h₃, h₄, h₅⟩, ⟨hb, ht⟩, ⟨hr, hr'⟩, hwait⟩ h.requested
      (hbranch hlui hl)
  · exact leaves_toFetch ⟨⟨h₁, h₂, h₃, h₄, h₅⟩, ⟨hb, ht⟩, ⟨hr, hr'⟩, hwait⟩
  · exact leaves_toFetch ⟨⟨h₁, h₂, h₃, h₄, h₅⟩, ⟨hb, ht⟩, ⟨hr, hr'⟩, hwait⟩
  · -- `retirq` jumps, without a prefetch
    refine ⟨⟨h₁, h₂, h₃, h₄, h₅⟩, fun _ => ⟨h.quiet (.inr ?_), ?_⟩⟩
    · exact (Bool.and_eq_true_iff.mp hretirq).2
    · simp [toFetch, Work.ctl, hr, hr']
  · exact leaves_toFetch ⟨⟨h₁, h₂, h₃, h₄, h₅⟩, ⟨hb, ht⟩, ⟨hr, hr'⟩, hwait⟩
  · exact leaves_toFetch ⟨⟨h₁, h₂, h₃, h₄, h₅⟩, ⟨hb, ht⟩, ⟨hr, hr'⟩, hwait⟩
  · have hload : s.first.isLbLhLwLbuLhu = true := (Bool.and_eq_true_iff.mp hload).1
    obtain ⟨hj, hq⟩ := h.orderly.1.load hload
    refine ⟨⟨h₁, h₂, h₃, h₄, h₅⟩, hb, ht, ?_, h.asked hj hq⟩
    simp [Work.ctl]
  · exact leaves_reading ⟨⟨h₁, h₂, h₃, h₄, h₅⟩, ⟨hb, ht⟩, ⟨hr, hr'⟩, hwait⟩
      (.inr (.inr (.inl rfl))) rfl
  · refine leaves_toExec ⟨⟨h₁, h₂, h₃, h₄, h₅⟩, ⟨hb, ht⟩, ⟨hr, hr'⟩, hwait⟩ h.requested
      (hbranch (fun hbr => ?_) hi)
    obtain ⟨h₁, h₂⟩ := h.second hbr
    rw [h₁, h₂]
    rfl
  · exact leaves_operandsState ⟨⟨h₁, h₂, h₃, h₄, h₅⟩, ⟨hb, ht⟩, ⟨hr, hr'⟩, hwait⟩ h.requested h.store
  · exact leaves_reading ⟨⟨h₁, h₂, h₃, h₄, h₅⟩, ⟨hb, ht⟩, ⟨hr, hr'⟩, hwait⟩ (.inr (.inl rfl)) rfl

theorem leaves_ldRs2State (h : Reads s prefetch) (hw : w.Calm prefetch n)
    (hc : w.main.cpuState = .ldRs2) :
    ((ldRs2State p s i w).ctl false).Leaves p s.first prefetch n := by
  obtain ⟨⟨h₁, h₂, h₃, h₄, h₅⟩, ⟨hb, ht⟩, ⟨hr, hr'⟩, hwait⟩ := hw
  unfold ldRs2State
  dsimp only
  refine leaves_ite (fun _ => ?_) (fun _ => ?_)
  · exact leaves_pcpiState ⟨⟨h₁, h₂, h₃, h₄, h₅⟩, ⟨hb, ht⟩, ⟨hr, hr'⟩, hwait⟩ (.inr hc)
  · exact leaves_operandsState ⟨⟨h₁, h₂, h₃, h₄, h₅⟩, ⟨hb, ht⟩, ⟨hr, hr'⟩, hwait⟩ h.requested h.store

end Operands

/-! ## Execution, loads and stores -/

section Execution

open Rvc

variable {p : Params} {s : State} {i : Inputs} {done : Bool}

/-- `exec` while the ALU is not ready. -/
theorem execState_wait (hwait : (s.main.ctl.waits p) = true) :
    (execState p s i (defaults p s i)).ctl done =
      { s.main.ctl with
        prefetch := !done && s.main.memDoPrefetch
        rinst := !done && (s.main.memDoPrefetch && !s.main.aluWait2)
        rdata := !done && s.main.memDoRdata
        wdata := !done && s.main.memDoWdata
        trigger := s.main.memDoRinst && memDone s i
        pseudo := false
        doWaitirq := false
        aluWait := s.main.aluWait2
        aluWait2 := false } := by
  have hcond : ((p.twoCycleAlu || p.twoCycleCompare) && (s.main.aluWait || s.main.aluWait2)) = true :=
    hwait
  unfold execState
  dsimp only
  rw [if_pos hcond]
  rfl

/-- The outcome of a comparison. -/
def taken (p : Params) (s : State) (i : Inputs) : Bool :=
  if p.twoCycleCompare then s.main.aluOut0Q else aluOut0 p s i

theorem execState_branch (hwait : (s.main.ctl.waits p) = false)
    (hbr : s.first.isBeqBneBltBgeBltuBgeu = true) :
    (execState p s i (defaults p s i)).ctl done =
      { s.main.ctl with
        cpuState := if memDone s i then .fetch else s.main.cpuState
        prefetch := !done && s.main.memDoPrefetch
        rinst := taken p s i || (!done && s.main.memDoRinst)
        rdata := !done && s.main.memDoRdata
        wdata := !done && s.main.memDoWdata
        trigger := !taken p s i && (s.main.memDoRinst && memDone s i)
        pseudo := false
        branch := taken p s i
        store := taken p s i
        doWaitirq := false
        aluWait := false
        aluWait2 := false } := by
  have hcond : ¬((p.twoCycleAlu || p.twoCycleCompare) && (s.main.aluWait || s.main.aluWait2)) = true := by
    rw [Bool.not_eq_true]
    exact hwait
  unfold execState
  dsimp only
  rw [if_neg hcond, if_pos hbr]
  have htaken : taken p s i = if p.twoCycleCompare then s.main.aluOut0Q else aluOut0 p s i := rfl
  rw [← htaken]
  cases taken p s i <;> simp [Work.ctl, Main.ctl, defaults]

/-- The result is there: `exec` ends, and a `jalr` jumps. -/
theorem execState_end (hwait : (s.main.ctl.waits p) = false)
    (hbr : s.first.isBeqBneBltBgeBltuBgeu = false) :
    (execState p s i (defaults p s i)).ctl done =
      { s.main.ctl with
        cpuState := .fetch
        prefetch := !done && s.main.memDoPrefetch
        rinst := !done && s.main.memDoRinst
        rdata := !done && s.main.memDoRdata
        wdata := !done && s.main.memDoWdata
        trigger := s.main.memDoRinst && memDone s i
        pseudo := false
        branch := s.first.instrJalr
        store := true
        stalu := true
        doWaitirq := false
        aluWait := false
        aluWait2 := false } := by
  have hcond : ¬((p.twoCycleAlu || p.twoCycleCompare) && (s.main.aluWait || s.main.aluWait2)) = true := by
    rw [Bool.not_eq_true]
    exact hwait
  unfold execState
  dsimp only
  rw [if_neg hcond, if_neg (by simp [hbr])]
  simp [Work.ctl, Main.ctl, defaults]

/-- The shifter stays, or ends with the request for the next instruction. -/
theorem shiftState_ctl (hr : s.main.memDoRinst = false) :
    (shiftState p s (defaults p s i)).ctl false =
      { s.main.ctl with
        cpuState := if s.main.regSh == 0 then .fetch else s.main.cpuState
        rinst := (s.main.regSh == 0) && s.main.memDoPrefetch
        trigger := false
        pseudo := false
        store := true
        doWaitirq := false
        aluWait := false
        aluWait2 := false } := by
  unfold shiftState
  dsimp only
  by_cases h0 : s.main.regSh = 0#5
  · have hz : (s.main.regSh == 0) = true := beq_iff_eq.mpr h0
    rw [if_pos hz]
    simp [Work.ctl, Main.ctl, defaults, h0, hr]
  · have hz : ¬(s.main.regSh == 0) = true := fun h => h0 (beq_iff_eq.mp h)
    rw [if_neg hz]
    split <;> simp [Work.ctl, Main.ctl, defaults, h0, hr]

/-- A load or a store waits for the next instruction; then it requests its own access. -/
theorem memState_wait (hc : s.main.cpuState = .stmem ∨ s.main.cpuState = .ldmem)
    (hp : s.main.memDoPrefetch = true) (hr : s.main.memDoRinst = true)
    (hd : s.main.memDoRdata = false) (hw : s.main.memDoWdata = false) :
    (cpuStateCase p s i (defaults p s i)).ctl (memDone s i) =
      { s.main.ctl with
        prefetch := !memDone s i
        rinst := !memDone s i
        rdata := memDone s i && (s.main.cpuState == .ldmem)
        wdata := memDone s i && (s.main.cpuState == .stmem)
        trigger := memDone s i
        pseudo := false
        store := s.main.latchedStore || (s.main.cpuState == .ldmem)
        doWaitirq := false
        aluWait := false
        aluWait2 := false } := by
  rcases hc with hc | hc
  · cases hdone : memDone s i <;> cases htr : p.enableTrace <;>
      simp [cpuStateCase, stmemState, memoryDone, Work.ctl, Main.ctl, defaults, hc, hp, hr, hd, hw,
        hdone, htr]
  · cases hdone : memDone s i <;>
      simp [cpuStateCase, ldmemState, memoryDone, Work.ctl, Main.ctl, defaults, hc, hp, hr, hd, hw,
        hdone]

/-- The access of a load or a store. -/
theorem memState_access (hp : s.main.memDoPrefetch = false) (hr : s.main.memDoRinst = false)
    (hc : s.main.cpuState = .stmem ∧ s.main.memDoWdata = true
      ∨ s.main.cpuState = .ldmem ∧ s.main.memDoRdata = true) :
    (cpuStateCase p s i (defaults p s i)).ctl (memDone s i) =
      { s.main.ctl with
        cpuState := if memDone s i then .fetch else s.main.cpuState
        rdata := !memDone s i && s.main.memDoRdata
        wdata := !memDone s i && s.main.memDoWdata
        trigger := memDone s i
        pseudo := memDone s i
        store := s.main.latchedStore || (s.main.cpuState == .ldmem)
        doWaitirq := false
        aluWait := false
        aluWait2 := false } := by
  rcases hc with ⟨hc, hd⟩ | ⟨hc, hd⟩
  · cases hdone : memDone s i <;> cases htr : p.enableTrace <;>
      simp [cpuStateCase, stmemState, memoryDone, Work.ctl, Main.ctl, defaults, hc, hp, hr, hd,
        hdone, htr]
  · cases hdone : memDone s i <;>
      simp [cpuStateCase, ldmemState, memoryDone, Work.ctl, Main.ctl, defaults, hc, hp, hr, hd,
        hdone]

end Execution

/-! ## The outcome of a branch -/

section Outcome

variable {p : Params} {s s' : State} {i i' : Inputs} {x : Bool}

/-- The registers a comparison reads. -/
structure SameOperands (s s' : State) : Prop where
  second : s'.second = s.second
  ops : s'.main.regOp1 = s.main.regOp1 ∧ s'.main.regOp2 = s.main.regOp2
  classes : s'.classes.isSltiBltSlt = s.classes.isSltiBltSlt
    ∧ s'.classes.isSltiuBltuSltu = s.classes.isSltiuBltuSltu

theorem aluWires_same (h : SameOperands s s') : aluWires s' = aluWires s := by
  simp only [aluWires, h.second, h.ops.1, h.ops.2]

theorem aluOut0_same (h : SameOperands s s') (hn : aluNow p s' = aluNow p s)
    (hi : i'.undef.aluOut0 = i.undef.aluOut0) : aluOut0 p s' i' = aluOut0 p s i := by
  simp only [aluOut0, hn, h.second, h.classes.1, h.classes.2, hi]

/-- The registered half of the ALU has seen the operands. -/
def AluReady (p : Params) (s : State) : Prop := p.twoCycleAlu = true → s.alu = aluWires s

theorem aluNow_of_ready (h : AluReady p s) : aluNow p s = aluWires s := by
  unfold aluNow
  split
  case isTrue ht => exact h ht
  case isFalse => rfl

/-- The registered comparison has seen them; `x` is the undefined outcome. -/
def Compared (p : Params) (x : Bool) (s : State) : Prop :=
  p.twoCycleCompare = true → ∀ i : Inputs, i.undef.aluOut0 = x → s.main.aluOut0Q = aluOut0 p s i

/-- How far a branch in the state `exec` has come. -/
def Stage (p : Params) (x : Bool) (s : State) : Prop :=
  if s.main.aluWait2 then
    s.main.aluWait = true ∧ p.twoCycleAlu = true ∧ p.twoCycleCompare = true
  else if s.main.aluWait then
    (p.twoCycleAlu || p.twoCycleCompare) = true ∧ (p.twoCycleCompare = true → AluReady p s)
  else AluReady p s ∧ Compared p x s

theorem Stage.settled (h : Stage p x s) (hw : s.main.ctl.waits p = false) :
    AluReady p s ∧ Compared p x s := by
  unfold Stage at h
  split at h
  case isTrue h2 =>
    have h2 : s.main.ctl.aluWait2 = true := h2
    simp [Ctl.waits, h.2.1, h2] at hw
  case isFalse h2 =>
    split at h
    case isTrue h1 =>
      have h1 : s.main.ctl.aluWait = true := h1
      simp [Ctl.waits, h.1, h1] at hw
    case isFalse => exact h

/-- A settled comparison stays as it is. -/
theorem settled_step (h : AluReady p s ∧ Compared p x s) (hs : SameOperands s s')
    (halu : s'.alu = aluStep p s) (hq : s'.main.aluOut0Q = aluOut0 p s i)
    (hi : i.undef.aluOut0 = x) : AluReady p s' ∧ Compared p x s' := by
  have hready : AluReady p s' := by
    intro ht
    rw [halu, aluStep, if_pos ht, aluWires_same hs]
  refine ⟨hready, fun _ i' hi' => ?_⟩
  have hnow : aluNow p s' = aluNow p s := by
    rw [aluNow_of_ready hready, aluNow_of_ready h.1, aluWires_same hs]
  rw [hq]
  exact (aluOut0_same hs hnow (hi'.trans hi.symm)).symm

/-- The outcome of a settled comparison is the same in the next cycle. -/
theorem taken_step (h : AluReady p s ∧ Compared p x s) (h' : AluReady p s' ∧ Compared p x s')
    (hs : SameOperands s s') (hi : i.undef.aluOut0 = x) (hi' : i'.undef.aluOut0 = x) :
    taken p s' i' = taken p s i := by
  have hnow : aluNow p s' = aluNow p s := by
    rw [aluNow_of_ready h'.1, aluNow_of_ready h.1, aluWires_same hs]
  have hout : aluOut0 p s' i' = aluOut0 p s i := aluOut0_same hs hnow (hi'.trans hi.symm)
  unfold taken
  split
  case isTrue hc => rw [h'.2 hc i' hi', h.2 hc i hi, hout]
  case isFalse => exact hout

/-- A waiting cycle brings a branch one stage further. -/
theorem stage_step (h : Stage p x s) (hw : s.main.ctl.waits p = true) (hs : SameOperands s s')
    (halu : s'.alu = aluStep p s) (hq : s'.main.aluOut0Q = aluOut0 p s i)
    (hi : i.undef.aluOut0 = x)
    (hwait : s'.main.aluWait = s.main.aluWait2 ∧ s'.main.aluWait2 = false) : Stage p x s' := by
  have hready : AluReady p s' := by
    intro ht
    rw [halu, aluStep, if_pos ht, aluWires_same hs]
  unfold Stage at h ⊢
  rw [hwait.1, hwait.2, if_neg (by simp)]
  cases h2 : s.main.aluWait2
  · rw [h2, if_neg (by simp)] at h
    cases h1 : s.main.aluWait
    · have h1 : s.main.ctl.aluWait = false := h1
      have h2 : s.main.ctl.aluWait2 = false := h2
      simp [Ctl.waits, h1, h2] at hw
    · rw [h1, if_pos rfl] at h
      rw [if_neg (by simp)]
      refine ⟨hready, fun hc i' hi' => ?_⟩
      have hnow : aluNow p s' = aluNow p s := by
        rw [aluNow_of_ready hready, aluNow_of_ready (h.2 hc), aluWires_same hs]
      rw [hq]
      exact (aluOut0_same hs hnow (hi'.trans hi.symm)).symm
  · rw [h2, if_pos rfl] at h
    rw [if_pos rfl]
    refine ⟨?_, fun _ => hready⟩
    rw [h.2.1, Bool.true_or]

/-- A branch enters `exec` with nothing settled, or nothing to wait for. -/
theorem stage_of_entered (h1 : s.main.aluWait = (p.twoCycleAlu || p.twoCycleCompare))
    (h2 : s.main.aluWait2 = (p.twoCycleAlu && p.twoCycleCompare)) : Stage p x s := by
  unfold Stage AluReady Compared
  rw [h1, h2]
  cases p.twoCycleAlu <;> cases p.twoCycleCompare <;> simp

end Outcome

end PicoSoc.Picorv32
