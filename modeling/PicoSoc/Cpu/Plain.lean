import PicoSoc.Cpu.InstrDecode
import PicoSoc.Cpu.Machine

set_option autoImplicit false

/-! # The edge without interrupts and coprocessors

Under `Plain` the main state machine takes the branch of its state, the checks send misaligned
accesses and jumps to `trap`, and the requests are cleared when the memory interface is done. -/

namespace PicoSoc.Picorv32

/-- No interrupts, no coprocessor, and the other parameters as they come; the timing options and the
    counters are free. -/
structure Plain (p : Params) : Prop where
  enableRegs1631 : p.enableRegs1631 = true
  latchedMemRdata : p.latchedMemRdata = false
  catchMisalign : p.catchMisalign = true
  catchIllinsn : p.catchIllinsn = true
  withPcpi : p.withPcpi = false
  enableIrq : p.enableIrq = false
  enableTrace : p.enableTrace = false
  progaddrReset : Rv32i.Aligned 4 p.progaddrReset
  stackaddr : p.stackaddr = 0xffffffff

variable {p : Params} {s : State} {i : Inputs}

/-! ## Decoder -/

theorem regindex_setWidth (hp : Plain p) (r : BitVec 5) :
    p.regindex (r.setWidth 6) = r.setWidth 6 := by
  have hbits : p.regindexBits = 5 := by
    rw [Params.regindexBits, hp.enableRegs1631, hp.enableIrq]
    rfl
  rw [Params.regindex, hbits]
  apply BitVec.eq_of_toNat_eq
  have := r.isLt
  simp only [BitVec.toNat_setWidth]
  omega

theorem decodedRd_plain (hp : Plain p) (w : BitVec 32) :
    (decodeFirst p w).decodedRd = (fieldRd w).setWidth 6 := regindex_setWidth hp _

theorem decodedRs1_plain (hp : Plain p) (w : BitVec 32) :
    (decodeFirst p w).decodedRs1 = (fieldRs1 w).setWidth 6 := by
  simp only [decodeFirst, hp.enableIrq, Bool.and_false, Bool.false_eq_true, if_false,
    Bool.false_and]
  exact regindex_setWidth hp _

theorem retirq_plain (hp : Plain p) (w : BitVec 32) :
    (decodeFirst p w).instrRetirq = false ∧ (decodeFirst p w).instrWaitirq = false := by
  simp only [decodeFirst, hp.enableIrq, Bool.and_false]
  exact ⟨trivial, trivial⟩

/-! ## Main state machine -/

/-- What the checks look for. -/
def Faulty (m : Main) : Bool :=
  ((m.memDoRdata || m.memDoWdata)
      && ((m.memWordsize == 0 && m.regOp1.extractLsb' 0 2 != 0)
        || (m.memWordsize == 1 && m.regOp1.getLsbD 0)))
    || (m.memDoRinst && m.regPc.extractLsb' 0 2 != 0)

theorem trapOrIrq_plain (hp : Plain p) (n : ℕ) (target : CpuState) (w : Work) :
    trapOrIrq p s n target w = { w with main := { w.main with cpuState := .trap } } := by
  rw [trapOrIrq, if_neg]
  rw [hp.enableIrq]
  simp

theorem irqInputs_plain (hp : Plain p) (w : Work) : irqInputs p s i w = w := by
  rw [irqInputs, if_neg]
  rw [hp.enableIrq]
  simp

/-- A work with the trap in it. -/
def Work.trapped (w : Work) (b : Bool) : Work :=
  if b then { w with main := { w.main with cpuState := .trap } } else w

theorem trapped_trapped (w : Work) (a b : Bool) : (w.trapped a).trapped b = w.trapped (a || b) := by
  cases a <;> cases b <;> rfl

theorem checks_plain (hp : Plain p) (hr : i.resetn = true) (w : Work) :
    checks p s i w = w.trapped (Faulty s.main) := by
  have hcheck : ∀ (c : Bool) (n : ℕ) (v : Work),
      (if c = true then trapOrIrq p s n v.main.cpuState v else v) = v.trapped c := by
    intro c n v
    rw [trapOrIrq_plain hp]
    rfl
  unfold checks checksWith
  dsimp only
  rw [hcheck, hcheck, hcheck, trapped_trapped, trapped_trapped, hp.catchMisalign, hp.catchIllinsn, hr,
    Faulty]
  rw [if_neg (by simp)]
  congr 1
  cases s.main.memDoRdata || s.main.memDoWdata <;> simp [Bool.or_assoc]

/-- The assignments at the end of the block. -/
def Work.finished (p : Params) (w : Work) (done : Bool) : Main :=
  { w.main with
    memDoPrefetch := w.main.memDoPrefetch && !done
    memDoRinst := w.setMemDoRinst || (w.main.memDoRinst && !done)
    memDoRdata := w.setMemDoRdata || (w.main.memDoRdata && !done)
    memDoWdata := w.setMemDoWdata || (w.main.memDoWdata && !done)
    irq := { w.main.irq with irqPending := w.nextIrqPending &&& ~~~p.maskedIrq } }

theorem finish_plain (hp : Plain p) (hr : i.resetn = true) (w : Work) :
    finish p s i w = w.finished p (memDone s i) := by
  unfold finish finishWith Work.finished
  simp only [hp.catchMisalign, hr, Bool.not_true, Bool.false_or, if_true]
  cases memDone s i <;> cases w.setMemDoRinst <;> cases w.setMemDoRdata <;> cases w.setMemDoWdata <;>
    simp

theorem mainStep_plain (hp : Plain p) (hr : i.resetn = true) :
    mainStep p s i =
      ((cpuStateCase p s i (defaults p s i)).trapped (Faulty s.main)).finished p
        (memDone s i) := by
  rw [mainStep, hr]
  simp only [Bool.not_true, Bool.false_eq_true, if_false]
  rw [irqInputs_plain hp, checks_plain hp hr, finish_plain hp hr]

end PicoSoc.Picorv32
