import PicoSoc.Cpu.LookAhead
import PicoSoc.Cpu.Progress

set_option autoImplicit false

/-! # The processor and the instruction set

From reset on the processor launches the instructions of the hart one after the other, whatever the
memory waits, and what it shows does not depend on how long it takes. -/

namespace PicoSoc.Picorv32

open Clocked Rv32i

variable {p : Params}

/-! ## Reset -/

/-- The registers in the register file. -/
def fileRegs (s : State) : Regs where
  read := fun q => readReg s (q.setWidth 6)
  zero := rfl

/-- The hart that a reset starts. -/
def resetHart (p : Params) (s : State) (m : Memory) : Hart := ⟨p.progaddrReset, fileRegs s, m⟩

theorem agrees_fileRegs (s : State) : Agrees (fileRegs s) s.cpuregs := by
  intro q hq
  show _ = readReg s (q.setWidth 6)
  rw [readReg, if_pos (index_bne_zero hq)]

/-- The main state machine after reset. -/
theorem mainStep_reset {s : State} {i : Inputs} (hp : Plain p) (hr : i.resetn = false) :
    mainStep p s i = finish p s i (resetState p (defaults p s i)) := by
  have hchecks : ∀ w, checks p s i w = w := by
    intro w
    simp [checks, checksWith, hr, hp.catchIllinsn]
  rw [mainStep, hr, irqInputs_plain hp, hchecks]
  rfl

theorem unasked_afterReset (hp : Plain p) (i : Inputs) (s : State) (m : Memory) :
    Unasked p (resetHart p s m) [] (Machine.afterReset p i s m) := by
  have hr : ({ i with resetn := false } : Inputs).resetn = false := rfl
  generalize hj : ({ i with resetn := false } : Inputs) = j at hr
  have hstate : Machine.afterReset p i s m = ⟨step p j s, m⟩ := by rw [Machine.afterReset, hj]
  obtain ⟨hidle, hvalid⟩ := memStep_of_reset (s := s) hr
  have hdone : memDone s j = false := by simp [memDone, hr]
  have hmain : (step p j s).main = finish p s j (resetState p (defaults p s j)) :=
    mainStep_reset hp hr
  rw [resetState, hp.stackaddr, if_neg (by decide)] at hmain
  have hnone : cpuregsWrite p (step p j s) = none := by
    apply cpuregsWrite_none hp <;> rw [hmain] <;> rfl
  have hregs : (step p j s).cpuregs = s.cpuregs := by
    show cpuregsStep p s j = _
    rw [cpuregsStep, hr]
    cases cpuregsWrite p s <;> rfl
  rw [hstate]
  refine { trap := ?_, doWaitirq := ?_, cpuState := ?_, pc := ?_, regs := ?_, shows := ?_
           mem := rfl, decoderTrigger := ?_, asks := ⟨?_, ?_, ?_, ?_⟩, free := ⟨hidle, hvalid⟩ }
  · rw [hmain]
    rfl
  · rw [hmain]
    rfl
  · rw [hmain]
    rfl
  · rw [branchPc, hmain]
    simp [finish, finishWith, resetHart, hp.catchMisalign]
  · rw [written, hnone, hregs]
    exact agrees_fileRegs s
  · rw [retires, hnone]
  · rw [hmain]
    simp [finish, finishWith, defaults, hdone]
  · rw [hmain]
    simp [finish, finishWith, hr]
  · rw [hmain]
    simp [finish, finishWith, hr, defaults]
  · rw [hmain]
    simp [finish, finishWith, hr, defaults]
  · rw [hmain]
    simp [finish, finishWith, hr, defaults]

/-! ## Launches -/

/-- The hart that an instruction is launched for, as the registers hold it. -/
structure Presents (h : Hart) (s : Machine) : Prop where
  pc : s.core.main.regPc = h.pc
  regs : ∀ q : BitVec 5, readReg s.core (q.setWidth 6) = h.x.read q
  mem : s.mem = h.mem

/-- The edge of a launch takes the program counter and writes the last result. -/
theorem Launch.presents {h : Hart} {l : List Event} {s : Machine} {i : Inputs} (hp : Plain p)
    (hr : i.resetn = true) (h₀ : Launch p h l s) : Presents h (s.step p i) := by
  obtain ⟨-, -, hregs, hmem, -, -⟩ := h₀.rest (p := p) hr
  refine ⟨?_, fun q => readReg_agrees hregs q, hmem⟩
  have hmain := main_edge hp hr (not_faulty h₀.asks fun hc => absurd hc (by decide))
  rw [fetch_launches hp h₀.cpuState h₀.decoderTrigger
    (by rw [h₀.first]; exact (retirq_plain hp _).1)] at hmain
  rw [hmain]
  exact h₀.pc

section

variable {h : ℕ → Hart} {r : Run p}

theorem Run.Arrives.launch {g : Hart} {l : List Event} {n : ℕ} (haligned : Aligned 4 g.pc)
    (h₀ : r.Arrives n g l) : ∃ l₁, r.Leads n l₁ fun s => ∃ l₂, Launch p g l₂ s := by
  obtain ⟨l₁, l₂, -, hlead⟩ := h₀
  refine ⟨l₁, hlead.mono fun m hm => ?_⟩
  rcases hm with hlaunch | ⟨hstray, -⟩
  · exact ⟨l₂, hlaunch⟩
  · exact absurd haligned hstray

theorem aligned_of_steps (hp : Plain p) {s : State} {m : Memory} (hfirst : h 0 = resetHart p s m)
    (hstep : ∀ k, (h k).step = some (h (k + 1))) (k : ℕ) : Aligned 4 (h k).pc := by
  induction k with
  | zero =>
      rw [hfirst]
      exact hp.progaddrReset
  | succ k ih => exact (commit_of_step ih (hstep k)).2

/-- Along the steps of the instruction set the instructions are launched one by one, and each finds
    the hart that the ones before it leave. -/
theorem launches_of_steps (hp : Plain p) {i : Inputs} {s : State} {m : Memory}
    (hstart : r.start = .afterReset p i s m) (hfirst : h 0 = resetHart p s m)
    (hstep : ∀ k, (h k).step = some (h (k + 1)))
    (hcode : ∀ k, (h (k + 1)).mem.word (h (k + 1)).pc = (h k).mem.word (h (k + 1)).pc) :
    ∃ t : ℕ → ℕ, StrictMono t ∧ (∀ n, r.launches n ↔ ∃ k, t k = n)
      ∧ ∀ k, Presents (h k) (r.state (t k + 1)) := by
  have haligned := aligned_of_steps hp hfirst hstep
  have hunasked : Unasked p (h 0) [] (r.state 0) := by
    show Unasked p (h 0) [] r.start
    rw [hstart, hfirst]
    exact unasked_afterReset hp i s m
  have hnext (k n : ℕ) (hk : ∃ l, Launch p (h k) l (r.state n)) :
      ∃ l, r.Leads (n + 1) l fun s => ∃ l, Launch p (h (k + 1)) l s := by
    obtain ⟨l, hl⟩ := hk
    have hcommit := (commit_of_step (haligned k) (hstep k)).1
    exact (hl.commits hp (Prod.ext rfl hcommit) (hcode k)).launch (haligned (k + 1))
  obtain ⟨t, hmono, ht, hmarks⟩ := exists_marks
    (L := fun k n => ∃ l, Launch p (h k) l (r.state n)) (fun k n ⟨l, hl⟩ => hl.launches hp)
    ((Unasked.arrives hp hunasked).launch (haligned 0)) hnext
  refine ⟨t, hmono, hmarks, fun k => ?_⟩
  obtain ⟨l, hl⟩ := ht k
  exact hl.presents hp (r.resetn (t k))

end

/-- The default parameters. -/
theorem plain_default : Plain {} := by
  constructor <;> rfl

/-- **The processor implements RV32I.** From reset, with any registers and memory, the launches are
    those of the harts of the instruction set, in order and no others, as long as no instruction
    changes the one after it. -/
theorem implements_rv32i {r : Run {}} {i : Inputs} {s : State} {m : Memory} {h : ℕ → Hart}
    (hstart : r.start = .afterReset {} i s m) (hfirst : h 0 = resetHart {} s m)
    (hstep : ∀ k, (h k).step = some (h (k + 1)))
    (hcode : ∀ k, (h (k + 1)).mem.word (h (k + 1)).pc = (h k).mem.word (h (k + 1)).pc) :
    ∃ t : ℕ → ℕ, StrictMono t ∧ (∀ n, r.launches n ↔ ∃ k, t k = n)
      ∧ ∀ k, Presents (h k) (r.state (t k + 1)) :=
  launches_of_steps plain_default hstart hfirst hstep hcode

/-! ## A loop that counts in memory -/

/-- `lui x2,0x10`, `lw x1,0(x2)`, `addi x1,x1,1`, `sw x1,0(x2)` and a branch back to the first. -/
def loopCode : Memory := fun a =>
  [0x37, 0x01, 0x01, 0x00, 0x83, 0x20, 0x01, 0x00, 0x93, 0x80, 0x10, 0x00,
    0x23, 0x20, 0x11, 0x00, 0xe3, 0x08, 0x00, 0xfe].getD a.toNat 0

/-- Nothing follows the code. -/
theorem loopCode_zero {a : Word} (h : 20 ≤ a.toNat) : loopCode a = 0 :=
  List.getD_eq_default _ _ h

def loopProgram : List Instr :=
  [.lui 2 0x10000, .load .lw 1 2 0, .opImm .add 1 1 1, .store .sw 2 1 0, .branch .eq 0 0 0xfffffff0]

/-- The registers `x1` and `x2`. -/
def loopRegs (x1 x2 : Word) : Regs where
  read := fun q => if q = 1 then x1 else if q = 2 then x2 else 0
  zero := rfl

/-- The hart of the loop, with the count that is in memory. -/
def loopState (pc x1 x2 count : Word) : Hart :=
  ⟨pc, loopRegs x1 x2, loopCode.store 0x10000 4 count⟩

theorem loopRegs_write_x1 (x1 x2 v : Word) : (loopRegs x1 x2).write 1 v = loopRegs v x2 := by
  ext q : 2
  show (if q = 1 ∧ q ≠ 0 then v else if q = 1 then x1 else _) = if q = 1 then v else _
  by_cases hq : q = 1
  · subst hq
    rw [if_pos ⟨rfl, by decide⟩, if_pos rfl]
  · rw [if_neg fun hc => hq hc.1, if_neg hq, if_neg hq]

theorem loopRegs_write_x2 (x1 x2 v : Word) : (loopRegs x1 x2).write 2 v = loopRegs x1 v := by
  ext q : 2
  show (if q = 2 ∧ q ≠ 0 then v else if q = 1 then x1 else if q = 2 then x2 else 0)
    = if q = 1 then x1 else if q = 2 then v else 0
  by_cases hq : q = 2
  · subst hq
    rw [if_pos ⟨rfl, by decide⟩, if_neg (by decide), if_pos rfl]
  · rw [if_neg fun hc => hq hc.1, if_neg hq, if_neg hq]

/-- The count lies apart from the code. -/
theorem loopState_code (pc x1 x2 count : Word) {j : ℕ} (hj : j < 5) :
    (loopState pc x1 x2 count).mem.word (BitVec.ofNat 32 (4 * j))
      = loopCode.word (BitVec.ofNat 32 (4 * j)) := by
  refine Bytes.eq_of_byteLE 4 rfl fun d hd => ?_
  rw [Memory.byteLE_word _ _ hd, Memory.byteLE_word _ _ hd]
  refine Memory.store_of_le _ _ _ ?_
  rw [← BitVec.ofNat_add, BitVec.toNat_sub, BitVec.toNat_ofNat]
  show 4 ≤ (2 ^ 32 - 0x10000 + (4 * j + d) % 2 ^ 32) % 2 ^ 32
  omega

theorem loopState_fetch (x1 x2 count : Word) {j : ℕ} (hj : j < 5) :
    (loopState (BitVec.ofNat 32 (4 * j)) x1 x2 count).fetch = loopProgram[j]? := by
  have hdecode : ∀ j < 5, decode (loopCode.word (BitVec.ofNat 32 (4 * j))) = loopProgram[j]? := by
    decide +kernel
  exact (congrArg decode (loopState_code _ x1 x2 count hj)).trans (hdecode j hj)

section

variable (x1 x2 count : Word)

theorem loopState_lui : (loopState 0 x1 x2 count).step = some (loopState 4 x1 0x10000 count) := by
  have hfetch : (loopState 0 x1 x2 count).fetch = some (.lui 2 0x10000) :=
    loopState_fetch x1 x2 count (j := 0) (by decide)
  rw [Hart.step, hfetch, loopState, loopState, ← loopRegs_write_x2 x1 x2 0x10000]
  rfl

theorem loopState_lw :
    (loopState 4 x1 0x10000 count).step = some (loopState 8 count 0x10000 count) := by
  have hfetch : (loopState 4 x1 0x10000 count).fetch = some (.load .lw 1 2 0) :=
    loopState_fetch x1 0x10000 count (j := 1) (by decide)
  have hloaded : (loopCode.store 0x10000 4 count).word 0x10000 = count :=
    Memory.word_store _ _ _
  have haddr : (loopState 4 x1 0x10000 count).x.read 2 + 0 = 0x10000 := rfl
  rw [Hart.step, hfetch, Option.bind_some, Instr.exec, haddr, if_pos (by decide), LoadOp.value,
    show (loopState 4 x1 0x10000 count).mem = loopCode.store 0x10000 4 count from rfl, hloaded,
    loopState, loopState, ← loopRegs_write_x1 x1 0x10000 count]
  rfl

theorem loopState_addi :
    (loopState 8 x1 x2 count).step = some (loopState 12 (x1 + 1) x2 count) := by
  have hfetch : (loopState 8 x1 x2 count).fetch = some (.opImm .add 1 1 1) :=
    loopState_fetch x1 x2 count (j := 2) (by decide)
  rw [Hart.step, hfetch, loopState, loopState, ← loopRegs_write_x1 x1 x2 (x1 + 1)]
  rfl

theorem loopState_sw :
    (loopState 12 x1 0x10000 count).step = some (loopState 16 x1 0x10000 x1) := by
  have hfetch : (loopState 12 x1 0x10000 count).fetch = some (.store .sw 2 1 0) :=
    loopState_fetch x1 0x10000 count (j := 3) (by decide)
  have haddr : (loopState 12 x1 0x10000 count).x.read 2 + 0 = 0x10000 := rfl
  rw [Hart.step, hfetch, Option.bind_some, Instr.exec, haddr, if_pos (by decide), loopState,
    loopState, ← Memory.store_store loopCode 0x10000 4 count x1]
  rfl

theorem loopState_beq : (loopState 16 x1 x2 count).step = some (loopState 0 x1 x2 count) := by
  have hfetch : (loopState 16 x1 x2 count).fetch = some (.branch .eq 0 0 0xfffffff0) :=
    loopState_fetch x1 x2 count (j := 4) (by decide)
  have hback : (16 : Word) + 0xfffffff0 = 0 := by decide
  have hequal : Cond.eq.holds ((loopState 16 x1 x2 count).x.read 0)
      ((loopState 16 x1 x2 count).x.read 0) = true := rfl
  rw [Hart.step, hfetch, Option.bind_some, Instr.exec, if_pos hequal, loopState, Hart.jump]
  dsimp only
  rw [hback, if_pos (by decide), loopState]

end

/-- The hart after `k` instructions: the count grows in the register with the third instruction of
    each round, in memory with the fourth. -/
def loopHart (k : ℕ) : Hart :=
  loopState (BitVec.ofNat 32 (4 * (k % 5))) (BitVec.ofNat 32 ((k + 2) / 5))
    (if k = 0 then 0 else 0x10000) (BitVec.ofNat 32 ((k + 1) / 5))

/-- The `r`th instruction of a round. -/
theorem loopHart_round (q : ℕ) {r : ℕ} (hr : r < 5) :
    loopHart (5 * q + r) = loopState (BitVec.ofNat 32 (4 * r)) (BitVec.ofNat 32 (q + (r + 2) / 5))
      (if 5 * q + r = 0 then 0 else 0x10000) (BitVec.ofNat 32 (q + (r + 1) / 5)) := by
  rw [loopHart, show (5 * q + r) % 5 = r by omega, show (5 * q + r + 2) / 5 = q + (r + 2) / 5 by omega,
    show (5 * q + r + 1) / 5 = q + (r + 1) / 5 by omega]

theorem loopHart_step (k : ℕ) : (loopHart k).step = some (loopHart (k + 1)) := by
  obtain ⟨q, r, hr, rfl⟩ : ∃ q r, r < 5 ∧ k = 5 * q + r := ⟨k / 5, k % 5, by omega, by omega⟩
  have hbase (d : ℕ) : (if 5 * q + (d + 1) = 0 then (0 : Word) else 0x10000) = 0x10000 :=
    if_neg (by omega)
  rw [loopHart_round q hr]
  interval_cases r
  · rw [loopHart_round q (r := 1) (by decide), hbase]
    exact loopState_lui _ _ _
  · rw [loopHart_round q (r := 2) (by decide), hbase, hbase]
    exact loopState_lw _ _
  · have hcount : BitVec.ofNat 32 (q + (3 + 2) / 5) = BitVec.ofNat 32 (q + (2 + 2) / 5) + 1 :=
      BitVec.ofNat_add q 1
    rw [loopHart_round q (r := 3) (by decide), hbase, hbase, hcount]
    exact loopState_addi _ _ _
  · rw [loopHart_round q (r := 4) (by decide), hbase, hbase]
    exact loopState_sw _ _
  · rw [show 5 * q + 4 + 1 = 5 * (q + 1) + 0 by omega, loopHart_round (q + 1) (r := 0) (by decide),
      hbase, if_neg (by omega)]
    exact loopState_beq _ _ _

/-- No instruction of the loop changes its code. -/
theorem loopHart_code (k : ℕ) : (loopHart (k + 1)).mem.word (loopHart (k + 1)).pc
    = (loopHart k).mem.word (loopHart (k + 1)).pc :=
  (loopState_code _ _ _ _ (Nat.mod_lt _ (by decide))).trans
    (loopState_code _ _ _ _ (Nat.mod_lt _ (by decide))).symm

/-- The memory answers in every `d`th cycle. -/
def loopRun (p : Params) (d : ℕ) (hd : 0 < d) : Run p where
  env := fun n => { (default : Inputs) with resetn := true, memReady := n % d == 0 }
  start := .afterReset p default default loopCode
  resetn := fun _ => rfl
  answers := fun n _ => ⟨d * n, Nat.le_mul_of_pos_left n hd, by simp⟩

theorem loopHart_zero (p : Params) (hp : p.progaddrReset = 0) :
    loopHart 0 = resetHart p default loopCode := by
  have hregs : loopRegs 0 0 = fileRegs default := by
    ext q : 2
    show (if q = 1 then 0 else if q = 2 then 0 else 0) = readReg default (q.setWidth 6)
    rw [readReg]
    split_ifs <;> rfl
  have hmem : loopCode.store 0x10000 4 0 = loopCode := by
    funext x
    rw [Memory.store]
    split_ifs with hx
    · rw [BitVec.toNat_sub] at hx
      rw [loopCode_zero (by have := x.isLt; simp at hx; omega)]
      exact BitVec.extractLsb'_zero ..
    · rfl
  rw [resetHart, hp, ← hregs, ← hmem]
  rfl

/-- The loop, on a memory that answers in every third cycle. -/
theorem implements_rv32i_loop : ∃ t : ℕ → ℕ, StrictMono t
    ∧ (∀ n, (loopRun {} 3 (by decide)).launches n ↔ ∃ k, t k = n)
      ∧ ∀ k, Presents (loopHart k) ((loopRun {} 3 (by decide)).state (t k + 1)) :=
  implements_rv32i rfl (loopHart_zero {} rfl) loopHart_step loopHart_code

end PicoSoc.Picorv32
