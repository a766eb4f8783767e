import PicoSoc.Cpu.Core
import PicoSoc.Library.Rv32i

set_option autoImplicit false

/-! # The decoder against RV32I

For every word that RV32I decodes, the flags of the two decoder stages that steer the state machine
are those of its instruction. -/

namespace PicoSoc.Picorv32

open Rv32i (Instr AluOp Cond LoadOp StoreOp)

/-! ## Words of an instruction -/

/-- The codes of an operation of OP-IMM or OP. -/
def aluFunct3 : AluOp → BitVec 3
  | .add | .sub => 0b000
  | .sll => 0b001
  | .slt => 0b010
  | .sltu => 0b011
  | .xor => 0b100
  | .srl | .sra => 0b101
  | .or => 0b110
  | .and => 0b111

/-- The upper function bits of an operation. -/
def aluFunct7 : AluOp → BitVec 7
  | .sub | .sra => 0b0100000
  | _ => 0b0000000

/-- The shifts, which take an amount of five bits. -/
def isShift : AluOp → Bool
  | .sll | .srl | .sra => true
  | _ => false

/-- The function bits of a branch. -/
def condFunct3 : Cond → BitVec 3
  | .eq => 0b000
  | .ne => 0b001
  | .lt => 0b100
  | .ge => 0b101
  | .ltu => 0b110
  | .geu => 0b111

/-- The function bits of a load. -/
def loadFunct3 : LoadOp → BitVec 3
  | .lb => 0b000
  | .lh => 0b001
  | .lw => 0b010
  | .lbu => 0b100
  | .lhu => 0b101

/-- The function bits of a store. -/
def storeFunct3 : StoreOp → BitVec 3
  | .sb => 0b000
  | .sh => 0b001
  | .sw => 0b010

/-- The fields of a word, by the instruction it encodes. -/
inductive Encodes (w : BitVec 32) : Instr → Prop
  | lui (h : opcode w = 0b0110111) : Encodes w (.lui (fieldRd w) (immU w))
  | auipc (h : opcode w = 0b0010111) : Encodes w (.auipc (fieldRd w) (immU w))
  | jal (h : opcode w = 0b1101111) : Encodes w (.jal (fieldRd w) (immJ w))
  | jalr (h : opcode w = 0b1100111) (h3 : funct3 w = 0b000) :
      Encodes w (.jalr (fieldRd w) (fieldRs1 w) (immI w))
  | branch (h : opcode w = 0b1100011) (c : Cond) (h3 : funct3 w = condFunct3 c) :
      Encodes w (.branch c (fieldRs1 w) (fieldRs2 w) (immB w))
  | load (h : opcode w = 0b0000011) (k : LoadOp) (h3 : funct3 w = loadFunct3 k) :
      Encodes w (.load k (fieldRd w) (fieldRs1 w) (immI w))
  | store (h : opcode w = 0b0100011) (k : StoreOp) (h3 : funct3 w = storeFunct3 k) :
      Encodes w (.store k (fieldRs1 w) (fieldRs2 w) (immS w))
  | opImm (h : opcode w = 0b0010011) (op : AluOp) (hsub : op ≠ .sub) (h3 : funct3 w = aluFunct3 op)
      (h7 : isShift op = true → funct7 w = aluFunct7 op) :
      Encodes w (.opImm op (fieldRd w) (fieldRs1 w) (immI w))
  | opReg (h : opcode w = 0b0110011) (op : AluOp) (h3 : funct3 w = aluFunct3 op)
      (h7 : funct7 w = aluFunct7 op) :
      Encodes w (.opReg op (fieldRd w) (fieldRs1 w) (fieldRs2 w))

theorem condFunct3_of {f : BitVec 3} {c : Cond} (h : Cond.ofFunct f = some c) : f = condFunct3 c := by
  unfold Cond.ofFunct at h
  split_ifs at h <;> cases h <;> assumption

theorem loadFunct3_of {f : BitVec 3} {k : LoadOp} (h : LoadOp.ofFunct f = some k) :
    f = loadFunct3 k := by
  unfold LoadOp.ofFunct at h
  split_ifs at h <;> cases h <;> assumption

theorem storeFunct3_of {f : BitVec 3} {k : StoreOp} (h : StoreOp.ofFunct f = some k) :
    f = storeFunct3 k := by
  unfold StoreOp.ofFunct at h
  split_ifs at h <;> cases h <;> assumption

theorem aluFunct_of_imm {f3 : BitVec 3} {f7 : BitVec 7} {op : AluOp}
    (h : AluOp.ofImm f3 f7 = some op) :
    op ≠ .sub ∧ f3 = aluFunct3 op ∧ (isShift op = true → f7 = aluFunct7 op) := by
  unfold AluOp.ofImm at h
  split_ifs at h <;> cases h <;> simp_all [aluFunct3, aluFunct7, isShift]

theorem aluFunct_of_reg {f3 : BitVec 3} {f7 : BitVec 7} {op : AluOp}
    (h : AluOp.ofReg f3 f7 = some op) : f3 = aluFunct3 op ∧ f7 = aluFunct7 op := by
  unfold AluOp.ofReg at h
  split_ifs at h <;> cases h <;> assumption

theorem encodes_of_decode {w : BitVec 32} {instr : Instr} (h : Rv32i.decode w = some instr) :
    Encodes w instr := by
  unfold Rv32i.decode at h
  split_ifs at h with h₁ h₂ h₃ h₄ h₅ h₆ h₇ h₈ h₉ h₁₀
  · cases h
    exact .lui h₁
  · cases h
    exact .auipc h₂
  · cases h
    exact .jal h₃
  · cases h
    exact .jalr h₄ h₅
  · obtain ⟨c, hc, rfl⟩ := Option.map_eq_some_iff.1 h
    exact .branch h₆ c (condFunct3_of hc)
  · obtain ⟨k, hk, rfl⟩ := Option.map_eq_some_iff.1 h
    exact .load h₇ k (loadFunct3_of hk)
  · obtain ⟨k, hk, rfl⟩ := Option.map_eq_some_iff.1 h
    exact .store h₈ k (storeFunct3_of hk)
  · obtain ⟨op, hop, rfl⟩ := Option.map_eq_some_iff.1 h
    obtain ⟨hsub, h3, h7⟩ := aluFunct_of_imm hop
    exact .opImm h₉ op hsub h3 h7
  · obtain ⟨op, hop, rfl⟩ := Option.map_eq_some_iff.1 h
    obtain ⟨h3, h7⟩ := aluFunct_of_reg hop
    exact .opReg h₁₀ op h3 h7

variable {p : Params}

/-! ## The flags that choose the states -/

/-- The flags that steer the state machine. -/
structure Control where
  lui : Bool
  auipc : Bool
  jal : Bool
  jalr : Bool
  branch : Bool
  load : Bool
  store : Bool
  shiftImm : Bool
  jalrOrImm : Bool
  shiftReg : Bool
  deriving DecidableEq

/-- What the two stages of the decoder tell. -/
def control (f : First) (d : Second) : Control where
  lui := f.instrLui
  auipc := f.instrAuipc
  jal := f.instrJal
  jalr := f.instrJalr
  branch := f.isBeqBneBltBgeBltuBgeu
  load := f.isLbLhLwLbuLhu
  store := f.isSbShSw
  shiftImm := d.isSlliSrliSrai
  jalrOrImm := d.isJalrAddiSltiSltiuXoriOriAndi
  shiftReg := d.isSllSrlSra

/-- No flag is set. -/
def noControl : Control := ⟨false, false, false, false, false, false, false, false, false, false⟩

/-- What the decoder has to tell about an instruction. -/
def controlOf : Instr → Control
  | .lui .. => { noControl with lui := true }
  | .auipc .. => { noControl with auipc := true }
  | .jal .. => { noControl with jal := true }
  | .jalr .. => { noControl with jalr := true, jalrOrImm := true }
  | .branch .. => { noControl with branch := true }
  | .load .. => { noControl with load := true }
  | .store .. => { noControl with store := true }
  | .opImm op .. => if isShift op then { noControl with shiftImm := true }
      else { noControl with jalrOrImm := true }
  | .opReg op .. => { noControl with shiftReg := isShift op }

theorem control_of_encodes {w : BitVec 32} {instr : Instr} (h : Encodes w instr) (u : Undef) :
    control (decodeFirst p w) (decodeSecond p (decodeFirst p w) w u) = controlOf instr := by
  cases h with
  | lui h => simp [control, controlOf, noControl, decodeFirst, decodeSecond, h]
  | auipc h => simp [control, controlOf, noControl, decodeFirst, decodeSecond, h]
  | jal h => simp [control, controlOf, noControl, decodeFirst, decodeSecond, h]
  | jalr h h3 => simp [control, controlOf, noControl, decodeFirst, decodeSecond, h, h3]
  | branch h c h3 => simp [control, controlOf, noControl, decodeFirst, decodeSecond, h]
  | load h k h3 => simp [control, controlOf, noControl, decodeFirst, decodeSecond, h]
  | store h k h3 => simp [control, controlOf, noControl, decodeFirst, decodeSecond, h]
  | opImm h op hsub h3 h7 =>
      cases op <;>
        simp_all [control, controlOf, noControl, decodeFirst, decodeSecond, isShiftImm, aluFunct3,
          aluFunct7, isShift]
  | opReg h op h3 h7 =>
      cases op <;>
        simp [control, controlOf, noControl, decodeFirst, decodeSecond, h, h3, h7, isShiftImm,
          aluFunct3, aluFunct7, isShift]

theorem branch_of_encodes {w : BitVec 32} {instr : Instr} (h : Encodes w instr)
    (hb : (decodeFirst p w).isBeqBneBltBgeBltuBgeu = true) :
    ∃ c rs1 rs2 imm, instr = .branch c rs1 rs2 imm := by
  cases h with
  | branch h c h3 => exact ⟨_, _, _, _, rfl⟩
  | _ => simp_all [decodeFirst]

theorem instrTrap_of_encodes {w : BitVec 32} {instr : Instr} (h : Encodes w instr) (u : Undef) :
    instrTrap p (decodeFirst p w) (decodeSecond p (decodeFirst p w) w u) = false := by
  cases h with
  | lui h => simp [instrTrap, decodeFirst, h]
  | auipc h => simp [instrTrap, decodeFirst, h]
  | jal h => simp [instrTrap, decodeFirst, h]
  | jalr h h3 => simp [instrTrap, decodeFirst, h, h3]
  | branch h c h3 => cases c <;> simp [instrTrap, decodeFirst, decodeSecond, h, h3, condFunct3]
  | load h k h3 => cases k <;> simp [instrTrap, decodeFirst, decodeSecond, h, h3, loadFunct3]
  | store h k h3 => cases k <;> simp [instrTrap, decodeFirst, decodeSecond, h, h3, storeFunct3]
  | opImm h op hsub h3 h7 =>
      cases op <;> simp_all [instrTrap, decodeFirst, decodeSecond, aluFunct3, aluFunct7, isShift]
  | opReg h op h3 h7 =>
      cases op <;> simp [instrTrap, decodeFirst, decodeSecond, h, h3, h7, aluFunct3, aluFunct7]

theorem funct3_of_none {f : BitVec 3} :
    (Cond.ofFunct f = none → ¬f = 0#3 ∧ ¬f = 1#3 ∧ ¬f = 4#3 ∧ ¬f = 5#3 ∧ ¬f = 6#3 ∧ ¬f = 7#3)
    ∧ (LoadOp.ofFunct f = none → ¬f = 0#3 ∧ ¬f = 1#3 ∧ ¬f = 2#3 ∧ ¬f = 4#3 ∧ ¬f = 5#3)
    ∧ (StoreOp.ofFunct f = none → ¬f = 0#3 ∧ ¬f = 1#3 ∧ ¬f = 2#3) := by
  revert f
  decide

theorem funct_of_none (f3 : BitVec 3) (f7 : BitVec 7) :
    (AluOp.ofImm f3 f7 = none → (f3 = 1#3 ∧ ¬f7 = 0#7) ∨ (f3 = 5#3 ∧ ¬f7 = 0#7 ∧ ¬f7 = 32#7))
    ∧ (AluOp.ofReg f3 f7 = none →
      ¬f7 = 0#7 ∧ (¬f3 = 0#3 ∨ ¬f7 = 32#7) ∧ (¬f3 = 5#3 ∨ ¬f7 = 32#7)) := by
  revert f3 f7
  decide +kernel

/-- Every other word is trapped. -/
theorem instrTrap_of_none {w : BitVec 32} (hcatch : p.catchIllinsn = true) (hirq : p.enableIrq = false)
    (hcount : p.enableCounters = false) (hfence : Rv32i.isFence w = false)
    (h : Rv32i.decode w = none) (u : Undef) :
    instrTrap p (decodeFirst p w) (decodeSecond p (decodeFirst p w) w u) = true := by
  unfold Rv32i.decode at h
  split_ifs at h with h₁ h₂ h₃ h₄ h₅ h₆ h₇ h₈ h₉ h₁₀
  · have h₄ : opcode w = 103#7 := h₄
    have h₅ : ¬funct3 w = 0#3 := h₅
    simp [instrTrap, decodeFirst, decodeSecond, hcatch, hirq, hcount, h₄, h₅]
  · have h₆ : opcode w = 99#7 := h₆
    obtain ⟨c₁, c₂, c₃, c₄, c₅, c₆⟩ :=
      (funct3_of_none (f := funct3 w)).1 (Option.map_eq_none_iff.1 h)
    simp [instrTrap, decodeFirst, decodeSecond, hcatch, hirq, hcount, h₆, c₁, c₂, c₃, c₄, c₅, c₆]
  · have h₇ : opcode w = 3#7 := h₇
    obtain ⟨c₁, c₂, c₃, c₄, c₅⟩ :=
      (funct3_of_none (f := funct3 w)).2.1 (Option.map_eq_none_iff.1 h)
    simp [instrTrap, decodeFirst, decodeSecond, hcatch, hirq, hcount, h₇, c₁, c₂, c₃, c₄, c₅]
  · have h₈ : opcode w = 35#7 := h₈
    obtain ⟨c₁, c₂, c₃⟩ := (funct3_of_none (f := funct3 w)).2.2 (Option.map_eq_none_iff.1 h)
    simp [instrTrap, decodeFirst, decodeSecond, hcatch, hirq, hcount, h₈, c₁, c₂, c₃]
  · have h₉ : opcode w = 19#7 := h₉
    rcases (funct_of_none (funct3 w) (funct7 w)).1 (Option.map_eq_none_iff.1 h) with
      ⟨c₁, c₂⟩ | ⟨c₁, c₂, c₃⟩
    · simp [instrTrap, decodeFirst, decodeSecond, hcatch, hirq, hcount, h₉, c₁, c₂]
    · simp [instrTrap, decodeFirst, decodeSecond, hcatch, hirq, hcount, h₉, c₁, c₂, c₃]
  · have h₁₀ : opcode w = 51#7 := h₁₀
    obtain ⟨c₁, c₂, c₃⟩ :=
      (funct_of_none (funct3 w) (funct7 w)).2 (Option.map_eq_none_iff.1 h)
    simp [instrTrap, decodeFirst, decodeSecond, hcatch, hirq, hcount, h₁₀, c₁, c₂, c₃]
  · have h₁ : ¬opcode w = 55#7 := h₁
    have h₂ : ¬opcode w = 23#7 := h₂
    have h₃ : ¬opcode w = 111#7 := h₃
    have h₄ : ¬opcode w = 103#7 := h₄
    have h₆ : ¬opcode w = 99#7 := h₆
    have h₇ : ¬opcode w = 3#7 := h₇
    have h₈ : ¬opcode w = 35#7 := h₈
    have h₉ : ¬opcode w = 19#7 := h₉
    have h₁₀ : ¬opcode w = 51#7 := h₁₀
    have hfence : (opcode w == 15#7 && funct3 w == 0#3) = false := hfence
    have hfence : ¬opcode w = 15#7 ∨ ¬funct3 w = 0#3 := by
      simpa [Decidable.imp_iff_not_or] using hfence
    simpa [instrTrap, decodeFirst, decodeSecond, hcatch, hirq, hcount, h₁, h₂, h₃, h₄, h₆, h₇, h₈, h₉,
      h₁₀] using hfence

theorem counter_of_encodes {w : BitVec 32} {instr : Instr} (h : Encodes w instr) (u : Undef) :
    isRdcycleRdcyclehRdinstrRdinstrh (decodeSecond p (decodeFirst p w) w u) = false := by
  have hop : ¬opcode w = 115#7 := by
    cases h <;> simp [*]
  simp [isRdcycleRdcyclehRdinstrRdinstrh, decodeSecond, isCounter, hop]

/-! ## Results -/

theorem setWidth_ofBool (b : Bool) :
    (BitVec.ofBool b).setWidth 32 = if b = true then 1#32 else 0#32 := by
  cases b <;> rfl

/-- The operation of an instruction whose result the ALU gives. -/
def aluOp : Instr → Option AluOp
  | .lui .. | .auipc .. | .jalr .. => some .add
  | .opImm op .. => some op
  | .opReg op .. => some op
  | _ => none

theorem aluOut_of_encodes {s : State} {i : Inputs} {w : BitVec 32} {instr : Instr}
    (h : Encodes w instr) {u : Undef} (hf : s.first = decodeFirst p w)
    (hd : s.second = decodeSecond p (decodeFirst p w) w u)
    (hc : s.classes = classify s.first s.second) (ha : aluNow p s = aluWires s) {op : AluOp}
    (hop : aluOp instr = some op) (hb : isShift op = true → p.barrelShifter = true) :
    aluOut p s i = op.eval s.main.regOp1 s.main.regOp2 := by
  have hb : ∀ q, op = q → isShift q = true → p.barrelShifter = true := fun q hq => hq ▸ hb
  rw [aluOut, aluOut0, ha, hc, hf, hd]
  cases h with
  | lui h =>
      cases hop
      simp [classify, aluWires, hd, decodeFirst, decodeSecond, h, AluOp.eval]
  | auipc h =>
      cases hop
      simp [classify, aluWires, hd, decodeFirst, decodeSecond, h, AluOp.eval]
  | jalr h h3 =>
      cases hop
      simp [classify, aluWires, hd, decodeFirst, decodeSecond, h, h3, AluOp.eval]
  | opImm h op hsub h3 h7 =>
      cases hop
      cases op
      case sub => exact absurd rfl hsub
      all_goals
        have hb := hb _ rfl
        simp only [isShift, forall_const, reduceCtorEq] at h7 hb
        simp [classify, aluWires, hd, decodeFirst, decodeSecond, h, h3, h7, hb, AluOp.eval, aluFunct3,
          aluFunct7, Rv32i.shamt, setWidth_ofBool]
  | opReg h op h3 h7 =>
      cases hop
      cases op
      all_goals
        have hb := hb _ rfl
        simp only [isShift, forall_const] at hb
        simp [classify, aluWires, hd, decodeFirst, decodeSecond, h, h3, h7, hb, AluOp.eval, aluFunct3,
          aluFunct7, Rv32i.shamt, setWidth_ofBool]
  | _ => cases hop

/-- The comparison of a branch. -/
theorem aluOut0_of_encodes {s : State} {i : Inputs} {w : BitVec 32} {c : Cond}
    {rs1 rs2 : BitVec 5} {imm : BitVec 32} (h : Encodes w (.branch c rs1 rs2 imm)) {u : Undef}
    (hf : s.first = decodeFirst p w) (hd : s.second = decodeSecond p (decodeFirst p w) w u)
    (hc : s.classes = classify s.first s.second) (ha : aluNow p s = aluWires s) :
    aluOut0 p s i = c.holds s.main.regOp1 s.main.regOp2 := by
  rw [aluOut0, ha, hc, hf, hd]
  cases h with
  | branch h c h3 =>
      cases c <;>
        simp [classify, aluWires, decodeFirst, decodeSecond, h, h3, condFunct3, Cond.holds, bne]

/-- The immediate that the main state machine reads. -/
def immOf : Instr → Option (BitVec 32)
  | .lui _ imm | .auipc _ imm | .jal _ imm | .jalr _ _ imm | .branch _ _ _ imm | .load _ _ _ imm
  | .store _ _ _ imm | .opImm _ _ _ imm => some imm
  | .opReg .. => none

theorem decodedImm_of_encodes {w : BitVec 32} {instr : Instr} (h : Encodes w instr) (u : Undef)
    {imm : BitVec 32} (himm : immOf instr = some imm) :
    (decodeSecond p (decodeFirst p w) w u).decodedImm = imm := by
  cases h <;> cases himm <;> simp [decodeSecond, decodeFirst, *]

/-- A shift by `n` places. -/
def shiftBy (x : BitVec 32) (n : ℕ) : AluOp → BitVec 32
  | .sll => x <<< n
  | .srl => x >>> n
  | .sra => x.sshiftRight n
  | _ => x

theorem eval_of_isShift {op : AluOp} (h : isShift op = true) (x y : BitVec 32) :
    op.eval x y = shiftBy x (Rv32i.shamt y) op := by
  cases op <;> first | rfl | exact absurd h (by decide)

theorem shiftBy_zero (x : BitVec 32) (op : AluOp) : shiftBy x 0 op = x := by
  cases op <;> simp [shiftBy]

theorem shiftBy_add (x : BitVec 32) (m n : ℕ) (op : AluOp) :
    shiftBy (shiftBy x m op) n op = shiftBy x (m + n) op := by
  cases op <;> simp [shiftBy, BitVec.shiftLeft_add, BitVec.shiftRight_add, BitVec.sshiftRight_add]

/-- The amount of a shift, in the immediate and from the field. -/
theorem immI_low (w : BitVec 32) : (immI w).extractLsb' 0 5 = fieldRs2 w := by
  apply BitVec.eq_of_getLsbD_eq
  intro k hk
  simp only [immI, fieldRs2, BitVec.getLsbD_extractLsb', BitVec.getLsbD_signExtend, hk, Nat.zero_add]
  simp [show k < 32 by omega, show k < 12 by omega]

theorem setWidth_low (r : BitVec 5) : (r.setWidth 32).extractLsb' 0 5 = r := by
  apply BitVec.eq_of_getLsbD_eq
  intro k hk
  simp [hk, show k < 32 by omega]

/-- The operation of a shift instruction. -/
def shiftOp : Instr → Option AluOp
  | .opImm op .. | .opReg op .. => if isShift op then some op else none
  | _ => none

theorem shifted_of_encodes {s : State} {w : BitVec 32} {instr : Instr} (h : Encodes w instr)
    {u : Undef} (hd : s.second = decodeSecond p (decodeFirst p w) w u) {op : AluOp}
    (hop : shiftOp instr = some op) (n : ℕ) : shifted s n = shiftBy s.main.regOp1 n op := by
  rw [shifted, hd]
  cases h with
  | opImm h op hsub h3 h7 =>
      cases op <;> cases hop <;>
        simp_all [decodeFirst, decodeSecond, aluFunct3, aluFunct7, shiftBy, isShift]
  | opReg h op h3 h7 =>
      cases op <;> cases hop <;>
        simp [decodeFirst, decodeSecond, h, h3, h7, aluFunct3, aluFunct7, shiftBy]
  | _ => cases hop

/-- The flags of a load: size and extension. -/
theorem load_of_encodes {w : BitVec 32} {k : LoadOp} {rd rs1 : BitVec 5} {imm : BitVec 32}
    (h : Encodes w (.load k rd rs1 imm)) (u : Undef) :
    let d := decodeSecond p (decodeFirst p w) w u
    (d.instrLb || d.instrLbu) = (k.size == 1) ∧ (d.instrLh || d.instrLhu) = (k.size == 2)
      ∧ d.instrLw = (k == .lw) ∧ (classify (decodeFirst p w) d).isLbuLhuLw =
        (k == .lbu || k == .lhu || k == .lw)
      ∧ d.instrLh = (k == .lh) ∧ d.instrLb = (k == .lb) := by
  cases h with
  | load h k h3 => cases k <;> simp [classify, decodeFirst, decodeSecond, h, h3, loadFunct3, LoadOp.size]

theorem store_of_encodes {w : BitVec 32} {k : StoreOp} {rs1 rs2 : BitVec 5} {imm : BitVec 32}
    (h : Encodes w (.store k rs1 rs2 imm)) (u : Undef) :
    let d := decodeSecond p (decodeFirst p w) w u
    d.instrSb = (k == .sb) ∧ d.instrSh = (k == .sh) ∧ d.instrSw = (k == .sw) := by
  cases h with
  | store h k h3 => cases k <;> simp [decodeFirst, decodeSecond, h, h3, storeFunct3]

end PicoSoc.Picorv32
