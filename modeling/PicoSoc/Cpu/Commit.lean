import PicoSoc.Cpu.Machine

set_option autoImplicit false

/-! # What an instruction shows

The hart that the processor is after each instruction, and the events on the way, whatever its
timing. A word that is no instruction, an address that is not aligned and a jump to one end in a trap;
a load or store that is not aligned is on the bus before. -/

namespace PicoSoc.Picorv32

open Rv32i (Instr AluOp Cond LoadOp StoreOp Hart Aligned)

/-! ## Events -/

/-- A write to the register file. -/
def regWrite (rd : BitVec 5) (v : BitVec 32) : List Event :=
  if rd = 0 then [] else [.reg (rd.setWidth 6) v]

/-- The word of an address. -/
def wordAddr (a : BitVec 32) : BitVec 32 := a.extractLsb' 2 30 ++ 0#2

/-- The lanes of a store. -/
def storeData (v : BitVec 32) : StoreOp → BitVec 32
  | .sw => v
  | .sh => v.extractLsb' 0 16 ++ v.extractLsb' 0 16
  | .sb => v.extractLsb' 0 8 ++ v.extractLsb' 0 8 ++ v.extractLsb' 0 8 ++ v.extractLsb' 0 8

def storeStrb (a : BitVec 32) : StoreOp → BitVec 4
  | .sw => 0b1111
  | .sh => if a.getLsbD 1 then 0b1100 else 0b0011
  | .sb => 0b0001#4 <<< (a.extractLsb' 0 2).toNat

def busLoad (m : Rv32i.Memory) (a : BitVec 32) : Event := .load (wordAddr a) (m.word (wordAddr a))

def busWrite (k : StoreOp) (a v : BitVec 32) : Event :=
  .store (wordAddr a) (storeData v k) (storeStrb a k)

/-! ## Instructions -/

/-- The address of a load or store. -/
def accessAddr (h : Hart) : Instr → Option (ℕ × BitVec 32)
  | .load k _ rs1 imm => some (k.size, h.x.read rs1 + imm)
  | .store k rs1 _ imm => some (k.size, h.x.read rs1 + imm)
  | _ => none

/-- The hart after an instruction whose access is aligned. -/
def after (h : Hart) : Instr → Hart
  | .lui rd imm => (h.write rd imm).next
  | .auipc rd imm => (h.write rd (h.pc + imm)).next
  | .jal rd imm => { h.write rd (h.pc + 4) with pc := h.pc + imm }
  | .jalr rd rs1 imm => { h.write rd (h.pc + 4) with pc := (h.x.read rs1 + imm) &&& ~~~1 }
  | .branch c rs1 rs2 imm =>
      if c.holds (h.x.read rs1) (h.x.read rs2) then { h with pc := h.pc + imm } else h.next
  | .load k rd rs1 imm => (h.write rd (k.value h.mem (h.x.read rs1 + imm))).next
  | .store k rs1 rs2 imm =>
      { h with mem := h.mem.store (h.x.read rs1 + imm) k.size (h.x.read rs2) }.next
  | .opImm op rd rs1 imm => (h.write rd (op.eval (h.x.read rs1) imm)).next
  | .opReg op rd rs1 rs2 => (h.write rd (op.eval (h.x.read rs1) (h.x.read rs2))).next

/-- The transfers of data of an instruction. -/
def busEvents (h : Hart) : Instr → List Event
  | .load _ _ rs1 imm => [busLoad h.mem (h.x.read rs1 + imm)]
  | .store k rs1 rs2 imm => [busWrite k (h.x.read rs1 + imm) (h.x.read rs2)]
  | _ => []

/-- The register write of an instruction whose access is aligned. -/
def regEvents (h : Hart) : Instr → List Event
  | .lui rd imm => regWrite rd imm
  | .auipc rd imm => regWrite rd (h.pc + imm)
  | .jal rd _ => regWrite rd (h.pc + 4)
  | .jalr rd _ _ => regWrite rd (h.pc + 4)
  | .branch .. => []
  | .load k rd rs1 imm => regWrite rd (k.value h.mem (h.x.read rs1 + imm))
  | .store .. => []
  | .opImm op rd rs1 imm => regWrite rd (op.eval (h.x.read rs1) imm)
  | .opReg op rd rs1 rs2 => regWrite rd (op.eval (h.x.read rs1) (h.x.read rs2))

/-- No misaligned access. -/
def Accessible (h : Hart) (instr : Instr) : Prop := ∀ q ∈ accessAddr h instr, Aligned q.1 q.2

instance instDecidableAccessible (h : Hart) (instr : Instr) : Decidable (Accessible h instr) :=
  inferInstanceAs (Decidable (∀ q ∈ accessAddr h instr, Aligned q.1 q.2))

/-- What the instruction of the hart shows, and the next hart unless it traps. -/
def commit (h : Hart) : List Event × Option Hart :=
  if Aligned 4 h.pc then
    match h.fetch with
    | none => ([], none)
    | some instr =>
        if Accessible h instr then (busEvents h instr ++ regEvents h instr, some (after h instr))
        else (busEvents h instr, none)
  else ([], none)

/-! ## The instruction set -/

theorem aligned_add_four {a : BitVec 32} (ha : Aligned 4 a) : Aligned 4 (a + 4) := by
  have ha : a.toNat % 4 = 0 := ha
  show (a + 4).toNat % 4 = 0
  rw [BitVec.toNat_add]
  have : (4 : BitVec 32).toNat = 4 := rfl
  omega

/-- Where the instruction set has a step, the processor goes on to the same hart. -/
theorem exec_some {h h' : Hart} {instr : Instr} (hpc : Aligned 4 h.pc)
    (hexec : instr.exec h = some h') :
    Accessible h instr ∧ after h instr = h' ∧ Aligned 4 h'.pc := by
  -- without an access there is nothing to be aligned
  have hnone : ∀ i : Instr, accessAddr h i = none → Accessible h i := by
    intro i hi q hq
    rw [hi] at hq
    exact absurd hq (Option.not_mem_none q)
  have hjump : ∀ {g g' : Hart} {t : BitVec 32}, g.jump t = some g' →
      { g with pc := t } = g' ∧ Aligned 4 g'.pc := by
    intro g g' t hg
    rw [Hart.jump] at hg
    split_ifs at hg with ht
    cases hg
    exact ⟨rfl, ht⟩
  cases instr with
  | lui rd imm =>
      cases hexec
      exact ⟨hnone _ rfl, rfl, aligned_add_four hpc⟩
  | auipc rd imm =>
      cases hexec
      exact ⟨hnone _ rfl, rfl, aligned_add_four hpc⟩
  | jal rd imm => exact ⟨hnone _ rfl, hjump hexec⟩
  | jalr rd rs1 imm => exact ⟨hnone _ rfl, hjump hexec⟩
  | branch c rs1 rs2 imm =>
      refine ⟨hnone _ rfl, ?_⟩
      rw [Instr.exec] at hexec
      rw [after]
      split_ifs at hexec ⊢ with hc
      · exact hjump hexec
      · cases hexec
        exact ⟨rfl, aligned_add_four hpc⟩
  | load k rd rs1 imm =>
      rw [Instr.exec] at hexec
      split_ifs at hexec with ha
      cases hexec
      refine ⟨fun q hq => ?_, rfl, aligned_add_four hpc⟩
      cases hq
      exact ha
  | store k rs1 rs2 imm =>
      rw [Instr.exec] at hexec
      split_ifs at hexec with ha
      cases hexec
      refine ⟨fun q hq => ?_, rfl, aligned_add_four hpc⟩
      cases hq
      exact ha
  | opImm op rd rs1 imm =>
      cases hexec
      exact ⟨hnone _ rfl, rfl, aligned_add_four hpc⟩
  | opReg op rd rs1 rs2 =>
      cases hexec
      exact ⟨hnone _ rfl, rfl, aligned_add_four hpc⟩

theorem commit_of_step {h h' : Hart} (hpc : Aligned 4 h.pc) (hstep : h.step = some h') :
    (commit h).2 = some h' ∧ Aligned 4 h'.pc := by
  obtain ⟨instr, hfetch, hexec⟩ := Option.bind_eq_some_iff.1 hstep
  obtain ⟨hacc, rfl, haligned⟩ := exec_some hpc hexec
  refine ⟨?_, haligned⟩
  rw [commit, if_pos hpc, hfetch]
  dsimp only
  rw [if_pos hacc]

end PicoSoc.Picorv32
