import PicoSoc.Library.Bytes

set_option autoImplicit false

/-! # RV32I

The base integer instruction set without the FENCE and SYSTEM instructions: the instruction formats
and the step of a hart. There is no step for another word, for a misaligned access and for a jump
to a misaligned address. -/

namespace Rv32i

open Bytes

/-- A word of XLEN bits. -/
abbrev Word := BitVec 32

/-- The number of a register. -/
abbrev RegIndex := BitVec 5

/-! ## Instructions -/

/-- The condition of a branch. -/
inductive Cond
  | eq | ne | lt | ge | ltu | geu
  deriving DecidableEq

/-- The comparison that a branch makes. -/
def Cond.holds : Cond → Word → Word → Bool
  | .eq, x, y => x == y
  | .ne, x, y => x != y
  | .lt, x, y => x.slt y
  | .ge, x, y => !x.slt y
  | .ltu, x, y => x.ult y
  | .geu, x, y => !x.ult y

/-- The operations on two registers, or on a register and an immediate. -/
inductive AluOp
  | add | sub | sll | slt | sltu | xor | srl | sra | or | and
  deriving DecidableEq

/-- The low five bits, the amount of a shift. -/
def shamt (y : Word) : ℕ := (y.extractLsb' 0 5).toNat

/-- The result of an operation. -/
def AluOp.eval : AluOp → Word → Word → Word
  | .add, x, y => x + y
  | .sub, x, y => x - y
  | .sll, x, y => x <<< shamt y
  | .slt, x, y => if x.slt y then 1 else 0
  | .sltu, x, y => if x.ult y then 1 else 0
  | .xor, x, y => x ^^^ y
  | .srl, x, y => x >>> shamt y
  | .sra, x, y => x.sshiftRight (shamt y)
  | .or, x, y => x ||| y
  | .and, x, y => x &&& y

/-- The sizes and extensions of a load. -/
inductive LoadOp
  | lb | lh | lw | lbu | lhu
  deriving DecidableEq

/-- The sizes of a store. -/
inductive StoreOp
  | sb | sh | sw
  deriving DecidableEq

/-- The instructions of RV32I without FENCE, ECALL and EBREAK, immediates decoded. -/
inductive Instr
  | lui (rd : RegIndex) (imm : Word)
  | auipc (rd : RegIndex) (imm : Word)
  | jal (rd : RegIndex) (imm : Word)
  | jalr (rd rs1 : RegIndex) (imm : Word)
  | branch (c : Cond) (rs1 rs2 : RegIndex) (imm : Word)
  | load (k : LoadOp) (rd rs1 : RegIndex) (imm : Word)
  | store (k : StoreOp) (rs1 rs2 : RegIndex) (imm : Word)
  | opImm (op : AluOp) (rd rs1 : RegIndex) (imm : Word)
  | opReg (op : AluOp) (rd rs1 rs2 : RegIndex)
  deriving DecidableEq

/-! ## Formats -/

section

variable (w : Word)

/-- The opcode of an instruction word. -/
def opcode : BitVec 7 := w.extractLsb' 0 7

/-- The destination register. -/
def rd : RegIndex := w.extractLsb' 7 5

/-- The lower function bits. -/
def funct3 : BitVec 3 := w.extractLsb' 12 3

/-- The first source register. -/
def rs1 : RegIndex := w.extractLsb' 15 5

/-- The second source register. -/
def rs2 : RegIndex := w.extractLsb' 20 5

/-- The upper function bits. -/
def funct7 : BitVec 7 := w.extractLsb' 25 7

/-- The immediate of a load, of JALR and of an operation. -/
def immI : Word := (w.extractLsb' 20 12).signExtend 32

/-- The immediate of a store. -/
def immS : Word := (w.extractLsb' 25 7 ++ w.extractLsb' 7 5).signExtend 32

/-- The offset of a branch. -/
def immB : Word :=
  (w.extractLsb' 31 1 ++ w.extractLsb' 7 1 ++ w.extractLsb' 25 6 ++ w.extractLsb' 8 4
    ++ 0#1).signExtend 32

/-- The immediate of LUI and AUIPC. -/
def immU : Word := w.extractLsb' 12 20 ++ 0#12

/-- The offset of JAL. -/
def immJ : Word :=
  (w.extractLsb' 31 1 ++ w.extractLsb' 12 8 ++ w.extractLsb' 20 1 ++ w.extractLsb' 21 10
    ++ 0#1).signExtend 32

end

/-- The condition that `funct3` stands for. -/
def Cond.ofFunct (f3 : BitVec 3) : Option Cond :=
  if f3 = 0b000 then some .eq
  else if f3 = 0b001 then some .ne
  else if f3 = 0b100 then some .lt
  else if f3 = 0b101 then some .ge
  else if f3 = 0b110 then some .ltu
  else if f3 = 0b111 then some .geu
  else none

/-- The load that `funct3` stands for. -/
def LoadOp.ofFunct (f3 : BitVec 3) : Option LoadOp :=
  if f3 = 0b000 then some .lb
  else if f3 = 0b001 then some .lh
  else if f3 = 0b010 then some .lw
  else if f3 = 0b100 then some .lbu
  else if f3 = 0b101 then some .lhu
  else none

/-- The store that `funct3` stands for. -/
def StoreOp.ofFunct (f3 : BitVec 3) : Option StoreOp :=
  if f3 = 0b000 then some .sb
  else if f3 = 0b001 then some .sh
  else if f3 = 0b010 then some .sw
  else none

/-- OP-IMM. -/
def AluOp.ofImm (f3 : BitVec 3) (f7 : BitVec 7) : Option AluOp :=
  if f3 = 0b000 then some .add
  else if f3 = 0b010 then some .slt
  else if f3 = 0b011 then some .sltu
  else if f3 = 0b100 then some .xor
  else if f3 = 0b110 then some .or
  else if f3 = 0b111 then some .and
  else if f3 = 0b001 ∧ f7 = 0b0000000 then some .sll
  else if f3 = 0b101 ∧ f7 = 0b0000000 then some .srl
  else if f3 = 0b101 ∧ f7 = 0b0100000 then some .sra
  else none

/-- OP. -/
def AluOp.ofReg (f3 : BitVec 3) (f7 : BitVec 7) : Option AluOp :=
  if f3 = 0b000 ∧ f7 = 0b0000000 then some .add
  else if f3 = 0b000 ∧ f7 = 0b0100000 then some .sub
  else if f3 = 0b001 ∧ f7 = 0b0000000 then some .sll
  else if f3 = 0b010 ∧ f7 = 0b0000000 then some .slt
  else if f3 = 0b011 ∧ f7 = 0b0000000 then some .sltu
  else if f3 = 0b100 ∧ f7 = 0b0000000 then some .xor
  else if f3 = 0b101 ∧ f7 = 0b0000000 then some .srl
  else if f3 = 0b101 ∧ f7 = 0b0100000 then some .sra
  else if f3 = 0b110 ∧ f7 = 0b0000000 then some .or
  else if f3 = 0b111 ∧ f7 = 0b0000000 then some .and
  else none

/-- The instruction of a word, if it is one. -/
def decode (w : Word) : Option Instr :=
  if opcode w = 0b0110111 then some (.lui (rd w) (immU w))
  else if opcode w = 0b0010111 then some (.auipc (rd w) (immU w))
  else if opcode w = 0b1101111 then some (.jal (rd w) (immJ w))
  else if opcode w = 0b1100111 then
    if funct3 w = 0b000 then some (.jalr (rd w) (rs1 w) (immI w)) else none
  else if opcode w = 0b1100011 then
    (Cond.ofFunct (funct3 w)).map fun c => .branch c (rs1 w) (rs2 w) (immB w)
  else if opcode w = 0b0000011 then
    (LoadOp.ofFunct (funct3 w)).map fun k => .load k (rd w) (rs1 w) (immI w)
  else if opcode w = 0b0100011 then
    (StoreOp.ofFunct (funct3 w)).map fun k => .store k (rs1 w) (rs2 w) (immS w)
  else if opcode w = 0b0010011 then
    (AluOp.ofImm (funct3 w) (funct7 w)).map fun op => .opImm op (rd w) (rs1 w) (immI w)
  else if opcode w = 0b0110011 then
    (AluOp.ofReg (funct3 w) (funct7 w)).map fun op => .opReg op (rd w) (rs1 w) (rs2 w)
  else none

/-- FENCE, which `decode` leaves out. -/
def isFence (w : Word) : Bool := opcode w == 0b0001111 && funct3 w == 0b000

/-! ## Registers and memory -/

/-- The registers; `x0` is zero. -/
@[ext] structure Regs where
  read : RegIndex → Word
  zero : read 0 = 0

/-- A write to a register; `x0` ignores it. -/
def Regs.write (x : Regs) (r : RegIndex) (v : Word) : Regs where
  read := fun q => if q = r ∧ q ≠ 0 then v else x.read q
  zero := by rw [if_neg fun h => h.2 rfl, x.zero]

/-- A memory of bytes. -/
abbrev Memory := Word → Byte

namespace Memory

variable (m : Memory) (a : Word)

/-- The half word at an address, little endian. -/
def half : BitVec 16 := m (a + 1) ++ m a

/-- The word at an address, little endian. -/
def word : Word := m (a + 3) ++ m (a + 2) ++ m (a + 1) ++ m a

/-- The low `n` bytes of `v` at address `a`. -/
def store (n : ℕ) (v : Word) : Memory := fun x =>
  if (x - a).toNat < n then v.extractLsb' (8 * (x - a).toNat) 8 else m x

theorem byteLE_half {k : ℕ} (hk : k < 2) : byteLE (m.half a) k = m (a + BitVec.ofNat 32 k) := by
  rw [half, byteLE_append _ _ _ (k := 1) rfl]
  interval_cases k
  · rw [if_pos (by decide), byteLE_self, BitVec.add_zero]
  · rw [if_neg (by decide), byteLE_self]
    rfl

theorem byteLE_word {k : ℕ} (hk : k < 4) : byteLE (m.word a) k = m (a + BitVec.ofNat 32 k) := by
  rw [word, byteLE_append _ _ _ (k := 1) rfl, byteLE_append _ _ _ (k := 1) rfl,
    byteLE_append _ _ _ (k := 1) rfl]
  interval_cases k
  · rw [if_pos (by decide), byteLE_self, BitVec.add_zero]
  · rw [if_neg (by decide), if_pos (by decide), byteLE_self]
    rfl
  · rw [if_neg (by decide), if_neg (by decide), if_pos (by decide), byteLE_self]
    rfl
  · rw [if_neg (by decide), if_neg (by decide), if_neg (by decide), byteLE_self]
    rfl

/-- A byte outside of the stored ones. -/
theorem store_of_le {n : ℕ} {x : Word} (v : Word) (h : n ≤ (x - a).toNat) : m.store a n v x = m x :=
  if_neg (by omega)

/-- The latest of two stores to the same bytes. -/
theorem store_store (n : ℕ) (v w : Word) : (m.store a n v).store a n w = m.store a n w := by
  funext x
  unfold store
  split_ifs <;> rfl

theorem word_store (v : Word) : (m.store a 4 v).word a = v := by
  refine eq_of_byteLE 4 rfl fun k hk => ?_
  have hoff : (a + BitVec.ofNat 32 k - a).toNat = k := by
    rw [BitVec.add_comm, BitVec.add_sub_cancel, BitVec.toNat_ofNat]
    omega
  rw [byteLE_word _ _ hk, store, hoff, if_pos hk]
  rfl

end Memory

/-- A multiple of the size. -/
def Aligned (n : ℕ) (a : Word) : Prop := a.toNat % n = 0

instance instDecidableAligned (n : ℕ) (a : Word) : Decidable (Aligned n a) :=
  inferInstanceAs (Decidable (_ = _))

/-- The bytes that a load reads. -/
def LoadOp.size : LoadOp → ℕ
  | .lb | .lbu => 1
  | .lh | .lhu => 2
  | .lw => 4

/-- What a load puts into the register. -/
def LoadOp.value (m : Memory) (a : Word) : LoadOp → Word
  | .lb => (m a).signExtend 32
  | .lh => (m.half a).signExtend 32
  | .lw => m.word a
  | .lbu => (m a).setWidth 32
  | .lhu => (m.half a).setWidth 32

/-- The bytes that a store writes. -/
def StoreOp.size : StoreOp → ℕ
  | .sb => 1
  | .sh => 2
  | .sw => 4

/-! ## The hart -/

/-- The program counter, the registers and the memory. -/
structure Hart where
  pc : Word
  x : Regs
  mem : Memory

namespace Hart

variable (h : Hart)

/-- The hart at the instruction behind. -/
def next : Hart := { h with pc := h.pc + 4 }

/-- The hart with a register written. -/
def write (r : RegIndex) (v : Word) : Hart := { h with x := h.x.write r v }

/-- The hart at a target, which has to be aligned. -/
def jump (target : Word) : Option Hart :=
  if Aligned 4 target then some { h with pc := target } else none

/-- The instruction at the program counter. -/
def fetch : Option Instr := decode (h.mem.word h.pc)

end Hart

/-- What an instruction does. -/
def Instr.exec (h : Hart) : Instr → Option Hart
  | .lui rd imm => some (h.write rd imm).next
  | .auipc rd imm => some (h.write rd (h.pc + imm)).next
  | .jal rd imm => (h.write rd (h.pc + 4)).jump (h.pc + imm)
  | .jalr rd rs1 imm => (h.write rd (h.pc + 4)).jump ((h.x.read rs1 + imm) &&& ~~~1)
  | .branch c rs1 rs2 imm =>
      if c.holds (h.x.read rs1) (h.x.read rs2) then h.jump (h.pc + imm) else some h.next
  | .load k rd rs1 imm =>
      if Aligned k.size (h.x.read rs1 + imm) then
        some (h.write rd (k.value h.mem (h.x.read rs1 + imm))).next
      else none
  | .store k rs1 rs2 imm =>
      if Aligned k.size (h.x.read rs1 + imm) then
        some { h with mem := h.mem.store (h.x.read rs1 + imm) k.size (h.x.read rs2) }.next
      else none
  | .opImm op rd rs1 imm => some (h.write rd (op.eval (h.x.read rs1) imm)).next
  | .opReg op rd rs1 rs2 => some (h.write rd (op.eval (h.x.read rs1) (h.x.read rs2))).next

/-- A step of the instruction set. -/
def Hart.step (h : Hart) : Option Hart := h.fetch.bind (·.exec h)

end Rv32i
