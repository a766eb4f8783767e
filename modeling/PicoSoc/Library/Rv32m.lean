import PicoSoc.Library.Rv32i

set_option autoImplicit false

/-! # RV32M

The instructions of the M extension and their results. -/

namespace Rv32m

open Rv32i

/-! ## Products -/

inductive MulOp
  | mul | mulh | mulhsu | mulhu
  deriving DecidableEq

def MulOp.signed₁ : MulOp → Bool
  | .mulhu => false
  | _ => true

def MulOp.signed₂ : MulOp → Bool
  | .mul | .mulh => true
  | _ => false

/-- The value of an operand. -/
def operand (signed : Bool) (x : Word) : ℤ := if signed then x.toInt else x.toNat

/-- The 64-bit product with the signs of the operation. -/
def MulOp.product (op : MulOp) (x y : Word) : BitVec 64 :=
  BitVec.ofInt 64 (operand op.signed₁ x * operand op.signed₂ y)

/-- MUL returns the low half of the product, the others the high half. -/
def MulOp.eval (op : MulOp) (x y : Word) : Word :=
  match op with
  | .mul => (op.product x y).extractLsb' 0 32
  | _ => (op.product x y).extractLsb' 32 32

/-! ## Quotients and remainders -/

inductive DivOp
  | div | divu | rem | remu
  deriving DecidableEq

/-- A quotient by zero is all ones, a remainder by zero the dividend; a signed quotient that does not
    fit wraps around. -/
def DivOp.eval : DivOp → Word → Word → Word
  | .div, x, y => if y = 0 then BitVec.allOnes 32 else BitVec.ofInt 32 (x.toInt.tdiv y.toInt)
  | .divu, x, y => if y = 0 then BitVec.allOnes 32 else BitVec.ofNat 32 (x.toNat / y.toNat)
  | .rem, x, y => if y = 0 then x else BitVec.ofInt 32 (x.toInt.tmod y.toInt)
  | .remu, x, y => if y = 0 then x else BitVec.ofNat 32 (x.toNat % y.toNat)

/-- The absolute value of a signed operand. -/
def magnitude (signed : Bool) (x : Word) : Word := if signed && x.msb then -x else x

theorem DivOp.div_eq {x y : Word} (hy : y ≠ 0) :
    DivOp.div.eval x y =
      let q := magnitude true x / magnitude true y
      if x.msb ≠ y.msb then -q else q := by
  have hsdiv : BitVec.ofInt 32 (x.toInt.tdiv y.toInt) = x.sdiv y := by
    apply BitVec.eq_of_toInt_eq
    rw [BitVec.toInt_ofInt, BitVec.toInt_sdiv]
  rw [DivOp.eval, if_neg hy, hsdiv, BitVec.sdiv, magnitude, magnitude]
  cases x.msb <;> cases y.msb <;> rfl

theorem DivOp.rem_eq {x y : Word} (hy : y ≠ 0) :
    DivOp.rem.eval x y =
      let r := magnitude true x % magnitude true y
      if x.msb then -r else r := by
  have hsrem : BitVec.ofInt 32 (x.toInt.tmod y.toInt) = x.srem y := by
    apply BitVec.eq_of_toInt_eq
    rw [BitVec.toInt_srem, BitVec.toInt_ofInt, ← BitVec.toInt_srem, BitVec.toInt_bmod_cancel]
  rw [DivOp.eval, if_neg hy, hsrem, BitVec.srem, magnitude, magnitude]
  cases x.msb <;> cases y.msb <;> rfl

/-- Division by zero. -/
theorem DivOp.eval_zero (x : Word) :
    DivOp.div.eval x 0 = -1 ∧ DivOp.divu.eval x 0 = -1 ∧ DivOp.rem.eval x 0 = x
      ∧ DivOp.remu.eval x 0 = x :=
  ⟨rfl, rfl, rfl, rfl⟩

/-- Signed overflow. -/
theorem DivOp.eval_overflow :
    DivOp.div.eval (BitVec.intMin 32) (-1) = BitVec.intMin 32
      ∧ DivOp.rem.eval (BitVec.intMin 32) (-1) = 0 :=
  ⟨rfl, rfl⟩

end Rv32m
