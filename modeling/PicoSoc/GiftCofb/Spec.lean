import PicoSoc.Library.Cofb

set_option autoImplicit false

/-! # What GIFT-COFB is

GIFT-128 on 32 nibbles, under the packing of the bitsliced cipher: a block is four rows of 32 bits,
and nibble `i` takes bit `i` of each row, the first row lowest. The mode is COFB over it. -/

namespace PicoSoc.GiftCofb.Spec

open Bytes (Byte ofBitsLE)

/-- Bit `4 * i + j` is bit `j` of nibble `i`. -/
abbrev State := BitVec 128

/-! ## A round -/

/-- The S-box as a table. -/
def sboxTable : List (BitVec 4) :=
  [0x1, 0xA, 0x4, 0xC, 0x6, 0xF, 0x3, 0x9, 0x2, 0xD, 0xB, 0x7, 0x5, 0x0, 0x8, 0xE]

/-- The S-box. -/
def sbox (x : BitVec 4) : BitVec 4 := sboxTable.getD x.toNat 0

/-- Nibble `i` of the state. -/
def nibble (s : State) (i : ℕ) : BitVec 4 := s.extractLsb' (4 * i) 4

/-- The S-box on every nibble. -/
def subCells (s : State) : State :=
  ofBitsLE 128 fun b => (sbox (nibble s (b / 4))).getLsbD (b % 4)

/-- `P₁₂₈`: bit `b` of the state moves to this place. -/
def p128 (b : ℕ) : ℕ := 4 * (b / 16) + 32 * ((3 * (b % 16 / 4) + b % 4) % 4) + b % 4

/-- The nibble whose bit `j` goes to nibble `i`. -/
def source (i j : ℕ) : ℕ := 4 * (i % 8) + (3 * (i / 8) + j) % 4

/-- The bit permutation, by the place each bit comes from. -/
def permBits (s : State) : State :=
  ofBitsLE 128 fun b => s.getLsbD (4 * source (b / 4) (b % 4) + b % 4)

/-- `U = k₅ ‖ k₄` and `V = k₁ ‖ k₀` of the key state, and the round constant. -/
def roundKey (k : BitVec 128) (c : BitVec 6) : BitVec 128 :=
  ofBitsLE 128 fun b =>
    if b % 4 = 2 then k.getLsbD (64 + b / 4)
    else if b % 4 = 1 then k.getLsbD (b / 4)
    else if b % 4 = 3 then decide (b = 127) ^^ c.getLsbD (b / 4)
    else false

/-- A round with key state `k` and constant `c`. -/
def round (k : BitVec 128) (c : BitVec 6) (s : State) : State :=
  permBits (subCells s) ^^^ roundKey k c

/-- `k₇ ‖ … ‖ k₀ ← (k₁ ⋙ 2) ‖ (k₀ ⋙ 12) ‖ k₇ ‖ … ‖ k₂`. -/
def keySchedule (k : BitVec 128) : BitVec 128 :=
  (k.extractLsb' 16 16).rotateRight 2 ++ (k.extractLsb' 0 16).rotateRight 12 ++ k.extractLsb' 32 96

/-- The 6-bit LFSR of the round constants. -/
def constantNext (c : BitVec 6) : BitVec 6 :=
  c.extractLsb' 0 5 ++ BitVec.ofBool (c.getLsbD 5 ^^ c.getLsbD 4 ^^ true)

/-! ## The cipher -/

/-- State, key state and constant before round `n`; the constant is updated before its use. -/
def rounds (k : BitVec 128) (s : State) : ℕ → State × BitVec 128 × BitVec 6
  | 0 => (s, k, constantNext 0)
  | n + 1 =>
      let r := rounds k s n
      (round r.2.1 r.2.2 r.1, keySchedule r.2.1, constantNext r.2.2)

/-- Row `j` of a block is at the bits `32 * (3 - j)` and up. -/
def pack (x : BitVec 128) : State := ofBitsLE 128 fun b => x.getLsbD (32 * (3 - b % 4) + b / 4)

/-- The block of a state. -/
def unpack (s : State) : BitVec 128 :=
  ofBitsLE 128 fun b => s.getLsbD (4 * (b % 32) + (3 - b / 32))

/-- GIFT-128 with key `k`. -/
def gift128 (k x : BitVec 128) : BitVec 128 := unpack (rounds k (pack x) 40).1

/-- Output blocks and tag of an encryption or a decryption. -/
def aead (K : List Byte) (decrypt : Bool) (N A X : List Byte) : List (List Byte) × BitVec 128 :=
  Cofb.aead (gift128 (Cofb.toBlock K)) decrypt N A X

/-! ## The bit permutation -/

/-- `permBits` moves bit `b` to `p128 b`. -/
theorem getLsbD_permBits (s : State) (b : Fin 128) :
    (permBits s).getLsbD (p128 b.val) = s.getLsbD b.val := by
  have hplace : ∀ b : Fin 128, p128 b.val < 128 ∧
      4 * source (p128 b.val / 4) (p128 b.val % 4) + p128 b.val % 4 = b.val := by
    decide
  rw [permBits, Bytes.getLsbD_ofBitsLE _ (hplace b).1, (hplace b).2]

end PicoSoc.GiftCofb.Spec
