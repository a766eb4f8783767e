import PicoSoc.Library.Bytes

set_option autoImplicit false

/-! # The COFB mode of a block cipher

COmbined FeedBack over a cipher `E` on 16-byte blocks. The chain is the last cipher output `y` and
the mask `l`, an element of GF(2⁶⁴) that is doubled for every block and tripled for the last one of
a string; `crypt` returns the output blocks. -/

namespace Cofb

open Bytes (Byte)

abbrev Block := BitVec 128

/-! ## Masks: GF(2⁶⁴) modulo `x⁶⁴ + x⁴ + x³ + x + 1` -/

/-- Times `x`. -/
def double (l : BitVec 64) : BitVec 64 := (l <<< 1) ^^^ (if l.msb then 0x1B else 0)

/-- Times `x + 1`. -/
def triple (l : BitVec 64) : BitVec 64 := l ^^^ double l

/-! ## Blocks of a string -/

/-- The string at the front of a block, zeros after it. -/
def toBlock (B : List Byte) : Block := Bytes.ofBytesBE 16 fun i => B.getD i 0

/-- A short string is closed by the byte `80`. -/
def pad (B : List Byte) : Block := toBlock (if B.length < 16 then B ++ [0x80] else B)

/-- Split into blocks of 16 bytes, the last one possibly shorter. -/
def blocks (X : List Byte) : List (List Byte) :=
  (List.range ((X.length + 15) / 16)).map fun j => (X.drop (16 * j)).take 16

/-! ## The chain -/

structure Chain where
  y : Block
  l : BitVec 64

/-- `Y[2] ‖ (Y[1] ⋘ 1)` for the halves of `Y`. -/
def feedback (y : Block) : Block := y.extractLsb' 0 64 ++ (y.extractLsb' 64 64).rotateLeft 1

variable (E : Block → Block)

/-- One cipher call: the block `B` goes in under the mask `l`. -/
def absorb (l : BitVec 64) (B : List Byte) (c : Chain) : Chain where
  y := E (feedback c.y ^^^ pad B ^^^ (l ++ 0#64))
  l := l

/-- Absorb blocks; `last` gives the mask of the last one. -/
def absorbAll (last : BitVec 64 → BitVec 64) : List (List Byte) → Chain → Chain
  | [], c => c
  | [B], c => absorb E (last c.l) B c
  | B :: Bs, c => absorbAll last Bs (absorb E (double c.l) B c)

/-- The block plus the first bytes of `Y`. -/
def output (c : Chain) (B : List Byte) : List Byte :=
  List.zipWith (· ^^^ ·) B ((List.range 16).map (Bytes.byteBE 16 c.y))

/-- The plaintext block of an input block. -/
def plain (decrypt : Bool) (c : Chain) (B : List Byte) : List Byte :=
  if decrypt then output c B else B

/-- Encrypt or decrypt blocks: in both modes the plaintext block goes in. -/
def cryptAll (decrypt : Bool) (last : BitVec 64 → BitVec 64) :
    List (List Byte) → Chain → List (List Byte) × Chain
  | [], c => ([], c)
  | [B], c => ([output c B], absorb E (last c.l) (plain decrypt c B) c)
  | B :: Bs, c =>
      let r := cryptAll decrypt last Bs (absorb E (double c.l) (plain decrypt c B) c)
      (output c B :: r.1, r.2)

/-! ## The mode -/

/-- Whether the last block of a string is full. -/
def fullLast (X : List Byte) : Prop := X ≠ [] ∧ X.length % 16 = 0

instance (X : List Byte) : Decidable (fullLast X) :=
  inferInstanceAs (Decidable (X ≠ [] ∧ X.length % 16 = 0))

/-- Tripled once for a full last block, twice for a partial or missing one. -/
def lastMask (X : List Byte) (l : BitVec 64) : BitVec 64 :=
  if fullLast X then triple l else triple (triple l)

/-- Two more triplings when no message follows. -/
def adMask (A X : List Byte) (l : BitVec 64) : BitVec 64 :=
  if X = [] then triple (triple (lastMask A l)) else lastMask A l

def initial (N : List Byte) : Chain :=
  let y := E (toBlock N)
  ⟨y, y.extractLsb' 64 64⟩

/-- The chain after the associated data; the empty string is one empty block. -/
def afterAd (N A X : List Byte) : Chain :=
  absorbAll E (adMask A X) (if A = [] then [[]] else blocks A) (initial E N)

/-- Output blocks and tag. -/
def aead (decrypt : Bool) (N A X : List Byte) : List (List Byte) × Block :=
  let r := cryptAll E decrypt (lastMask X) (blocks X) (afterAd E N A X)
  (r.1, r.2.y)

/-! ## Decryption undoes encryption -/

theorem length_output (c : Chain) {B : List Byte} (hB : B.length ≤ 16) :
    (output c B).length = B.length := by
  rw [output, List.length_zipWith, List.length_map, List.length_range, Nat.min_eq_left hB]

theorem output_output (c : Chain) {B : List Byte} (hB : B.length ≤ 16) :
    output c (output c B) = B := by
  apply List.ext_getElem
  · rw [length_output c (by rw [length_output c hB]; exact hB), length_output c hB]
  · intro i hi hiB
    simp only [output, List.getElem_zipWith]
    rw [BitVec.xor_assoc, BitVec.xor_self]
    exact BitVec.xor_zero

theorem length_cryptAll (decrypt : Bool) (last : BitVec 64 → BitVec 64) (Bs : List (List Byte))
    (c : Chain) : (cryptAll E decrypt last Bs c).1.length = Bs.length := by
  induction Bs generalizing c with
  | nil => rfl
  | cons B Bs ih =>
      cases Bs with
      | nil => rfl
      | cons B' Bs => exact congrArg (· + 1) (ih _)

theorem cryptAll_cons (decrypt : Bool) (last : BitVec 64 → BitVec 64) (B : List Byte)
    {Bs : List (List Byte)} (hBs : Bs ≠ []) (c : Chain) :
    cryptAll E decrypt last (B :: Bs) c =
      (output c B ::
          (cryptAll E decrypt last Bs (absorb E (double c.l) (plain decrypt c B) c)).1,
        (cryptAll E decrypt last Bs (absorb E (double c.l) (plain decrypt c B) c)).2) := by
  cases Bs with
  | nil => exact absurd rfl hBs
  | cons B' Bs => rfl

/-- Both directions feed the plaintext back, so the chains agree. -/
theorem cryptAll_cryptAll (last : BitVec 64 → BitVec 64) {Bs : List (List Byte)}
    (hBs : ∀ B ∈ Bs, B.length ≤ 16) (c : Chain) :
    cryptAll E true last (cryptAll E false last Bs c).1 c =
      (Bs, (cryptAll E false last Bs c).2) := by
  induction Bs generalizing c with
  | nil => rfl
  | cons B Bs ih =>
      have hB := output_output c (hBs B List.mem_cons_self)
      cases hrest : Bs with
      | nil => simp only [cryptAll, plain, hB, Bool.false_eq_true, if_false, if_true]
      | cons B' Bs' =>
          rw [← hrest]
          have hne : Bs ≠ [] := by rw [hrest]; exact List.cons_ne_nil _ _
          have hplain : plain true c (output c B) = plain false c B := hB
          have hnext : (cryptAll E false last Bs
              (absorb E (double c.l) (plain false c B) c)).1 ≠ [] := by
            rw [← List.length_pos_iff_ne_nil, length_cryptAll, List.length_pos_iff_ne_nil]
            exact hne
          rw [cryptAll_cons E false last B hne, cryptAll_cons E true last _ hnext, hplain, hB,
            ih fun C hC => hBs C (List.mem_cons_of_mem B hC)]

theorem fullLast_congr {X Y : List Byte} (h : X.length = Y.length) : fullLast X ↔ fullLast Y := by
  rw [fullLast, fullLast, ← List.length_pos_iff_ne_nil, ← List.length_pos_iff_ne_nil, h]

/-- The mask of the last block depends on the length only. -/
theorem lastMask_congr {X Y : List Byte} (h : X.length = Y.length) : lastMask X = lastMask Y := by
  funext l
  rw [lastMask, lastMask]
  exact if_congr (fullLast_congr h) rfl rfl

theorem afterAd_congr (N A : List Byte) {X Y : List Byte} (h : X.length = Y.length) :
    afterAd E N A X = afterAd E N A Y := by
  have hnil : X = [] ↔ Y = [] := by
    rw [← List.length_eq_zero_iff, ← List.length_eq_zero_iff, h]
  have hmask : adMask A X = adMask A Y := by
    funext l
    rw [adMask, adMask]
    exact if_congr hnil rfl rfl
  rw [afterAd, afterAd, hmask]

end Cofb
