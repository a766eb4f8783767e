import PicoSoc.Library.Cyclist

set_option autoImplicit false

/-! # What Xoodyak is

Xoodoo on three planes of four lanes, and the Xoodyak AEAD and hash as Cyclist operations over it. -/

namespace PicoSoc.Xoodyak.Spec

open Bytes (Byte)

/-! ## Xoodoo -/

scoped instance neZeroThree : NeZero 3 := ⟨by decide⟩
scoped instance neZeroFour : NeZero 4 := ⟨by decide⟩

/-- Three planes of four lanes. -/
abbrev Planes := Fin 3 → Fin 4 → BitVec 32

/-- `A ⋘ (t, v)`: lanes move by `t`, the bits of each lane by `v`. -/
def shiftPlane (t : Fin 4) (v : ℕ) (p : Fin 4 → BitVec 32) : Fin 4 → BitVec 32 :=
  fun x => (p (x - t)).rotateLeft v

/-- The column parity mixer. -/
def theta (a : Planes) : Planes :=
  let p := fun x => a 0 x ^^^ a 1 x ^^^ a 2 x
  fun y x => a y x ^^^ (shiftPlane 1 5 p x ^^^ shiftPlane 1 14 p x)

/-- The plane shifts before the S-box. -/
def rhoWest (a : Planes) : Planes := ![a 0, shiftPlane 1 0 (a 1), shiftPlane 0 11 (a 2)]

/-- The round constant. -/
def iota (c : BitVec 32) (a : Planes) : Planes :=
  fun y x => if y = 0 ∧ x = 0 then a y x ^^^ c else a y x

/-- The S-box on the columns. -/
def chi (a : Planes) : Planes := fun y x => a y x ^^^ (~~~ a (y + 1) x &&& a (y + 2) x)

/-- The plane shifts after the S-box. -/
def rhoEast (a : Planes) : Planes := ![a 0, shiftPlane 0 1 (a 1), shiftPlane 2 8 (a 2)]

/-- A round of Xoodoo. -/
def round (a : Planes) (c : BitVec 32) : Planes := rhoEast (chi (iota c (rhoWest (theta a))))

/-- The standard round constants, first round first. -/
def roundConstants : List (BitVec 32) :=
  [0x058, 0x038, 0x3C0, 0x0D0, 0x120, 0x014, 0x060, 0x02C, 0x380, 0x0F0, 0x1A0, 0x012]

/-- Xoodoo with its twelve rounds. -/
def permute (a : Planes) : Planes := roundConstants.foldl round a

/-! ## The byte view: lanes are little-endian, plane by plane -/

/-- The state as bytes, lane after lane and each little endian. -/
def bytes (a : Planes) : Cyclist.State 48 :=
  fun i => Bytes.byteLE (a ⟨i.val / 16, by omega⟩ ⟨i.val / 4 % 4, by omega⟩) (i.val % 4)

/-- The lanes of a state of bytes. -/
def lanes (s : Cyclist.State 48) : Planes :=
  fun y x =>
    s ⟨16 * y.val + 4 * x.val + 3, by omega⟩ ++ s ⟨16 * y.val + 4 * x.val + 2, by omega⟩ ++
      s ⟨16 * y.val + 4 * x.val + 1, by omega⟩ ++ s ⟨16 * y.val + 4 * x.val, by omega⟩

/-- The permutation on bytes. -/
def f (s : Cyclist.State 48) : Cyclist.State 48 := bytes (permute (lanes s))

/-! ## Xoodyak -/

/-- Bytes of a block of a hash. -/
def rateHash : ℕ := 16

/-- Bytes of a block absorbed with a key. -/
def rateKin : ℕ := 44

/-- Bytes of a block squeezed with a key. -/
def rateKout : ℕ := 24

open Cyclist in
/-- The keyed object: `K ‖ N ‖ enc8(|N|)` absorbed with colour `02`. -/
def keyed (K N : List Byte) : Duplex 48 :=
  absorbAny f .keyed rateKin (K ++ N ++ [BitVec.ofNat 8 N.length]) 0x02 (.initial 48)

open Cyclist in
/-- The object that has absorbed key, nonce and associated data. -/
def withAd (K N A : List Byte) : Duplex 48 := absorbAny f .keyed rateKin A 0x03 (keyed K N)

open Cyclist in
/-- Ciphertext and 16-byte tag. -/
def encrypt (K N A P : List Byte) : List Byte × List Byte :=
  let c := crypt f .keyed rateKout false P (withAd K N A)
  (c.1, squeezeAny f .keyed rateKout 16 0x40 c.2)

open Cyclist in
/-- The 32-byte hash. -/
def hash (X : List Byte) : List Byte :=
  squeezeAny f .hash rateHash 32 0x40 (absorbAny f .hash rateHash X 0x03 (.initial 48))

end PicoSoc.Xoodyak.Spec
