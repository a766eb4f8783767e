import PicoSoc.Library.Bytes

set_option autoImplicit false

/-! # What TinyJAMBU-128 is

The keyed permutation one bit at a time, and the mode over byte strings cut into four-byte blocks. -/

namespace PicoSoc.TinyJambu.Spec

open Bytes (Byte)

/-! ## The permutation -/

/-- The state of the keyed permutation. -/
abbrev State := BitVec 128

/-- One round: the register moves down by one bit, bit 127 becomes the feedback. -/
def nlfsrRound (k : BitVec 128) (s : State) (i : ℕ) : State :=
  let feedback := s.getLsbD 0 ^^ s.getLsbD 47 ^^ !(s.getLsbD 70 && s.getLsbD 85) ^^
    s.getLsbD 91 ^^ k.getLsbD (i % 128)
  BitVec.cons feedback (s.extractLsb' 1 127)

/-- `P_n`: the rounds `0 … n - 1`. -/
def permute (k : BitVec 128) (n : ℕ) (s : State) : State := (List.range n).foldl (nlfsrRound k) s

/-! ## Words of the state and of a string -/

/-- Word `j`: the bits `32 j … 32 j + 31`. -/
def word (s : State) (j : ℕ) : BitVec 32 := s.extractLsb' (32 * j) 32

/-- XOR `x` into the bits from `32 j` on. -/
def addWord (j : ℕ) (x : BitVec 32) (s : State) : State := s ^^^ (x.setWidth 128 <<< (32 * j))

/-- A block of at most four bytes as a little-endian word, padded with zeros. -/
def loadBlock (B : List Byte) : BitVec 32 := Bytes.ofBytesLE 4 fun i => B.getD i 0

/-- The blocks of a string: four bytes each, the last one possibly shorter. -/
def blocks (X : List Byte) : List (List Byte) :=
  (List.range ((X.length + 3) / 4)).map fun j => (X.drop (4 * j)).take 4

/-- The frame bits of the nonce. -/
def frameNonce : BitVec 32 := 0x10

/-- The frame bits of the associated data. -/
def frameAd : BitVec 32 := 0x30

/-- The frame bits of the message. -/
def frameData : BitVec 32 := 0x50

/-- The frame bits of the tag. -/
def frameFinal : BitVec 32 := 0x70

/-- A short block adds its length to the frame word. -/
def addLength (B : List Byte) (s : State) : State :=
  if B.length < 4 then addWord 1 (BitVec.ofNat 32 B.length) s else s

/-! ## The mode -/

/-- The state after the key and the nonce. -/
def initState (k : BitVec 128) (N : List Byte) : State :=
  (blocks N).foldl
    (fun s B => addWord 3 (loadBlock B) (permute k 640 (addWord 1 frameNonce s)))
    (permute k 1024 0)

/-- The state after a block of associated data. -/
def absorbAd (k : BitVec 128) (s : State) (B : List Byte) : State :=
  addLength B (addWord 3 (loadBlock B) (permute k 640 (addWord 1 frameAd s)))

/-- The output block and the next state: the plaintext block goes into the state. -/
def cryptBlock (k : BitVec 128) (decrypt : Bool) (s : State) (B : List Byte) : List Byte × State :=
  let s := permute k 1024 (addWord 1 frameData s)
  let O := List.zipWith (· ^^^ ·) B ((List.range 4).map (Bytes.byteLE (word s 2)))
  (O, addLength B (addWord 3 (loadBlock (if decrypt then O else B)) s))

/-- The output and the state after the message, block by block. -/
def crypt (k : BitVec 128) (decrypt : Bool) (s : State) (X : List Byte) : List Byte × State :=
  (blocks X).foldl
    (fun p B => (p.1 ++ (cryptBlock k decrypt p.2 B).1, (cryptBlock k decrypt p.2 B).2)) ([], s)

/-- The eight bytes of the tag. -/
def finalize (k : BitVec 128) (s : State) : List Byte :=
  let s₁ := permute k 1024 (addWord 1 frameFinal s)
  let s₂ := permute k 640 (addWord 1 frameFinal s₁)
  (List.range 4).map (Bytes.byteLE (word s₁ 2)) ++ (List.range 4).map (Bytes.byteLE (word s₂ 2))

/-- Output and computed tag of an encryption, or of a decryption. -/
def aead (decrypt : Bool) (K N A X : List Byte) : List Byte × List Byte :=
  let k := Bytes.ofBytesLE 16 fun i => K.getD i 0
  let r := crypt k decrypt ((blocks A).foldl (absorbAd k) (initState k N)) X
  (r.1, finalize k r.2)

end PicoSoc.TinyJambu.Spec
