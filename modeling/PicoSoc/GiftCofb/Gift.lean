import PicoSoc.Library.Bytes

set_option autoImplicit false

/-! # The GIFT-128 engine (`gift128_encrypt_top.v` and the modules it instantiates)

One round a cycle on four 32-bit rows and eight 16-bit key words. -/

namespace PicoSoc.GiftCofb

/-! ## The round datapath -/

/-- `S0` to `S3` -/
@[ext] structure Rows where
  s0 : BitVec 32
  s1 : BitVec 32
  s2 : BitVec 32
  s3 : BitVec 32
  deriving DecidableEq, Inhabited

/-- `W0` to `W7` -/
@[ext] structure KeyWords where
  w0 : BitVec 16
  w1 : BitVec 16
  w2 : BitVec 16
  w3 : BitVec 16
  w4 : BitVec 16
  w5 : BitVec 16
  w6 : BitVec 16
  w7 : BitVec 16
  deriving DecidableEq, Inhabited

/-- `gift128_subcells`: the S-box on the 32 columns at once. -/
def gift128Subcells (r : Rows) : Rows :=
  let s1 := r.s1 ^^^ (r.s0 &&& r.s2)
  let s0 := r.s0 ^^^ (s1 &&& r.s3)
  let s2 := r.s2 ^^^ (s0 ||| s1)
  let s3 := r.s3 ^^^ s2
  let s1 := s1 ^^^ s3
  -- stage 3, and the swap of `S0` and `S3`
  { s0 := ~~~s3, s1 := s1, s2 := s2 ^^^ (s0 &&& s1), s3 := s0 }

/-- `{s[i], s[j], …}`: the bits of `s` named in the concatenation, most significant one first. -/
def concatBits (s : BitVec 32) : (bits : List ℕ) → BitVec bits.length
  | [] => 0#0
  | b :: bits => BitVec.cons (s.getLsbD b) (concatBits s bits)

/-- The bits of the first row after the permutation, the highest first. -/
def permBits0 : List ℕ :=
  [29, 25, 21, 17, 13, 9, 5, 1, 30, 26, 22, 18, 14, 10, 6, 2, 31, 27, 23, 19, 15, 11, 7, 3,
    28, 24, 20, 16, 12, 8, 4, 0]

/-- The bits of the second row. -/
def permBits1 : List ℕ :=
  [30, 26, 22, 18, 14, 10, 6, 2, 31, 27, 23, 19, 15, 11, 7, 3, 28, 24, 20, 16, 12, 8, 4, 0,
    29, 25, 21, 17, 13, 9, 5, 1]

/-- The bits of the third row. -/
def permBits2 : List ℕ :=
  [31, 27, 23, 19, 15, 11, 7, 3, 28, 24, 20, 16, 12, 8, 4, 0, 29, 25, 21, 17, 13, 9, 5, 1,
    30, 26, 22, 18, 14, 10, 6, 2]

/-- The bits of the fourth row. -/
def permBits3 : List ℕ :=
  [28, 24, 20, 16, 12, 8, 4, 0, 29, 25, 21, 17, 13, 9, 5, 1, 30, 26, 22, 18, 14, 10, 6, 2,
    31, 27, 23, 19, 15, 11, 7, 3]

/-- `gift128_permbits` -/
def gift128Permbits (r : Rows) : Rows where
  s0 := concatBits r.s0 permBits0
  s1 := concatBits r.s1 permBits1
  s2 := concatBits r.s2 permBits2
  s3 := concatBits r.s3 permBits3

/-- `gift128_addroundkey`: 64 bits of the key. -/
def gift128Addroundkey (w : KeyWords) (r : Rows) : Rows :=
  { r with s2 := r.s2 ^^^ (w.w2 ++ w.w3), s1 := r.s1 ^^^ (w.w6 ++ w.w7) }

/-- `gift128_roundconst` -/
def gift128Roundconst (rc : BitVec 8) (r : Rows) : Rows :=
  { r with s3 := r.s3 ^^^ 0x80000000 ^^^ (0#24 ++ rc) }

/-- `gift128_keyschedule`: the key words move on, two of them rotated. -/
def gift128Keyschedule (w : KeyWords) : KeyWords where
  w0 := w.w6.extractLsb' 0 2 ++ w.w6.extractLsb' 2 14
  w1 := w.w7.extractLsb' 0 12 ++ w.w7.extractLsb' 12 4
  w2 := w.w0
  w3 := w.w1
  w4 := w.w2
  w5 := w.w3
  w6 := w.w4
  w7 := w.w5

/-- A round of the cipher. -/
def gift128Round (w : KeyWords) (rc : BitVec 8) (r : Rows) : Rows :=
  gift128Roundconst rc (gift128Addroundkey w (gift128Permbits (gift128Subcells r)))

/-! ## `gift128_encrypt_top` -/

/-- The round constant ROM. -/
def rcRom : List (BitVec 8) :=
  [0x01, 0x03, 0x07, 0x0F, 0x1F, 0x3E, 0x3D, 0x3B, 0x37, 0x2F, 0x1E, 0x3C, 0x39, 0x33, 0x27, 0x0E,
    0x1D, 0x3A, 0x35, 0x2B, 0x16, 0x2C, 0x18, 0x30, 0x21, 0x02, 0x05, 0x0B, 0x17, 0x2E, 0x1C, 0x38,
    0x31, 0x23, 0x06, 0x0D, 0x1B, 0x36, 0x2D, 0x1A]

/-- The constant of a round. -/
def roundConstant (round : BitVec 6) : BitVec 8 := rcRom.getD round.toNat 0x00

/-- The inputs of `gift128_encrypt_block`. -/
structure GiftIn where
  start : Bool
  plaintext : BitVec 128
  key : BitVec 128

/-- The registers of the engine. -/
structure Gift where
  rows : Rows
  words : KeyWords
  round : BitVec 6
  busy : Bool
  done : Bool
  ciphertext : BitVec 128
  deriving Inhabited

/-- Reset leaves the data registers as they are. -/
def Gift.reset (g : Gift) : Gift := { g with busy := false, done := false, round := 0 }

/-- Load the plaintext (big-endian). -/
def loadRows (plaintext : BitVec 128) : Rows where
  s0 := plaintext.extractLsb' 96 32
  s1 := plaintext.extractLsb' 64 32
  s2 := plaintext.extractLsb' 32 32
  s3 := plaintext.extractLsb' 0 32

/-- Load the key. -/
def loadWords (key : BitVec 128) : KeyWords where
  w0 := key.extractLsb' 112 16
  w1 := key.extractLsb' 96 16
  w2 := key.extractLsb' 80 16
  w3 := key.extractLsb' 64 16
  w4 := key.extractLsb' 48 16
  w5 := key.extractLsb' 32 16
  w6 := key.extractLsb' 16 16
  w7 := key.extractLsb' 0 16

/-- `{S0, S1, S2, S3}`. -/
def Rows.block (r : Rows) : BitVec 128 := r.s0 ++ r.s1 ++ r.s2 ++ r.s3

/-- The clock edge: a start when the engine is free, or a round. -/
def Gift.step (i : GiftIn) (g : Gift) : Gift :=
  if i.start && !g.busy then
    { g with
      done := false
      rows := loadRows i.plaintext
      words := loadWords i.key
      round := 0
      busy := true }
  else if g.busy then
    let rows := gift128Round g.words (roundConstant g.round) g.rows
    { rows := rows
      words := gift128Keyschedule g.words
      busy := if g.round = 39 then false else true
      done := if g.round = 39 then true else false
      ciphertext := if g.round = 39 then rows.block else g.ciphertext
      round := g.round + 1 }
  else { g with done := false }

end PicoSoc.GiftCofb
