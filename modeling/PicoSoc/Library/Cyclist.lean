import PicoSoc.Library.Bytes

set_option autoImplicit false

/-! # The Cyclist mode of a permutation

A duplex object over a `b`-byte permutation `f`, in hash or keyed mode: `down` adds a padded block
and a colour byte, `up` applies the permutation. `absorbAny`, `crypt` and `squeezeAny` are the
operations built from them, for strings of any length; the `_single` rules say what they do with a
string that fits one block. -/

namespace Cyclist

open Bytes (Byte)

variable {b : ℕ}

/-- A state of `b` bytes. -/
abbrev State (b : ℕ) := Fin b → Byte

/-- Whether a key has been absorbed. -/
inductive Mode
  | hash | keyed
  deriving DecidableEq

/-- The last call of the duplex. -/
inductive Phase
  | up | down
  deriving DecidableEq

/-- The state between two calls. -/
structure Duplex (b : ℕ) where
  phase : Phase
  state : State b

/-- The object before anything is absorbed: phase up, all bytes zero. -/
def Duplex.initial (b : ℕ) : Duplex b := ⟨.up, fun _ => 0⟩

/-- Add the string `X` at the front of the state. -/
def addBytes (X : List Byte) (s : State b) : State b := fun i => s i ^^^ X.getD i.val 0

/-- Add the colour byte `c` to the last byte of the state. -/
def addLast (c : Byte) (s : State b) : State b :=
  fun i => if i.val + 1 = b then s i ^^^ c else s i

/-- The first `n` bytes of the state. -/
def takeBytes (n : ℕ) (s : State b) : List Byte :=
  (List.range n).map fun i => if h : i < b then s ⟨i, h⟩ else 0

/-- Add `X ‖ 01` and the colour; in hash mode only the lowest bit of the colour counts. -/
def down (mode : Mode) (X : List Byte) (cD : Byte) (d : Duplex b) : Duplex b :=
  ⟨.down, addLast (if mode = .hash then cD &&& 1 else cD) (addBytes (X ++ [1]) d.state)⟩

/-- Apply the permutation; in keyed mode the colour is added before it. -/
def up (f : State b → State b) (mode : Mode) (cU : Byte) (d : Duplex b) : Duplex b :=
  ⟨.up, f (if mode = .hash then d.state else addLast cU d.state)⟩

/-- Split into blocks of `r` bytes; the empty string is one empty block. -/
def blocks (r : ℕ) (X : List Byte) : List (List Byte) :=
  (List.range (max 1 ((X.length + r - 1) / r))).map fun k => (X.drop (k * r)).take r

/-- A block of a string, after a call of the permutation if there was none. -/
def absorbBlock (f : State b → State b) (mode : Mode) (X : List Byte) (cD : Byte) (d : Duplex b) :
    Duplex b :=
  down mode X cD (if d.phase = .up then d else up f mode 0 d)

/-- Absorb with rate `r`; only the first block carries the colour `cD`. -/
def absorbAny (f : State b → State b) (mode : Mode) (r : ℕ) (X : List Byte) (cD : Byte)
    (d : Duplex b) : Duplex b :=
  match blocks r X with
  | [] => d
  | B :: Bs => Bs.foldl (fun d B => absorbBlock f mode B 0 d) (absorbBlock f mode B cD d)

/-- The sum of two strings. -/
def xorBytes (X Y : List Byte) : List Byte := List.zipWith (· ^^^ ·) X Y

/-- Encrypt or decrypt blocks: the output is the block plus the squeezed bytes, and the plaintext
    block goes down. -/
def cryptBlocks (f : State b → State b) (mode : Mode) (decrypt : Bool) :
    List (List Byte) → Byte → Duplex b → List Byte × Duplex b
  | [], _, d => ([], d)
  | I :: Is, cU, d =>
      let d' := up f mode cU d
      let O := xorBytes I (takeBytes I.length d'.state)
      let rest := cryptBlocks f mode decrypt Is 0 (down mode (if decrypt then O else I) 0 d')
      (O ++ rest.1, rest.2)

/-- The output and the state after the message. -/
def crypt (f : State b → State b) (mode : Mode) (r : ℕ) (decrypt : Bool) (I : List Byte)
    (d : Duplex b) : List Byte × Duplex b :=
  cryptBlocks f mode decrypt (blocks r I) 0x80 d

/-- Keep squeezing blocks of `r` bytes after an empty block has gone down. -/
def squeezeMore (f : State b → State b) (mode : Mode) (r : ℕ) : ℕ → ℕ → Duplex b → List Byte
  | 0, _, _ => []
  | k + 1, ℓ, d =>
      if ℓ = 0 then []
      else
        let d' := up f mode 0 (down mode [] 0 d)
        takeBytes (min ℓ r) d'.state ++ squeezeMore f mode r k (ℓ - min ℓ r) d'

/-- Squeeze `ℓ` bytes at rate `r`. -/
def squeezeAny (f : State b → State b) (mode : Mode) (r ℓ : ℕ) (cU : Byte) (d : Duplex b) :
    List Byte :=
  let d' := up f mode cU d
  takeBytes (min ℓ r) d'.state ++ squeezeMore f mode r ℓ (ℓ - min ℓ r) d'

/-- A padded block carries `01` right after its bytes. -/
theorem getD_padded (X : List Byte) (i : ℕ) :
    (X ++ [1]).getD i 0 = X.getD i 0 ^^^ (if i = X.length then 1 else 0) := by
  rcases Nat.lt_trichotomy i X.length with h | h | h
  · rw [List.getD_append _ _ _ _ h, if_neg (by omega)]
    exact BitVec.xor_zero.symm
  · subst h
    simp
  · rw [List.getD_append_right _ _ _ _ (by omega),
      List.getD_eq_default _ _ (by simp only [List.length_singleton]; omega), if_neg (by omega),
      List.getD_eq_default _ _ (by omega)]
    rfl

/-- Adding the same keystream twice returns the string. -/
theorem xorBytes_cancel {X K : List Byte} (h : X.length ≤ K.length) :
    xorBytes (xorBytes X K) K = X := by
  induction X generalizing K with
  | nil => rfl
  | cons x X ih =>
      cases K with
      | nil => simp at h
      | cons k K =>
          have htail := ih (K := K) (by simpa using h)
          simp only [xorBytes, List.zipWith_cons_cons, BitVec.xor_assoc, BitVec.xor_self] at htail ⊢
          rw [htail]
          simp

@[simp] theorem length_takeBytes (n : ℕ) (s : State b) : (takeBytes n s).length = n := by
  simp [takeBytes]

/-! ## Strings of one block -/

theorem blocks_single {r : ℕ} {X : List Byte} (hr : 0 < r) (hX : X.length ≤ r) :
    blocks r X = [X] := by
  have hcount : max 1 ((X.length + r - 1) / r) = 1 := by
    have : (X.length + r - 1) / r ≤ 1 := by
      rw [Nat.div_le_iff_le_mul hr]
      omega
    omega
  simp [blocks, hcount, List.take_of_length_le hX]

theorem absorbAny_single (f : State b → State b) (mode : Mode) {r : ℕ} {X : List Byte}
    (hr : 0 < r) (hX : X.length ≤ r) (cD : Byte) (d : Duplex b) :
    absorbAny f mode r X cD d = absorbBlock f mode X cD d := by
  simp [absorbAny, blocks_single hr hX]

theorem crypt_single (f : State b → State b) (mode : Mode) {r : ℕ} {I : List Byte}
    (hr : 0 < r) (hI : I.length ≤ r) (decrypt : Bool) (d : Duplex b) :
    crypt f mode r decrypt I d =
      (xorBytes I (takeBytes I.length (up f mode 0x80 d).state),
        down mode
          (if decrypt then xorBytes I (takeBytes I.length (up f mode 0x80 d).state) else I) 0
          (up f mode 0x80 d)) := by
  simp [crypt, blocks_single hr hI, cryptBlocks]

@[simp] theorem squeezeMore_zero (f : State b → State b) (mode : Mode) (r k : ℕ) (d : Duplex b) :
    squeezeMore f mode r k 0 d = [] := by
  cases k <;> simp [squeezeMore]

theorem squeezeAny_single (f : State b → State b) (mode : Mode) {r ℓ : ℕ} (hℓ : ℓ ≤ r) (cU : Byte)
    (d : Duplex b) :
    squeezeAny f mode r ℓ cU d = takeBytes ℓ (up f mode cU d).state := by
  simp [squeezeAny, Nat.min_eq_left hℓ]

/-- Two full blocks: an empty block goes down between them. -/
theorem squeezeAny_double (f : State b → State b) (mode : Mode) {r : ℕ} (hr : 0 < r) (cU : Byte)
    (d : Duplex b) :
    squeezeAny f mode r (r + r) cU d =
      takeBytes r (up f mode cU d).state ++
        takeBytes r (up f mode 0 (down mode [] 0 (up f mode cU d))).state := by
  have hmore : ∀ d : Duplex b, squeezeMore f mode r (r + r) r d =
      takeBytes r (up f mode 0 (down mode [] 0 d)).state := by
    intro d
    obtain ⟨k, hk⟩ : ∃ k, r + r = k + 1 := ⟨r + r - 1, by omega⟩
    rw [hk, squeezeMore]
    simp [hr.ne']
  rw [squeezeAny]
  simp only [show min (r + r) r = r by omega, Nat.add_sub_cancel, hmore]

end Cyclist
