import Mathlib.Data.BitVec
import Mathlib.Data.List.GetD
import Mathlib.Tactic

set_option autoImplicit false

/-! # Bytes of a bit vector

`byteLE x i` counts bytes from the least significant end, `byteBE n x i` from the most significant
end of an `n`-byte vector. A port that carries a byte string left-aligned holds byte `i` of the
string in `byteBE`; a right-aligned one of `m` bytes holds it in `byteLE (m - 1 - i)`. -/

namespace Bytes

abbrev Byte := BitVec 8

/-- Byte `i` of `x`, the least significant one being byte `0`. -/
def byteLE {w : ℕ} (x : BitVec w) (i : ℕ) : Byte := x.extractLsb' (8 * i) 8

/-- Byte `i` of the `n`-byte vector `x`, the most significant one being byte `0`. -/
def byteBE {w : ℕ} (n : ℕ) (x : BitVec w) (i : ℕ) : Byte := byteLE x (n - 1 - i)

/-- The first `m` bytes of a left-aligned `n`-byte port. -/
def leftBytes {w : ℕ} (n m : ℕ) (x : BitVec w) : List Byte := (List.range m).map (byteBE n x)

/-- The `m` bytes of a right-aligned port, most significant byte first. -/
def rightBytes {w : ℕ} (m : ℕ) (x : BitVec w) : List Byte := (List.range m).map (byteBE m x)

@[simp] theorem length_leftBytes {w : ℕ} (n m : ℕ) (x : BitVec w) :
    (leftBytes n m x).length = m := by
  simp [leftBytes]

@[simp] theorem length_rightBytes {w : ℕ} (m : ℕ) (x : BitVec w) :
    (rightBytes m x).length = m := by
  simp [rightBytes]

theorem getD_leftBytes {w : ℕ} (n m : ℕ) (x : BitVec w) (i : ℕ) (d : Byte) :
    (leftBytes n m x).getD i d = if i < m then byteBE n x i else d := by
  by_cases h : i < m
  · simp [leftBytes, h, List.getD_eq_getElem?_getD]
  · simp [leftBytes, h, List.getD_eq_getElem?_getD]

theorem getD_rightBytes {w : ℕ} (m : ℕ) (x : BitVec w) (i : ℕ) (d : Byte) :
    (rightBytes m x).getD i d = if i < m then byteBE m x i else d := by
  by_cases h : i < m
  · simp [rightBytes, h, List.getD_eq_getElem?_getD]
  · simp [rightBytes, h, List.getD_eq_getElem?_getD]

/-! ## Bits of a byte -/

theorem getLsbD_byteLE {w : ℕ} (x : BitVec w) (i b : ℕ) :
    (byteLE x i).getLsbD b = (decide (b < 8) && x.getLsbD (8 * i + b)) := by
  simp [byteLE]

/-- A vector of whole bytes is determined by its bytes. -/
theorem eq_of_byteLE {w : ℕ} (n : ℕ) (hw : w = 8 * n) {x y : BitVec w}
    (h : ∀ i < n, byteLE x i = byteLE y i) : x = y := by
  apply BitVec.eq_of_getLsbD_eq
  intro j hj
  have hb := congrArg (fun b => BitVec.getLsbD b (j % 8)) (h (j / 8) (by omega))
  simp only [getLsbD_byteLE, Nat.div_add_mod, Nat.mod_lt j (by decide : 0 < 8), decide_true,
    Bool.true_and] at hb
  exact hb

theorem eq_of_byteBE {w : ℕ} (n : ℕ) (hw : w = 8 * n) {x y : BitVec w}
    (h : ∀ i < n, byteBE n x i = byteBE n y i) : x = y := by
  apply eq_of_byteLE n hw
  intro i hi
  have := h (n - 1 - i) (by omega)
  simpa [byteBE, show n - 1 - (n - 1 - i) = i by omega] using this

/-- The `n`-bit vector with bit `j` equal to `f j`. -/
def ofBitsLE : (n : ℕ) → (ℕ → Bool) → BitVec n
  | 0, _ => 0#0
  | n + 1, f => BitVec.cons (f n) (ofBitsLE n f)

theorem getLsbD_ofBitsLE {n : ℕ} (f : ℕ → Bool) {j : ℕ} (hj : j < n) :
    (ofBitsLE n f).getLsbD j = f j := by
  induction n with
  | zero => omega
  | succ n ih =>
      rw [ofBitsLE, BitVec.getLsbD_cons]
      split
      · next h => rw [h]
      · next h => exact ih (by omega)

/-! ## Bytes of the vector operations -/

@[simp] theorem byteLE_zero (w i : ℕ) : byteLE (0#w) i = 0 := by
  simp [byteLE]

@[simp] theorem byteLE_xor {w : ℕ} (x y : BitVec w) (i : ℕ) :
    byteLE (x ^^^ y) i = byteLE x i ^^^ byteLE y i := by
  apply BitVec.eq_of_getLsbD_eq
  intro j hj
  simp only [getLsbD_byteLE, BitVec.getLsbD_xor, hj, decide_true, Bool.true_and]

@[simp] theorem byteBE_zero (w n i : ℕ) : byteBE n (0#w) i = 0 := by
  simp [byteBE]

@[simp] theorem byteBE_xor {w : ℕ} (n : ℕ) (x y : BitVec w) (i : ℕ) :
    byteBE n (x ^^^ y) i = byteBE n x i ^^^ byteBE n y i := by
  simp [byteBE]

theorem byteLE_append_lo {a b : ℕ} (x : BitVec a) (y : BitVec b) {i : ℕ} (h : 8 * i + 8 ≤ b) :
    byteLE (x ++ y) i = byteLE y i := by
  apply BitVec.eq_of_getLsbD_eq
  intro j hj
  simp only [getLsbD_byteLE, BitVec.getLsbD_append, show 8 * i + j < b by omega, if_true]

theorem byteLE_append_hi {a b : ℕ} (x : BitVec a) (y : BitVec b) {i k : ℕ} (hb : b = 8 * k)
    (h : k ≤ i) : byteLE (x ++ y) i = byteLE x (i - k) := by
  apply BitVec.eq_of_getLsbD_eq
  intro j hj
  simp only [getLsbD_byteLE, BitVec.getLsbD_append, show ¬ 8 * i + j < b by omega, if_false,
    show 8 * i + j - b = 8 * (i - k) + j by omega]

theorem byteLE_append {a b : ℕ} (x : BitVec a) (y : BitVec b) (i : ℕ) {k : ℕ} (hb : b = 8 * k) :
    byteLE (x ++ y) i = if i < k then byteLE y i else byteLE x (i - k) := by
  split
  · exact byteLE_append_lo x y (by omega)
  · exact byteLE_append_hi x y hb (by omega)

theorem byteLE_extractLsb' {w : ℕ} (x : BitVec w) (k len : ℕ) {i : ℕ} (h : 8 * i + 8 ≤ len) :
    byteLE (x.extractLsb' (8 * k) len) i = byteLE x (k + i) := by
  apply BitVec.eq_of_getLsbD_eq
  intro j hj
  simp only [getLsbD_byteLE, BitVec.getLsbD_extractLsb', hj, show 8 * i + j < len by omega,
    show 8 * k + (8 * i + j) = 8 * (k + i) + j by omega, decide_true, Bool.true_and]

theorem byteLE_of_ge {w : ℕ} (x : BitVec w) {i : ℕ} (h : w ≤ 8 * i) : byteLE x i = 0 := by
  apply BitVec.eq_of_getLsbD_eq
  intro b hb
  rw [getLsbD_byteLE, BitVec.getLsbD_of_ge x _ (by omega)]
  simp

theorem byteLE_ushiftRight {w : ℕ} (x : BitVec w) (k i : ℕ) :
    byteLE (x >>> (8 * k)) i = byteLE x (k + i) := by
  apply BitVec.eq_of_getLsbD_eq
  intro b hb
  simp only [getLsbD_byteLE, BitVec.getLsbD_ushiftRight, hb, decide_true, Bool.true_and,
    show 8 * k + (8 * i + b) = 8 * (k + i) + b by omega]

theorem byteLE_and {w : ℕ} (x y : BitVec w) (i : ℕ) :
    byteLE (x &&& y) i = byteLE x i &&& byteLE y i := by
  apply BitVec.eq_of_getLsbD_eq
  intro j hj
  simp only [getLsbD_byteLE, BitVec.getLsbD_and, hj, decide_true, Bool.true_and]

theorem byteLE_or {w : ℕ} (x y : BitVec w) (i : ℕ) :
    byteLE (x ||| y) i = byteLE x i ||| byteLE y i := by
  apply BitVec.eq_of_getLsbD_eq
  intro j hj
  simp only [getLsbD_byteLE, BitVec.getLsbD_or, hj, decide_true, Bool.true_and]

/-- One byte shifted to place `k` of a word. -/
theorem byteLE_shifted {w : ℕ} (b : Byte) {k i : ℕ} (hi : 8 * i + 8 ≤ w) :
    byteLE (b.setWidth w <<< (8 * k)) i = if i = k then b else 0 := by
  apply BitVec.eq_of_getLsbD_eq
  intro j hj
  rw [getLsbD_byteLE, BitVec.getLsbD_shiftLeft, BitVec.getLsbD_setWidth]
  rcases Nat.lt_trichotomy i k with h | rfl | h
  · rw [if_neg h.ne, decide_eq_true (show 8 * i + j < 8 * k by omega)]
    simp
  · rw [if_pos rfl, Nat.add_sub_cancel_left]
    simp [hj, show 8 * i + j < w by omega, show j < w by omega]
  · rw [if_neg h.ne', BitVec.getLsbD_of_ge b _ (by omega)]
    simp

/-! ## A vector from its bytes -/

theorem byteLE_cast {v w : ℕ} (h : v = w) (x : BitVec v) (i : ℕ) :
    byteLE (x.cast h) i = byteLE x i := by
  subst h
  rfl

/-- The `n`-byte vector with byte `i` (least significant first) equal to `f i`. -/
def ofBytesLE : (n : ℕ) → (ℕ → Byte) → BitVec (8 * n)
  | 0, _ => 0#0
  | n + 1, f => (f n ++ ofBytesLE n f).cast (by omega)

theorem byteLE_self (b : Byte) : byteLE b 0 = b := by
  simp [byteLE]

theorem byteLE_ofBytesLE {n : ℕ} (f : ℕ → Byte) {i : ℕ} (hi : i < n) :
    byteLE (ofBytesLE n f) i = f i := by
  induction n with
  | zero => omega
  | succ n ih =>
      rw [ofBytesLE, byteLE_cast, byteLE_append _ _ _ (k := n) rfl]
      split
      · next h => exact ih h
      · next h =>
        obtain rfl : i = n := by omega
        rw [Nat.sub_self, byteLE_self]

/-- The `n`-byte vector with byte `i` (most significant first) equal to `f i`. -/
def ofBytesBE (n : ℕ) (f : ℕ → Byte) : BitVec (8 * n) := ofBytesLE n fun i => f (n - 1 - i)

theorem byteBE_ofBytesBE {n : ℕ} (f : ℕ → Byte) {i : ℕ} (hi : i < n) :
    byteBE n (ofBytesBE n f) i = f i := by
  rw [byteBE, ofBytesBE, byteLE_ofBytesLE _ (by omega), show n - 1 - (n - 1 - i) = i by omega]

/-! ## Clearing the unused bytes of a port -/

/-- The first `m` bytes of a left-aligned `n`-byte port, the others zero. -/
def keepLeft {w : ℕ} (n m : ℕ) (x : BitVec w) : BitVec w :=
  (x >>> (8 * (n - m))) <<< (8 * (n - m))

theorem byteBE_keepLeft {w : ℕ} {n m : ℕ} (hw : w = 8 * n) (hm : m ≤ n) (x : BitVec w) {i : ℕ}
    (hi : i < n) : byteBE n (keepLeft n m x) i = if i < m then byteBE n x i else 0 := by
  apply BitVec.eq_of_getLsbD_eq
  intro b hb
  have hin : 8 * (n - 1 - i) + b < w := by omega
  by_cases him : i < m
  · have hge : ¬ 8 * (n - 1 - i) + b < 8 * (n - m) := by omega
    simp only [if_pos him, byteBE, keepLeft, getLsbD_byteLE, BitVec.getLsbD_shiftLeft,
      BitVec.getLsbD_ushiftRight, hin, hge, decide_true, decide_false, Bool.not_false,
      Bool.true_and, Nat.add_sub_cancel' (Nat.le_of_not_lt hge)]
  · have hlt : 8 * (n - 1 - i) + b < 8 * (n - m) := by omega
    simp only [if_neg him, byteBE, keepLeft, getLsbD_byteLE, BitVec.getLsbD_shiftLeft, hlt,
      decide_true, Bool.not_true, Bool.and_false, Bool.false_and]
    simp

end Bytes
