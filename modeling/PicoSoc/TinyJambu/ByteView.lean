import PicoSoc.TinyJambu.Phases

set_option autoImplicit false

/-! # The words of the core as bytes of the strings

The barrel shifter turns a right-aligned port into the string with its first byte lowest; the
words the machine walks over are then the blocks of the specification. -/

namespace PicoSoc.TinyJambu

open Bytes

/-! ## Ports -/

theorem byteLE_bswap {n : ℕ} (x : BitVec (8 * n)) {i : ℕ} (hi : i < n) :
    byteLE (bswap n x) i = byteBE n x i :=
  byteLE_ofBytesLE _ hi

theorem byteBE_bswap {n : ℕ} (x : BitVec (8 * n)) {i : ℕ} (hi : i < n) :
    byteBE n (bswap n x) i = byteLE x i := by
  rw [byteBE, byteLE_bswap x (by omega), byteBE, show n - 1 - (n - 1 - i) = i by omega]

theorem bswap64_bswap64 (x : BitVec 64) : bswap64 (bswap64 x) = x := by
  apply eq_of_byteLE 8 rfl
  intro i hi
  rw [bswap64, byteLE_bswap (n := 8) _ hi, bswap64, byteBE_bswap (n := 8) _ hi]

/-- `v` holds the string `X`, first byte lowest, and zeros after it. -/
def Holds (v : BitVec 128) (X : List Byte) : Prop := ∀ i < 16, byteLE v i = X.getD i 0

/-- A data length the core is meant for. -/
def InBlock (len : BitVec 5) : Prop := len.toNat ≤ 16

instance (len : BitVec 5) : Decidable (InBlock len) :=
  inferInstanceAs (Decidable (len.toNat ≤ 16))

theorem byteLE_bsOutput (x : BitVec 128) {len : BitVec 5} (hlen : InBlock len) (i : ℕ) :
    byteLE (bsOutput x len) i = if i < len.toNat then byteBE len.toNat x i else 0 := by
  have hle : len.toNat ≤ 16 := hlen
  have hshift : ((16 - len) ++ 0#3 : BitVec 8).toNat = 8 * (16 - len.toNat) := by
    have htable : ∀ len : BitVec 5, InBlock len →
        ((16 - len) ++ 0#3 : BitVec 8).toNat = 8 * (16 - len.toNat) := by
      decide
    exact htable len hlen
  have hdef : bsOutput x len = bswap128 x >>> (8 * (16 - len.toNat)) := by
    rw [← hshift]
    rfl
  rw [hdef, byteLE_ushiftRight]
  split
  · rw [bswap128, byteLE_bswap (n := 16) x (by omega), byteBE, byteBE]
    congr 1
    omega
  · exact byteLE_of_ge _ (by omega)

/-- The register behind the barrel shifter holds the string of a right-aligned port. -/
theorem holds_bsOutput (x : BitVec 128) {len : BitVec 5} (hlen : InBlock len) :
    Holds (bsOutput x len) (rightBytes len.toNat x) := by
  intro i _
  rw [byteLE_bsOutput x hlen, getD_rightBytes]

/-! ## Words and blocks -/

/-- Block `j` of a string. -/
def block (X : List Byte) (j : ℕ) : List Byte := (X.drop (4 * j)).take 4

theorem length_block (X : List Byte) (j : ℕ) : (block X j).length = min 4 (X.length - 4 * j) := by
  simp [block]

theorem getD_block (X : List Byte) (j b : ℕ) (hb : b < 4) :
    (block X j).getD b 0 = X.getD (4 * j + b) 0 := by
  simp [block, List.getD_eq_getElem?_getD, List.getElem?_drop, hb]

theorem byteLE_getWord (v : BitVec 128) {j b : ℕ} (hj : j < 4) (hb : b < 4) :
    byteLE (getWord v (BitVec.ofNat 2 j)) b = byteLE v (4 * j + b) := by
  have hidx : (BitVec.ofNat 2 j).toNat = j := by
    simp only [BitVec.toNat_ofNat]
    omega
  rw [getWord, hidx, show 32 * j = 8 * (4 * j) by omega, byteLE_extractLsb' _ _ _ (by omega)]

theorem byteLE_loadBlock (B : List Byte) {b : ℕ} (hb : b < 4) :
    byteLE (Spec.loadBlock B) b = B.getD b 0 :=
  byteLE_ofBytesLE _ hb

theorem loadBlock_eq {v : BitVec 128} {X : List Byte} (hv : Holds v X) {j : ℕ} (hj : j < 4) :
    Spec.loadBlock (block X j) = getWord v (BitVec.ofNat 2 j) := by
  apply eq_of_byteLE 4 rfl
  intro b hb
  rw [byteLE_loadBlock _ hb, getD_block _ _ _ hb, byteLE_getWord _ hj hb, hv _ (by omega)]

theorem calcWords_toNat {len : BitVec 5} (hlen : InBlock len) :
    (calcWords len).toNat = (len.toNat + 3) / 4 := by
  have htable : ∀ len : BitVec 5, InBlock len → (calcWords len).toNat = (len.toNat + 3) / 4 := by
    decide
  exact htable len hlen

theorem partialBytes_toNat (len : BitVec 5) : (partialBytes len).toNat = len.toNat % 4 := by
  have htable : ∀ len : BitVec 5, (partialBytes len).toNat = len.toNat % 4 := by decide
  exact htable len

theorem byteLE_byteMask (p : BitVec 2) {b : ℕ} (hb : b < 4) :
    byteLE (byteMask p) b = if p = 0 ∨ b < p.toNat then 0xFF else 0 := by
  have htable : ∀ p : BitVec 2, ∀ b < 4,
      byteLE (byteMask p) b = if p = 0 ∨ b < p.toNat then 0xFF else 0 := by
    decide
  exact htable p b hb

/-- Masking keeps the bytes inside the string. -/
theorem byteLE_maskedWord {len : BitVec 5} {j : ℕ} (hj : j < (len.toNat + 3) / 4)
    (word : BitVec 32) {b : ℕ} (hb : b < 4) :
    byteLE (maskedWord len (decide (j + 1 = (len.toNat + 3) / 4)) word) b =
      if 4 * j + b < len.toNat then byteLE word b else 0 := by
  have hp := partialBytes_toNat len
  have hone : ∀ x : Byte, x &&& 0xFF = x := by decide
  have hzero : ∀ x : Byte, x &&& 0 = 0 := by decide
  have hp0 : partialBytes len = 0 ↔ len.toNat % 4 = 0 := by
    rw [← BitVec.toNat_inj, hp]
    rfl
  rw [maskedWord]
  by_cases hlast : j + 1 = (len.toNat + 3) / 4
  · by_cases hpart : partialBytes len = 0
    · rw [if_neg (fun h => h.2 hpart), if_pos (by have := hp0.1 hpart; omega)]
    · rw [if_pos ⟨decide_eq_true hlast, hpart⟩, byteLE_and, byteLE_byteMask _ hb, hp]
      have hmod : ¬ len.toNat % 4 = 0 := fun h => hpart (hp0.2 h)
      by_cases hin : 4 * j + b < len.toNat
      · rw [if_pos hin, if_pos (.inr (by omega)), hone]
      · rw [if_neg hin, if_neg (by rintro (h | h); exacts [hpart h, by omega]), hzero]
  · rw [if_neg (fun h => hlast (of_decide_eq_true h.1)), if_pos (by omega)]

/-- Only a short block adds its length. -/
theorem addLength_block {X : List Byte} {len : BitVec 5} (hX : X.length = len.toNat) {j : ℕ}
    (hj : j < (len.toNat + 3) / 4) (s : Spec.State) :
    Spec.addLength (block X j) s =
      Spec.addWord 1 (partialFrame len (decide (j + 1 = (len.toNat + 3) / 4))) s := by
  have hp := partialBytes_toNat len
  have hp0 : partialBytes len = 0 ↔ len.toNat % 4 = 0 := by
    rw [← BitVec.toNat_inj, hp]
    rfl
  rw [Spec.addLength, length_block, hX, partialFrame]
  by_cases hshort : j + 1 = (len.toNat + 3) / 4 ∧ len.toNat % 4 ≠ 0
  · have hcount : min 4 (len.toNat - 4 * j) = len.toNat % 4 := by omega
    rw [hcount, if_pos (by omega), if_pos ⟨decide_eq_true hshort.1, fun h => hshort.2 (hp0.1 h)⟩]
    congr 1
    apply BitVec.eq_of_toNat_eq
    rw [BitVec.toNat_ofNat, BitVec.toNat_setWidth, hp]
  · rw [if_neg (by omega), if_neg (fun h => hshort ⟨of_decide_eq_true h.1, fun h0 => h.2 (hp0.2 h0)⟩)]
    simp [Spec.addWord]

/-! ## The register -/

theorem bits_zero : Nlfsr.zero.bits = 0 := rfl

theorem bits_frame (x : BitVec 32) (w : Nlfsr) : (w.frame x).bits = Spec.addWord 1 x w.bits := by
  apply BitVec.eq_of_getLsbD_eq
  intro j hj
  rw [Spec.addWord, BitVec.getLsbD_xor, BitVec.getLsbD_shiftLeft, BitVec.getLsbD_setWidth,
    getLsbD_bits, getLsbD_bits]
  simp only [Nlfsr.frame, BitVec.getLsbD_xor]
  by_cases h1 : j < 32
  · simp [h1]
  · by_cases h2 : j < 64
    · simp [h1, h2, hj, show j - 32 < 128 by omega]
    · have hge : x.getLsbD (j - 32) = false := BitVec.getLsbD_of_ge x _ (by omega)
      simp [h1, h2, hge]

theorem bits_inject (x : BitVec 32) (w : Nlfsr) : (w.inject x).bits = Spec.addWord 3 x w.bits := by
  apply BitVec.eq_of_getLsbD_eq
  intro j hj
  rw [Spec.addWord, BitVec.getLsbD_xor, BitVec.getLsbD_shiftLeft, BitVec.getLsbD_setWidth,
    getLsbD_bits, getLsbD_bits]
  simp only [Nlfsr.inject, BitVec.getLsbD_xor]
  by_cases h3 : j < 96
  · simp [h3]
  · simp [h3, hj, show ¬ j < 32 by omega, show ¬ j < 64 by omega, show j - 96 < 128 by omega]

theorem word_bits (w : Nlfsr) : Spec.word w.bits 2 = w.w2 := by
  apply BitVec.eq_of_getLsbD_eq
  intro j hj
  rw [Spec.word, BitVec.getLsbD_extractLsb', decide_eq_true hj, Bool.true_and, getLsbD_bits,
    if_neg (by omega), if_neg (by omega), if_pos (by omega)]
  congr 1
  omega

end PicoSoc.TinyJambu
