import PicoSoc.GiftCofb.Core
import PicoSoc.GiftCofb.Spec

set_option autoImplicit false

/-! # The block functions on bytes

A port carries a block left-aligned; only its first bytes belong to the string. -/

namespace PicoSoc.GiftCofb

open Bytes

/-! ## Blocks as byte strings -/

theorem byteBE_toBlock (B : List Byte) {i : ℕ} (hi : i < 16) :
    byteBE 16 (Cofb.toBlock B) i = B.getD i 0 :=
  byteBE_ofBytesBE _ hi

/-- A block is the string of its bytes. -/
theorem toBlock_leftBytes (x : BitVec 128) : Cofb.toBlock (leftBytes 16 16 x) = x := by
  apply eq_of_byteBE 16 rfl
  intro i hi
  rw [byteBE_toBlock _ hi, getD_leftBytes, if_pos hi]

theorem toNat_blockBytes (remaining : BitVec 8) :
    (blockBytes remaining).toNat = min 16 remaining.toNat := by
  unfold blockBytes
  by_cases h : 16 < remaining
  · have h' : 16 < remaining.toNat := BitVec.lt_def.1 h
    rw [if_pos h, Nat.min_eq_left (by omega)]
    rfl
  · have h' : remaining.toNat ≤ 16 := BitVec.le_def.1 (BitVec.not_lt.1 h)
    rw [if_neg h, BitVec.extractLsb'_toNat, Nat.shiftRight_zero, Nat.min_eq_right h']
    omega

theorem lastNow_iff (remaining : BitVec 8) : lastNow remaining = true ↔ remaining.toNat ≤ 16 := by
  rw [lastNow, decide_eq_true_iff, BitVec.le_def]
  rfl

/-! ## Masks -/

theorem doubleHalfBlock_eq (l : BitVec 64) : doubleHalfBlock l = Cofb.double l := by
  have hsplit : l <<< 1 = (l <<< 1).extractLsb' 8 56 ++ (l <<< 1).extractLsb' 0 8 := by
    rw [BitVec.extractLsb'_append_extractLsb'_eq_extractLsb' (by rfl)]
    exact BitVec.extractLsb'_eq_self.symm
  have hmsb : l.getLsbD 63 = l.msb := rfl
  have hred : (if l.msb then 0x1B else 0 : BitVec 64) = 0#56 ++ (if l.msb then 0x1B#8 else 0#8) := by
    cases l.msb <;> rfl
  rw [Cofb.double, hred]
  conv_rhs => rw [hsplit]
  rw [BitVec.xor_append, BitVec.xor_zero, doubleHalfBlock, hmsb]
  rfl

theorem tripleHalfBlock_eq (l : BitVec 64) : tripleHalfBlock l = Cofb.triple l := by
  rw [tripleHalfBlock, doubleHalfBlock_eq, Cofb.triple]

theorem feedbackG_eq (y : BitVec 128) : feedbackG y = Cofb.feedback y := by
  rw [feedbackG, Cofb.feedback]
  congr 1
  apply BitVec.eq_of_getLsbD_eq
  intro i hi
  rw [BitVec.getLsbD_append, BitVec.getLsbD_rotateLeft, BitVec.getLsbD_extractLsb',
    BitVec.getLsbD_extractLsb', BitVec.getLsbD_extractLsb', BitVec.getLsbD_extractLsb']
  rcases Nat.eq_zero_or_pos i with rfl | hpos
  · simp
  · simp [show ¬ i < 1 by omega, show i - 1 < 63 by omega, show i < 64 by omega,
      show i - 1 < 64 by omega]

theorem xorTopbarBlock_eq (x : BitVec 128) (l : BitVec 64) :
    xorTopbarBlock x l = x ^^^ (l ++ 0#64) := by
  have hsplit : x = x.extractLsb' 64 64 ++ x.extractLsb' 0 64 := by
    rw [BitVec.extractLsb'_append_extractLsb'_eq_extractLsb' (by rfl)]
    exact BitVec.extractLsb'_eq_self.symm
  conv_rhs => rw [hsplit]
  rw [BitVec.xor_append, BitVec.xor_zero, xorTopbarBlock]

/-! ## Padding and output -/

/-- The one bit behind the `n` bytes of a short block. -/
theorem byteBE_closing {n i : ℕ} (hn : n < 16) (hi : i < 16) :
    byteBE 16 (1#128 <<< (127 - 8 * n)) i = if i = n then 0x80 else 0 := by
  have htable : ∀ n < 16, ∀ i < 16,
      byteBE 16 (1#128 <<< (127 - 8 * n)) i = if i = n then 0x80 else 0 := by
    decide
  exact htable n hn i hi

theorem padding_eq (x : BitVec 128) {n : BitVec 5} (hn : n.toNat ≤ 16) :
    padding x n = Cofb.pad (leftBytes 16 n.toNat x) := by
  have hlen : (leftBytes 16 n.toNat x).length = n.toNat := length_leftBytes _ _ _
  apply eq_of_byteBE 16 rfl
  intro i hi
  rw [padding, Cofb.pad, byteBE_toBlock _ hi, hlen]
  by_cases hlt : n < 16
  · have hlt' : n.toNat < 16 := BitVec.lt_def.1 hlt
    rw [if_pos hlt, if_pos hlt', byteBE, byteLE_or]
    change byteBE 16 _ i ||| byteBE 16 _ i = _
    rw [byteBE_keepLeft (by rfl) hn _ hi, byteBE_closing hlt' hi]
    rcases Nat.lt_trichotomy i n.toNat with h | h | h
    · rw [if_pos h, if_neg h.ne, List.getD_append _ _ _ _ (by rw [hlen]; exact h), getD_leftBytes,
        if_pos h]
      exact BitVec.or_zero
    · rw [if_neg (by omega), if_pos h, List.getD_append_right _ _ _ _ (by omega), hlen, h,
        Nat.sub_self]
      rfl
    · rw [if_neg (by omega), if_neg h.ne', List.getD_eq_default _ _ (by
        rw [List.length_append, hlen]
        exact h)]
      rfl
  · have heq : n = 16 := by
      apply BitVec.eq_of_toNat_eq
      have : ¬ n.toNat < 16 := fun h => hlt (BitVec.lt_def.2 h)
      show n.toNat = 16
      omega
    subst heq
    rw [if_neg hlt, if_pos rfl, if_neg (by decide)]
    exact (getD_leftBytes 16 16 x i 0).symm ▸ (if_pos hi).symm

/-- The first bytes of a sum, zeros after them. -/
theorem xorBlock_eq (c : Cofb.Chain) (x : BitVec 128) {n : BitVec 5} (hn : n.toNat ≤ 16) :
    xorBlock c.y x n = Cofb.toBlock (Cofb.output c (leftBytes 16 n.toNat x)) := by
  apply eq_of_byteBE 16 rfl
  intro i hi
  rw [xorBlock, if_pos (BitVec.le_def.2 hn), byteBE_keepLeft (by rfl) hn _ hi, byteBE_toBlock _ hi,
    Cofb.output, List.getD_eq_getElem?_getD, List.getElem?_zipWith]
  by_cases h : i < n.toNat
  · simp [leftBytes, h, hi, BitVec.xor_comm]
  · simp [leftBytes, h]

theorem xorBlock_full (x y : BitVec 128) : xorBlock x y 16 = x ^^^ y := by
  rw [xorBlock, if_pos (by decide)]
  apply eq_of_byteBE 16 rfl
  intro i hi
  rw [byteBE_keepLeft (by rfl) (by decide) _ hi]
  exact if_pos hi

/-- A string of at most a block is at the front of its block. -/
theorem leftBytes_toBlock {B : List Byte} (hB : B.length ≤ 16) :
    leftBytes 16 B.length (Cofb.toBlock B) = B := by
  apply List.ext_getElem (length_leftBytes _ _ _)
  intro i hi hiB
  rw [← List.getD_eq_getElem _ 0 hi, ← List.getD_eq_getElem _ 0 hiB, getD_leftBytes, if_pos hiB,
    byteBE_toBlock _ (by omega)]

/-! ## One block of the mode -/

theorem pho1_eq (y x : BitVec 128) {n : BitVec 5} (hn : n.toNat ≤ 16) :
    pho1 y x n = Cofb.feedback y ^^^ Cofb.pad (leftBytes 16 n.toNat x) := by
  rw [pho1, xorBlock_full, feedbackG_eq, padding_eq x hn]

theorem phoMsg_eq (decrypt : Bool) (c : Cofb.Chain) (x : BitVec 128) {n : BitVec 5}
    (hn : n.toNat ≤ 16) :
    phoMsg decrypt c.y x n =
      (Cofb.toBlock (Cofb.output c (leftBytes 16 n.toNat x)),
        Cofb.feedback c.y ^^^ Cofb.pad (Cofb.plain decrypt c (leftBytes 16 n.toNat x))) := by
  have hlen : (leftBytes 16 n.toNat x).length = n.toNat := length_leftBytes _ _ _
  unfold phoMsg
  cases decrypt
  · show pho c.y x n = _
    rw [pho, xorBlock_eq c x hn, pho1_eq _ _ hn, Cofb.plain]
    rfl
  · have hout := Cofb.length_output c (hlen.symm ▸ hn)
    have hback : leftBytes 16 n.toNat (Cofb.toBlock (Cofb.output c (leftBytes 16 n.toNat x))) =
        Cofb.output c (leftBytes 16 n.toNat x) := by
      have h := leftBytes_toBlock (B := Cofb.output c (leftBytes 16 n.toNat x)) (by omega)
      rwa [hout, hlen] at h
    show phoprime c.y x n = _
    rw [phoprime, xorBlock_eq c x hn, pho1_eq _ _ hn, hback, Cofb.plain]
    rfl

/-! ## The masks of the mode -/

theorem extractLow_eq_zero (x : BitVec 8) : x.extractLsb' 0 4 = 0 ↔ x.toNat % 16 = 0 := by
  rw [← BitVec.toNat_inj, BitVec.extractLsb'_toNat]
  rfl

/-- The last block of a string of `len` bytes. -/
theorem fullLast_iff {X : List Byte} {remaining : BitVec 8} {j : ℕ}
    (hrem : X.length = 16 * j + remaining.toNat) (hj : remaining = 0 → j = 0) :
    Cofb.fullLast X ↔ remaining ≠ 0 ∧ remaining.extractLsb' 0 4 = 0 := by
  have hzero : remaining = 0 ↔ remaining.toNat = 0 := by
    rw [← BitVec.toNat_inj]
    rfl
  rw [Cofb.fullLast, extractLow_eq_zero, ← List.length_pos_iff_ne_nil]
  constructor
  · rintro ⟨hpos, hmod⟩
    refine ⟨fun h => ?_, by omega⟩
    rw [hj h, hzero.1 h] at hrem
    omega
  · rintro ⟨hne, hmod⟩
    have hpos : remaining.toNat ≠ 0 := fun h => hne (hzero.2 h)
    exact ⟨by omega, by omega⟩

theorem partialOrEmptyAd_iff (remaining : BitVec 8) :
    partialOrEmptyAd remaining = true ↔ ¬ (remaining ≠ 0 ∧ remaining.extractLsb' 0 4 = 0) := by
  rw [partialOrEmptyAd, Bool.or_eq_true, beq_iff_eq, bne_iff_ne]
  tauto

theorem partialMsg_iff {remaining : BitVec 8} (hne : remaining ≠ 0) :
    partialMsg remaining = true ↔ ¬ (remaining ≠ 0 ∧ remaining.extractLsb' 0 4 = 0) := by
  rw [partialMsg, Bool.and_eq_true, bne_iff_ne, bne_iff_ne]
  tauto

theorem adMask_last {A X : List Byte} {remaining : BitVec 8} {j : ℕ} {emptyM : Bool}
    (hrem : A.length = 16 * j + remaining.toNat) (hj : remaining = 0 → j = 0)
    (hX : emptyM = true ↔ X = []) (hlast : lastNow remaining = true) (l : BitVec 64) :
    adMask remaining emptyM l = Cofb.adMask A X l := by
  have hpart := (partialOrEmptyAd_iff remaining).trans (not_congr (fullLast_iff hrem hj)).symm
  rw [adMask, hlast, Cofb.adMask, Cofb.lastMask]
  simp only [tripleHalfBlock_eq]
  by_cases hf : Cofb.fullLast A
  · have hp : partialOrEmptyAd remaining = false := by
      by_contra h
      exact hpart.1 (by simpa using h) hf
    rw [if_pos hf, hp]
    by_cases he : emptyM = true
    · rw [if_pos (hX.1 he), he]
      rfl
    · rw [if_neg (fun h => he (hX.2 h)), Bool.eq_false_of_not_eq_true he]
      rfl
  · rw [if_neg hf, hpart.2 hf]
    by_cases he : emptyM = true
    · rw [if_pos (hX.1 he), he]
      rfl
    · rw [if_neg (fun h => he (hX.2 h)), Bool.eq_false_of_not_eq_true he]
      rfl

theorem msgMask_last {X : List Byte} {remaining : BitVec 8} {j : ℕ}
    (hrem : X.length = 16 * j + remaining.toNat) (hne : remaining ≠ 0)
    (hlast : lastNow remaining = true) (l : BitVec 64) :
    msgMask remaining l = Cofb.lastMask X l := by
  have hpart := (partialMsg_iff hne).trans
    (not_congr (fullLast_iff hrem (fun h => absurd h hne))).symm
  rw [msgMask, hlast, Cofb.lastMask]
  simp only [tripleHalfBlock_eq]
  by_cases hf : Cofb.fullLast X
  · have hp : partialMsg remaining = false := by
      by_contra h
      exact hpart.1 (by simpa using h) hf
    rw [if_pos hf, hp]
    rfl
  · rw [if_neg hf, hpart.2 hf]
    rfl

theorem adMask_more {remaining : BitVec 8} (hlast : lastNow remaining = false) (emptyM : Bool)
    (l : BitVec 64) : adMask remaining emptyM l = Cofb.double l := by
  rw [adMask, hlast, ← doubleHalfBlock_eq]
  rfl

theorem msgMask_more {remaining : BitVec 8} (hlast : lastNow remaining = false) (l : BitVec 64) :
    msgMask remaining l = Cofb.double l := by
  rw [msgMask, hlast, ← doubleHalfBlock_eq]
  rfl

end PicoSoc.GiftCofb
