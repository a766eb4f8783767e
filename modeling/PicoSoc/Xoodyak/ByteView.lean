import PicoSoc.Xoodyak.Operation
import PicoSoc.Xoodyak.Permutation

set_option autoImplicit false

/-! # The word operations of the core on bytes

The core works on little-endian words of a register, the specification on the bytes of the state.
Each `stateBytes_…` says what a word operation does to byte `i`. -/

namespace PicoSoc.Xoodyak

open Bytes

/-! ## Bytes of a word -/

theorem byteLE_byteSwap (w : BitVec 32) {b : ℕ} (hb : b < 4) :
    byteLE (byteSwap w) b = byteLE w (3 - b) := by
  have hself : ∀ i, byteLE (w.extractLsb' (8 * i) 8) 0 = byteLE w i := fun i => by
    rw [byteLE_extractLsb' w i 8 (by decide), Nat.add_zero]
  rw [byteSwap]
  interval_cases b
  · rw [byteLE_append_lo _ _ (by decide), hself 3]
  · rw [byteLE_append_hi _ _ (k := 1) rfl (by decide), byteLE_append_lo _ _ (by decide), hself 2]
  · rw [byteLE_append_hi _ _ (k := 1) rfl (by decide), byteLE_append_hi _ _ (k := 1) rfl (by decide),
      byteLE_append_lo _ _ (by decide), hself 1]
  · rw [byteLE_append_hi _ _ (k := 1) rfl (by decide), byteLE_append_hi _ _ (k := 1) rfl (by decide),
      byteLE_append_hi _ _ (k := 1) rfl (by decide), hself 0]

theorem byteLE_inputWord (data : BitVec 128) {j b : ℕ} (hj : j < 4) (hb : b < 4) :
    byteLE (inputWord data j) b = byteBE 16 data (4 * j + b) := by
  have hword : ∀ k, k < 4 → byteLE (byteSwap (data.extractLsb' (8 * (4 * k)) 32)) b =
      byteLE data (4 * k + (3 - b)) := by
    intro k _
    rw [byteLE_byteSwap _ hb, byteLE_extractLsb' _ _ _ (by omega)]
  have hindex : 15 - (4 * j + b) = 4 * (3 - j) + (3 - b) := by omega
  rw [byteBE, hindex, ← hword (3 - j) (by omega)]
  interval_cases j <;> rfl

/-- Replacing word `k` of an output register changes its four bytes only. -/
theorem byteBE_putWord (data : BitVec 128) (word : BitVec 32) {k : ℕ} (hk : k < 4) {i : ℕ}
    (hi : i < 16) :
    byteBE 16 (putWord data (BitVec.ofNat 2 k) word) i =
      if i / 4 = k then byteLE word (3 - i % 4) else byteBE 16 data i := by
  have hslice : ∀ a len : ℕ, ∀ i, 8 * i + 8 ≤ len →
      byteLE (data.extractLsb' (8 * a) len) i = byteLE data (a + i) := fun a len i h =>
    byteLE_extractLsb' data a len h
  simp only [byteBE]
  interval_cases k
  · have hdef : putWord data (BitVec.ofNat 2 0) word = word ++ data.extractLsb' (8 * 0) 96 := rfl
    rw [hdef, byteLE_append _ _ _ (k := 12) rfl]
    split
    · rw [if_neg (by omega), hslice _ _ _ (by omega), Nat.zero_add]
    · rw [if_pos (by omega)]
      congr 1
      omega
  · have hdef : putWord data (BitVec.ofNat 2 1) word =
        data.extractLsb' (8 * 12) 32 ++ word ++ data.extractLsb' (8 * 0) 64 := rfl
    rw [hdef, byteLE_append _ _ _ (k := 8) rfl, byteLE_append _ _ _ (k := 4) rfl]
    split
    · rw [if_neg (by omega), hslice _ _ _ (by omega), Nat.zero_add]
    · split
      · rw [if_pos (by omega)]
        congr 1
        omega
      · rw [if_neg (by omega), hslice _ _ _ (by omega)]
        congr 1
        omega
  · have hdef : putWord data (BitVec.ofNat 2 2) word =
        data.extractLsb' (8 * 8) 64 ++ word ++ data.extractLsb' (8 * 0) 32 := rfl
    rw [hdef, byteLE_append _ _ _ (k := 4) rfl, byteLE_append _ _ _ (k := 4) rfl]
    split
    · rw [if_neg (by omega), hslice _ _ _ (by omega), Nat.zero_add]
    · split
      · rw [if_pos (by omega)]
        congr 1
        omega
      · rw [if_neg (by omega), hslice _ _ _ (by omega)]
        congr 1
        omega
  · have hdef : putWord data (BitVec.ofNat 2 3) word =
        data.extractLsb' (8 * 4) 96 ++ word := rfl
    rw [hdef, byteLE_append _ _ _ (k := 4) rfl]
    split
    · rw [if_pos (by omega)]
      congr 1
      omega
    · rw [if_neg (by omega), hslice _ _ _ (by omega)]
      congr 1
      omega

/-- The bytes collected from four or fewer words. -/
theorem byteBE_collectWords (w : ℕ → BitVec 32) (old : BitVec 128) {j : ℕ} (hj : j ≤ 4) {i : ℕ}
    (hi : i < 4 * j) :
    byteBE 16 (collectWords (fun k => byteSwap (w k)) j old) i = byteLE (w (i / 4)) (i % 4) := by
  induction j with
  | zero => omega
  | succ j ih =>
      rw [collectWords, byteBE_putWord _ _ (by omega) (by omega)]
      split
      · next h =>
          rw [byteLE_byteSwap _ (by omega), h]
          congr 1
          omega
      · next h => exact ih (by omega) (by omega)

/-! ## Bytes of the state -/

theorem stateBytes_loadWords (data : BitVec 128) {b m : ℕ} (hm : m ≤ 4) (r : XState) (i : Fin 48) :
    stateBytes (loadWords (inputWord data) b m r) i =
      if 4 * b ≤ i.val ∧ i.val < 4 * (b + m) then
        stateBytes r i ^^^ byteBE 16 data (i.val - 4 * b)
      else stateBytes r i := by
  rw [stateBytes_apply, stateBytes_apply, getElem_loadWords]
  by_cases hin : 4 * b ≤ i.val ∧ i.val < 4 * (b + m)
  · rw [if_pos hin, if_pos (by omega), byteLE_xor, byteLE_inputWord _ (by omega) (by omega)]
    congr 2
    omega
  · rw [if_neg hin, if_neg (by omega)]

theorem getElem_padIn (k : BitVec 4) (word domain : BitVec 32) (colour : Bool) (r : XState) {j : ℕ}
    (hj : j < 12) :
    (stateWithXor (padIn k word domain colour) r)[j] =
      r[j] ^^^ (if j = k.toNat then word else 0) ^^^
        (if j = 11 ∧ colour = true then domain else 0) := by
  cases colour
  · simp [stateWithXor, padIn, eq_comm]
  · simp [stateWithXor, padIn, eq_comm]

theorem stateBytes_padIn (k : BitVec 4) (word domain : BitVec 32) (colour : Bool) (r : XState)
    (i : Fin 48) :
    stateBytes (stateWithXor (padIn k word domain colour) r) i =
      stateBytes r i ^^^ (if i.val / 4 = k.toNat then byteLE word (i.val % 4) else 0) ^^^
        (if i.val / 4 = 11 ∧ colour = true then byteLE domain (i.val % 4) else 0) := by
  have hzero : byteLE (0 : BitVec 32) (i.val % 4) = 0 := byteLE_zero 32 _
  rw [stateBytes_apply, stateBytes_apply, getElem_padIn, byteLE_xor, byteLE_xor,
    apply_ite (byteLE · (i.val % 4)), apply_ite (byteLE · (i.val % 4)), hzero]

/-- The bytes of a left-aligned 128-bit port after the first `m` are zero. -/
def UnusedZero (m : ℕ) (data : BitVec 128) : Prop := ∀ i, m ≤ i → i < 16 → byteBE 16 data i = 0

/-- A data length the core is meant for. -/
def InBlock (len : BitVec 5) : Prop := len.toNat ≤ 16

instance (len : BitVec 5) : Decidable (InBlock len) :=
  inferInstanceAs (Decidable (len.toNat ≤ 16))

theorem words_eq {len : BitVec 5} (h : InBlock len) : words len = (len.toNat + 3) / 4 := by
  have : len.toNat ≤ 16 := h
  unfold words
  omega

theorem byteLE_padWord {len : BitVec 5} {b : ℕ} (hb : b < 4) :
    byteLE (padWord len) b = if b = len.toNat % 4 then 1 else 0 := by
  have htable : ∀ len : BitVec 5, ∀ b < 4,
      byteLE (padWord len) b = if b = len.toNat % 4 then 1 else 0 := by
    decide +kernel
  exact htable len b hb

/-- The colour of a `Down` sits in the last byte of the last word. -/
def colourWord (c : Byte) : BitVec 32 := c ++ 0#24

theorem byteLE_colourWord (c : Byte) {b : ℕ} (hb : b < 4) :
    byteLE (colourWord c) b = if b = 3 then c else 0 := by
  rw [colourWord, byteLE_append _ _ _ (k := 3) rfl]
  split
  · rw [byteLE_zero, if_neg (by omega)]
  · rw [if_pos (by omega), show b - 3 = 0 by omega]
    simp [byteLE]

/-- The words of the data add its bytes. -/
theorem stateBytes_loadInput {data : BitVec 128} {len : BitVec 5} (hlen : InBlock len)
    (hzero : UnusedZero len.toNat data) (r : XState) :
    stateBytes (loadWords (inputWord data) 0 (words len) r) =
      Cyclist.addBytes (leftBytes 16 len.toNat data) (stateBytes r) := by
  have hle : len.toNat ≤ 16 := hlen
  funext i
  rw [stateBytes_loadWords _ (words_le len), Cyclist.addBytes, getD_leftBytes, words_eq hlen]
  by_cases h : i.val < len.toNat
  · rw [if_pos h, if_pos (by omega)]
    rfl
  · rw [if_neg h]
    split
    · rw [Nat.mul_zero, Nat.sub_zero, hzero i.val (by omega) (by omega)]
    · simp

/-- Padding word and domain word complete the bytes of a string to a `Down`. -/
theorem stateBytes_padAfter {len : BitVec 5} (hlen : InBlock len) (c : Byte) {r : XState}
    {X : List Byte} {s : Cyclist.State 48} (hX : X.length = len.toNat)
    (hr : stateBytes r = Cyclist.addBytes X s) :
    stateBytes (stateWithXor (padAfter len (colourWord c)) r) =
      Cyclist.addLast c (Cyclist.addBytes (X ++ [1]) s) := by
  have hle : len.toNat ≤ 16 := hlen
  funext i
  have hk : ((len >>> 2).setWidth 4 : BitVec 4).toNat = len.toNat / 4 := by
    have htable : ∀ len : BitVec 5, ((len >>> 2).setWidth 4 : BitVec 4).toNat = len.toNat / 4 := by
      decide
    exact htable len
  have hword : (if i.val / 4 = ((len >>> 2).setWidth 4 : BitVec 4).toNat then
      byteLE (padWord len) (i.val % 4) else 0) = if i.val = len.toNat then 1 else 0 := by
    rw [hk, byteLE_padWord (by omega)]
    by_cases h : i.val = len.toNat
    · rw [if_pos h, if_pos (by omega), if_pos (by omega)]
    · rw [if_neg h]
      by_cases h4 : i.val / 4 = len.toNat / 4
      · rw [if_pos h4, if_neg (by omega)]
      · rw [if_neg h4]
  have hcolour : (if i.val / 4 = 11 ∧ true = true then byteLE (colourWord c) (i.val % 4) else 0) =
      if i.val + 1 = 48 then c else 0 := by
    rw [byteLE_colourWord _ (by omega)]
    by_cases h : i.val + 1 = 48
    · have h11 : i.val / 4 = 11 ∧ true = true := ⟨by omega, rfl⟩
      rw [if_pos h, if_pos h11, if_pos (by omega)]
    · rw [if_neg h]
      by_cases h4 : i.val / 4 = 11 ∧ true = true
      · rw [if_pos h4, if_neg (by omega)]
      · rw [if_neg h4]
  rw [padAfter, stateBytes_padIn, hword, hcolour, hr, Cyclist.addLast, Cyclist.addBytes,
    Cyclist.addBytes, Cyclist.getD_padded, hX]
  by_cases h : i.val + 1 = 48
  · rw [if_pos h, if_pos h, ← BitVec.xor_assoc]
  · rw [if_neg h, if_neg h, ← BitVec.xor_assoc]
    exact BitVec.xor_zero

/-- The words of the data, the padding word and the domain word together are a `Down`. -/
theorem stateBytes_absorb {data : BitVec 128} {len : BitVec 5} (hlen : InBlock len)
    (hzero : UnusedZero len.toNat data) (c : Byte) (r : XState) :
    stateBytes (stateWithXor (padAfter len (colourWord c))
      (loadWords (inputWord data) 0 (words len) r)) =
    Cyclist.addLast c (Cyclist.addBytes (leftBytes 16 len.toNat data ++ [1]) (stateBytes r)) :=
  stateBytes_padAfter hlen c (length_leftBytes _ _ _) (stateBytes_loadInput hlen hzero r)

end PicoSoc.Xoodyak
