import PicoSoc.Cpu.Commit

set_option autoImplicit false

/-! # Byte lanes

An aligned load takes its bytes from the word on the bus, and an aligned store strobes them there. -/

namespace PicoSoc.Picorv32

open Bytes
open Rv32i (LoadOp StoreOp Aligned)

/-! ## The word of an address -/

theorem wordAddr_toNat (a : BitVec 32) : (wordAddr a).toNat = a.toNat - a.toNat % 4 := by
  rw [wordAddr, BitVec.toNat_append]
  simp
  omega

/-- An address is its word and a byte of it. -/
theorem wordAddr_add (a : BitVec 32) : wordAddr a + BitVec.ofNat 32 (a.toNat % 4) = a := by
  apply BitVec.eq_of_toNat_eq
  have := a.isLt
  rw [BitVec.toNat_add, wordAddr_toNat, BitVec.toNat_ofNat]
  omega

theorem extract_low (a : BitVec 32) : (a.extractLsb' 0 2).toNat = a.toNat % 4 := by
  simp

theorem bit_one (a : BitVec 32) : a.getLsbD 1 = decide (2 ≤ a.toNat % 4) := by
  rw [← BitVec.testBit_toNat, Nat.testBit_succ, Nat.testBit_zero]
  congr 1
  apply propext
  omega

theorem bit_zero (a : BitVec 32) : a.getLsbD 0 = decide (a.toNat % 2 = 1) := by
  rw [← BitVec.testBit_toNat, Nat.testBit_zero]

/-! ## Loads -/

/-- `mem_wordsize` of an access. -/
def sizeCode : ℕ → BitVec 2
  | 1 => 2
  | 2 => 1
  | _ => 0

theorem extract_byte (m : Rv32i.Memory) (a : BitVec 32) :
    (m.word (wordAddr a)).extractLsb' (8 * (a.toNat % 4)) 8 = m a := by
  have h := m.byteLE_word (wordAddr a) (k := a.toNat % 4) (by omega)
  rwa [wordAddr_add] at h

theorem extract_half (m : Rv32i.Memory) {a : BitVec 32} (ha : Aligned 2 a) :
    (m.word (wordAddr a)).extractLsb' (8 * (a.toNat % 4)) 16 = m.half a := by
  have ha : a.toNat % 2 = 0 := ha
  refine eq_of_byteLE 2 rfl fun k hk => ?_
  rw [byteLE_extractLsb' _ _ _ (by omega), m.byteLE_half a hk, m.byteLE_word _ (by omega)]
  congr 1
  apply BitVec.eq_of_toNat_eq
  have := a.isLt
  rw [BitVec.toNat_add, BitVec.toNat_add, wordAddr_toNat, BitVec.toNat_ofNat, BitVec.toNat_ofNat]
  omega

theorem wordAddr_of_aligned {a : BitVec 32} (ha : Aligned 4 a) : wordAddr a = a := by
  have ha : a.toNat % 4 = 0 := ha
  apply BitVec.eq_of_toNat_eq
  rw [wordAddr_toNat, ha, Nat.sub_zero]

theorem half_word (m : Rv32i.Memory) {a : BitVec 32} (ha : Aligned 2 a) :
    (if a.getLsbD 1 then ((m.word (wordAddr a)).extractLsb' 16 16).setWidth 32
      else ((m.word (wordAddr a)).extractLsb' 0 16).setWidth 32) = (m.half a).setWidth 32 := by
  have h := extract_half m ha
  have ha : a.toNat % 2 = 0 := ha
  rw [bit_one]
  rcases (by omega : a.toNat % 4 = 0 ∨ a.toNat % 4 = 2) with hlow | hlow
  · rw [hlow] at h ⊢
    rw [if_neg (by decide), h]
  · rw [hlow] at h ⊢
    rw [if_pos (by decide), h]

/-- What an aligned load puts in the register. -/
theorem memRdataWord_load {s : State} {i : Inputs} {m : Rv32i.Memory} {a : BitVec 32} {k : LoadOp}
    (hsize : s.main.memWordsize = sizeCode k.size) (haddr : s.main.regOp1 = a)
    (hdata : i.memRdata = m.word (wordAddr a)) (ha : Aligned k.size a) (v : BitVec 32) :
    (if k == .lbu || k == .lhu || k == .lw then memRdataWord s i
      else if k == .lh then ((memRdataWord s i).extractLsb' 0 16).signExtend 32
      else if k == .lb then ((memRdataWord s i).extractLsb' 0 8).signExtend 32
      else v) = k.value m a := by
  have hlow : ∀ {n : ℕ} (b : BitVec n), n ≤ 32 → (b.setWidth 32).extractLsb' 0 n = b := by
    intro n b hn
    apply BitVec.eq_of_getLsbD_eq
    intro j hj
    simp [hj, show j < 32 by omega]
  have hword : memRdataWord s i = match sizeCode k.size with
      | 0 => m.word (wordAddr a)
      | 1 => (m.half a).setWidth 32
      | _ => (m a).setWidth 32 := by
    cases k <;> rw [memRdataWord, hsize, haddr, hdata]
    case lw => rfl
    case lh => exact half_word m ha
    case lhu => exact half_word m ha
    all_goals
      show ((m.word (wordAddr a)).extractLsb' (8 * (a.extractLsb' 0 2).toNat) 8).setWidth 32 = _
      rw [extract_low, extract_byte]
      rfl
  rw [hword]
  cases k with
  | lw =>
      show m.word (wordAddr a) = m.word a
      rw [wordAddr_of_aligned ha]
  | lhu => rfl
  | lbu => rfl
  | lh =>
      show (((m.half a).setWidth 32).extractLsb' 0 16).signExtend 32 = (m.half a).signExtend 32
      rw [hlow _ (by decide)]
  | lb =>
      show (((m a).setWidth 32).extractLsb' 0 8).signExtend 32 = (m a).signExtend 32
      rw [hlow _ (by decide)]

/-! ## Stores -/

/-- The lanes repeat the low bytes of the register. -/
theorem storeData_byte (k : StoreOp) (v : BitVec 32) {d : ℕ} (hd : d < 4) :
    byteLE (storeData v k) d = byteLE v (d % k.size) := by
  cases k with
  | sw => rw [storeData, StoreOp.size, Nat.mod_eq_of_lt hd]
  | sh =>
      rw [storeData, StoreOp.size, byteLE_append _ _ _ (k := 2) rfl]
      interval_cases d <;> simp [byteLE]
  | sb =>
      rw [storeData, StoreOp.size, byteLE_append _ _ _ (k := 1) rfl, byteLE_append _ _ _ (k := 1) rfl,
        byteLE_append _ _ _ (k := 1) rfl]
      interval_cases d <;> simp [byteLE]

/-- The strobes are those of the bytes. -/
theorem storeStrb_bit {k : StoreOp} {a : BitVec 32} (ha : Aligned k.size a) {d : ℕ} (hd : d < 4) :
    (storeStrb a k).getLsbD d = decide (a.toNat % 4 ≤ d ∧ d < a.toNat % 4 + k.size) := by
  have ha : a.toNat % k.size = 0 := ha
  cases k with
  | sw =>
      have ha : a.toNat % 4 = 0 := ha
      rw [storeStrb, ha, StoreOp.size]
      interval_cases d <;> decide
  | sh =>
      have ha : a.toNat % 2 = 0 := ha
      rw [storeStrb, bit_one, StoreOp.size]
      rcases (by omega : a.toNat % 4 = 0 ∨ a.toNat % 4 = 2) with hlow | hlow <;> rw [hlow] <;>
        interval_cases d <;> decide
  | sb =>
      rw [storeStrb, extract_low, StoreOp.size]
      have hlt : a.toNat % 4 < 4 := Nat.mod_lt _ (by decide)
      interval_cases a.toNat % 4 <;> interval_cases d <;> decide

theorem storeStrb_ne (a : BitVec 32) (k : StoreOp) : storeStrb a k ≠ 0 := by
  cases k with
  | sw =>
      rw [storeStrb]
      decide
  | sh =>
      rw [storeStrb]
      cases a.getLsbD 1 <;> decide
  | sb =>
      rw [storeStrb, extract_low]
      have hlt : a.toNat % 4 < 4 := Nat.mod_lt _ (by decide)
      interval_cases a.toNat % 4 <;> decide

/-- An aligned store on the bus is the store of the instruction. -/
theorem busStore_store (m : Rv32i.Memory) (v : BitVec 32) {k : StoreOp} {a : BitVec 32}
    (ha : Aligned k.size a) :
    busStore m (wordAddr a) (storeData v k) (storeStrb a k) = m.store a k.size v := by
  funext x
  have hsize : k.size = 1 ∨ k.size = 2 ∨ k.size = 4 := by
    cases k <;> simp [StoreOp.size]
  have hmod : a.toNat % k.size = 0 := ha
  have hx := x.isLt
  have hlt := a.isLt
  have hword : (x - wordAddr a).toNat = (x.toNat + 2 ^ 32 - (a.toNat - a.toNat % 4)) % 2 ^ 32 := by
    rw [BitVec.toNat_sub, wordAddr_toNat]
    congr 1
    omega
  have haddr : (x - a).toNat = (x.toNat + 2 ^ 32 - a.toNat) % 2 ^ 32 := by
    rw [BitVec.toNat_sub]
    congr 1
    omega
  rw [busStore, Rv32i.Memory.store]
  by_cases hin : (x - a).toNat < k.size
  · have hd : (x - wordAddr a).toNat = a.toNat % 4 + (x - a).toNat := by
      rcases hsize with h | h | h <;> rw [h] at hmod hin <;> omega
    have hfour : a.toNat % 4 + (x - a).toNat < 4 := by
      rcases hsize with h | h | h <;> rw [h] at hmod hin <;> omega
    have hmod4 : (a.toNat % 4 + (x - a).toNat) % k.size = (x - a).toNat := by
      rcases hsize with h | h | h <;> rw [h] at hmod hin ⊢ <;> omega
    have hbyte := storeData_byte k v hfour
    rw [hmod4] at hbyte
    rw [hd, storeStrb_bit ha hfour, if_pos ⟨hfour, decide_eq_true ⟨by omega, by omega⟩⟩, if_pos hin]
    exact hbyte
  · rw [if_neg hin, if_neg]
    rintro ⟨hfour, hbit⟩
    rw [storeStrb_bit ha hfour] at hbit
    have hbit := of_decide_eq_true hbit
    omega

end PicoSoc.Picorv32
