import PicoSoc.Library.Bytes

set_option autoImplicit false

/-! # Word memories with byte strobes

An array of 32-bit words as a hardware description gives it: a read past the end is undefined, a
write past the end is dropped, and each write carries one strobe for each of the four bytes. The
history of the stores says what a read must return; a memory meets it exactly inside its bounds. -/

namespace Bytes

abbrev Ram (size : ℕ) := Vector (BitVec 32) size

/-- The word `old` with the strobed bytes taken from `new`. -/
def mergeBytes (strb : BitVec 4) (old new : BitVec 32) : BitVec 32 :=
  ofBytesLE 4 fun b => if strb.getLsbD b then byteLE new b else byteLE old b

theorem byteLE_mergeBytes (strb : BitVec 4) (old new : BitVec 32) {b : ℕ} (hb : b < 4) :
    byteLE (mergeBytes strb old new) b =
      if strb.getLsbD b then byteLE new b else byteLE old b :=
  byteLE_ofBytesLE _ hb

/-- One store: an index, the strobes and the data. -/
structure Store where
  index : ℕ
  strb : BitVec 4
  data : BitVec 32

variable {size : ℕ}

def Ram.read (m : Ram size) (i : ℕ) : Option (BitVec 32) := m[i]?

def Ram.write (m : Ram size) (w : Store) : Ram size :=
  m.setIfInBounds w.index (mergeBytes w.strb (m[w.index]?.getD 0) w.data)

theorem Ram.read_of_lt (m : Ram size) {i : ℕ} (hi : i < size) : m.read i = some m[i] :=
  Vector.getElem?_eq_getElem hi

theorem Ram.read_of_ge (m : Ram size) {i : ℕ} (hi : size ≤ i) : m.read i = none :=
  Vector.getElem?_eq_none hi

/-- A store changes no other word. -/
theorem Ram.read_write_ne (m : Ram size) (w : Store) {i : ℕ} (h : w.index ≠ i) :
    (m.write w).read i = m.read i :=
  Vector.getElem?_setIfInBounds_ne h

theorem Ram.read_write_self (m : Ram size) (w : Store) :
    (m.write w).read w.index = (m.read w.index).map fun old => mergeBytes w.strb old w.data := by
  rcases Nat.lt_or_ge w.index size with h | h
  · rw [Ram.read_of_lt _ h, Ram.read_of_lt _ h, Option.map_some, Ram.write,
      Vector.getElem_setIfInBounds_self]
    simp [h]
  · rw [Ram.read_of_ge _ h, Ram.read_of_ge _ h, Option.map_none]

/-! ## What a history of stores leaves -/

/-- The last value stored to byte `b` of word `i`; the first store of the list is the oldest. -/
def lastByte : List Store → ℕ → ℕ → Option Byte
  | [], _, _ => none
  | w :: h, i, b =>
      (lastByte h i b).or (if w.index = i ∧ w.strb.getLsbD b then some (byteLE w.data b) else none)

/-- Some byte of word `i` has been stored. -/
def Stored (h : List Store) (i : ℕ) : Prop := ∃ b < 4, lastByte h i b ≠ none

def Ram.stores (m : Ram size) (h : List Store) : Ram size := h.foldl Ram.write m

@[simp] theorem Ram.stores_nil (m : Ram size) : m.stores [] = m := rfl

@[simp] theorem Ram.stores_singleton (m : Ram size) (w : Store) : m.stores [w] = m.write w := rfl

theorem Ram.stores_append (m : Ram size) (h h' : List Store) :
    m.stores (h ++ h') = (m.stores h).stores h' :=
  List.foldl_append

/-- Inside the bounds each byte is the last one stored, or the one that was there. -/
theorem Ram.byteLE_stores (m : Ram size) (h : List Store) {i b : ℕ} (hi : i < size) (hb : b < 4) :
    (m.stores h).read i = some (m.stores h)[i] ∧
      byteLE (m.stores h)[i] b = (lastByte h i b).getD (byteLE m[i] b) := by
  refine ⟨Ram.read_of_lt _ hi, ?_⟩
  induction h generalizing m with
  | nil => rfl
  | cons w h ih =>
      have hstep : m.stores (w :: h) = (m.write w).stores h := rfl
      simp only [hstep, ih, lastByte]
      cases hlast : lastByte h i b with
      | some v => rfl
      | none =>
          have hread : some (m.write w)[i] = (m.write w).read i := (Ram.read_of_lt _ hi).symm
          by_cases hw : w.index = i
          · subst hw
            rw [Ram.read_write_self, Ram.read_of_lt _ hi, Option.map_some] at hread
            rw [Option.some.inj hread, Option.getD_none, byteLE_mergeBytes _ _ _ hb]
            by_cases hs : w.strb.getLsbD b
            · simp [hs]
            · simp [hs]
          · rw [Ram.read_write_ne _ _ hw, Ram.read_of_lt _ hi] at hread
            rw [Option.some.inj hread]
            simp [hw]

end Bytes
