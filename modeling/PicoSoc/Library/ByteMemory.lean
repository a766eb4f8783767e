import PicoSoc.Library.Bytes

set_option autoImplicit false

/-! # Byte memories that remember what was stored

A 32-bit address space of bytes together with the addresses stored to, the latest first. A region is
a base and a length; `(a - base).toNat` is the place of `a` in it, also across the end of the
address space. -/

namespace Bytes

/-- An address of the 32-bit space. -/
abbrev Addr := BitVec 32

/-- The bytes, and the addresses stored to. -/
structure Memory where
  byte : Addr → Byte
  stored : List Addr

/-- A store of one byte. -/
def Memory.store (m : Memory) (a : Addr) (b : Byte) : Memory where
  byte := fun x => if x = a then b else m.byte x
  stored := a :: m.stored

/-! ## Regions -/

/-- `a` lies in the region. -/
def InRegion (base : Addr) (len : ℕ) (a : Addr) : Prop := (a - base).toNat < len

theorem InRegion.mono {base : Addr} {n m : ℕ} {a : Addr} (h : InRegion base n a) (hnm : n ≤ m) :
    InRegion base m a :=
  Nat.lt_of_lt_of_le h hnm

theorem toNat_add_sub_self (base : Addr) {i : ℕ} (hi : i < 2 ^ 32) :
    (base + BitVec.ofNat 32 i - base).toNat = i := by
  rw [BitVec.add_comm, BitVec.add_sub_cancel, BitVec.toNat_ofNat, Nat.mod_eq_of_lt hi]

theorem eq_add_iff (a base : Addr) {n : ℕ} (hn : n < 2 ^ 32) :
    a = base + BitVec.ofNat 32 n ↔ (a - base).toNat = n := by
  constructor
  · rintro rfl
    exact toNat_add_sub_self base hn
  · intro h
    rw [← h, BitVec.ofNat_toNat, BitVec.setWidth_eq, BitVec.add_comm, BitVec.sub_add_cancel]

/-- A region that does not wrap around is an interval. -/
theorem inRegion_iff {base : Addr} {n : ℕ} (h : base.toNat + n ≤ 2 ^ 32) (a : Addr) :
    InRegion base n a ↔ base.toNat ≤ a.toNat ∧ a.toNat < base.toNat + n := by
  have ha := a.isLt
  rw [InRegion, BitVec.toNat_sub]
  omega

/-- The regions have no address in common. -/
def Apart (b₁ : Addr) (n₁ : ℕ) (b₂ : Addr) (n₂ : ℕ) : Prop :=
  ∀ a, InRegion b₁ n₁ a → ¬ InRegion b₂ n₂ a

/-! ## What an operation stores -/

/-- `m'` comes from `m` by stores to addresses with `P`; every other byte is as it was. -/
def Stores (P : Addr → Prop) (m m' : Memory) : Prop :=
  ∃ l, m'.stored = l ++ m.stored ∧ (∀ a ∈ l, P a) ∧ ∀ a, a ∉ l → m'.byte a = m.byte a

theorem Stores.refl (P : Addr → Prop) (m : Memory) : Stores P m m :=
  ⟨[], rfl, by simp, fun _ _ => rfl⟩

theorem Stores.trans {P : Addr → Prop} {m₁ m₂ m₃ : Memory} (h₁ : Stores P m₁ m₂)
    (h₂ : Stores P m₂ m₃) : Stores P m₁ m₃ := by
  obtain ⟨l₁, hl₁, hP₁, hb₁⟩ := h₁
  obtain ⟨l₂, hl₂, hP₂, hb₂⟩ := h₂
  refine ⟨l₂ ++ l₁, by rw [hl₂, hl₁, List.append_assoc], fun a ha => ?_, fun a ha => ?_⟩
  · rcases List.mem_append.1 ha with h | h
    · exact hP₂ a h
    · exact hP₁ a h
  · rw [List.mem_append, not_or] at ha
    rw [hb₂ a ha.1, hb₁ a ha.2]

theorem Stores.mono {P Q : Addr → Prop} {m m' : Memory} (h : Stores P m m') (hPQ : ∀ a, P a → Q a) :
    Stores Q m m' := by
  obtain ⟨l, hl, hP, hb⟩ := h
  exact ⟨l, hl, fun a ha => hPQ a (hP a ha), hb⟩

theorem Stores.store {P : Addr → Prop} {m m' : Memory} (h : Stores P m m') {a : Addr} (ha : P a)
    (b : Byte) : Stores P m (m'.store a b) := by
  obtain ⟨l, hl, hP, hb⟩ := h
  refine ⟨a :: l, by rw [Memory.store, hl, List.cons_append], fun x hx => ?_, fun x hx => ?_⟩
  · rcases List.mem_cons.1 hx with rfl | hx
    · exact ha
    · exact hP x hx
  · rw [List.mem_cons, not_or] at hx
    exact (if_neg hx.1).trans (hb x hx.2)

/-! ## Filling and copying -/

/-- `for (i = 0; i < n; i++) dst[i] = f(i);` -/
def Memory.fill (m : Memory) (dst : Addr) (f : ℕ → Byte) : ℕ → Memory
  | 0 => m
  | n + 1 => (m.fill dst f n).store (dst + BitVec.ofNat 32 n) (f n)

/-- `while (n--) *d++ = *s++;` -/
def Memory.copy (m : Memory) (dst src : Addr) : ℕ → Memory
  | 0 => m
  | n + 1 =>
      (m.copy dst src n).store (dst + BitVec.ofNat 32 n)
        ((m.copy dst src n).byte (src + BitVec.ofNat 32 n))

theorem Memory.byte_fill (m : Memory) (dst : Addr) (f : ℕ → Byte) {n : ℕ} (hn : n ≤ 2 ^ 32)
    (a : Addr) :
    (m.fill dst f n).byte a = if (a - dst).toNat < n then f (a - dst).toNat else m.byte a := by
  induction n with
  | zero => simp [Memory.fill]
  | succ n ih =>
      simp only [Memory.fill, Memory.store, eq_add_iff a dst (show n < 2 ^ 32 by omega),
        ih (by omega)]
      by_cases h : (a - dst).toNat = n
      · rw [if_pos h, if_pos (by omega), h]
      · rw [if_neg h]
        by_cases h' : (a - dst).toNat < n
        · rw [if_pos h', if_pos (by omega)]
        · rw [if_neg h', if_neg (by omega)]

theorem Memory.byte_fill_in (m : Memory) (dst : Addr) (f : ℕ → Byte) {n i : ℕ} (hn : n ≤ 2 ^ 32)
    (hi : i < n) : (m.fill dst f n).byte (dst + BitVec.ofNat 32 i) = f i := by
  rw [Memory.byte_fill m dst f hn, toNat_add_sub_self dst (by omega), if_pos hi]

theorem Memory.byte_fill_out (m : Memory) {dst : Addr} (f : ℕ → Byte) {n : ℕ} (hn : n ≤ 2 ^ 32)
    {a : Addr} (ha : ¬ InRegion dst n a) : (m.fill dst f n).byte a = m.byte a := by
  rw [Memory.byte_fill m dst f hn]
  exact if_neg ha

theorem Memory.stores_fill (m : Memory) (dst : Addr) (f : ℕ → Byte) {n : ℕ} (hn : n ≤ 2 ^ 32) :
    Stores (InRegion dst n) m (m.fill dst f n) := by
  induction n with
  | zero => exact Stores.refl _ m
  | succ n ih =>
      have hin : InRegion dst (n + 1) (dst + BitVec.ofNat 32 n) := by
        rw [InRegion, toNat_add_sub_self dst (by omega)]
        omega
      exact ((ih (by omega)).mono fun a ha => ha.mono (Nat.le_succ n)).store hin _

/-- A copy to another region is a fill with the bytes of the source. -/
theorem Memory.copy_eq_fill (m : Memory) {dst src : Addr} {n : ℕ} (hn : n ≤ 2 ^ 32)
    (hapart : Apart src n dst n) :
    m.copy dst src n = m.fill dst (fun i => m.byte (src + BitVec.ofNat 32 i)) n := by
  induction n with
  | zero => rfl
  | succ n ih =>
      have hsub : Apart src n dst n := fun a hsrc hdst =>
        hapart a (hsrc.mono (Nat.le_succ n)) (hdst.mono (Nat.le_succ n))
      have hin : InRegion src (n + 1) (src + BitVec.ofNat 32 n) := by
        rw [InRegion, toNat_add_sub_self src (by omega)]
        omega
      have hout : ¬ (src + BitVec.ofNat 32 n - dst).toNat < n := fun h =>
        hapart _ hin (InRegion.mono h (Nat.le_succ n))
      rw [Memory.copy, ih (by omega) hsub, Memory.fill, Memory.byte_fill _ _ _ (by omega),
        if_neg hout]

end Bytes
