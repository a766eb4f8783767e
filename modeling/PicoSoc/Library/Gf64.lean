import Mathlib.FieldTheory.Finite.Extension
import Mathlib.RingTheory.AdjoinRoot
import PicoSoc.Library.Cofb

set_option autoImplicit false

/-! # The field with 2⁶⁴ elements

A word of 64 bits is a polynomial over GF(2) in `x`, taken modulo `x⁶⁴ + x⁴ + x³ + x + 1`. That the
modulus is irreducible is Rabin's test, computed on the words themselves. -/

namespace Gf64

open Polynomial Cofb

/-! ## Words as polynomials -/

/-- The polynomial whose coefficients are the bits of `v`, at `x`. -/
def value {R : Type} [CommRing R] (x : R) (v : BitVec 64) : R :=
  ∑ k ∈ Finset.range 64, if v.getLsbD k then x ^ k else 0

section Value

variable {R : Type} [CommRing R] {x : R} {v w : BitVec 64}

@[simp] theorem value_zero : value x 0#64 = 0 := by
  simp [value]

theorem value_one : value x 1 = 1 := by
  simp [value]

theorem value_two : value x 2 = x := by
  simp [value, Finset.sum_range_succ]

theorem value_reduction : value x 0x1B = x ^ 4 + x ^ 3 + x + 1 := by
  simp [value, Finset.sum_range_succ]
  ring

theorem map_value {S : Type} [CommRing S] (f : R →+* S) : f (value x v) = value (f x) v := by
  rw [value, value, map_sum]
  refine Finset.sum_congr rfl fun k _ => ?_
  rw [apply_ite f, map_pow, map_zero]

variable [CharP R 2]

theorem value_xor : value x (v ^^^ w) = value x v + value x w := by
  rw [value, value, value, ← Finset.sum_add_distrib]
  refine Finset.sum_congr rfl fun k _ => ?_
  rw [BitVec.getLsbD_xor]
  cases v.getLsbD k <;> cases w.getLsbD k <;> simp [CharTwo.add_self_eq_zero]

theorem value_three : value x 3 = x + 1 := by
  rw [show (3 : BitVec 64) = 2 ^^^ 1 from rfl, value_xor, value_two, value_one]

/-- The shifted word misses the highest bit. -/
theorem value_shiftLeft (x : R) (v : BitVec 64) :
    value x (v <<< 1) = x * value x v + if v.msb then x ^ 64 else 0 := by
  have hlow : value x (v <<< 1)
      = ∑ k ∈ Finset.range 63, x * (if v.getLsbD k then x ^ k else 0) := by
    rw [value, Finset.sum_range_succ']
    simp only [BitVec.getLsbD_shiftLeft]
    rw [if_neg (by simp), add_zero]
    refine Finset.sum_congr rfl fun k hk => ?_
    have hk : k + 1 < 64 := by
      have := Finset.mem_range.mp hk
      omega
    simp [hk, pow_succ']
  have hall : x * value x v = value x (v <<< 1) + if v.msb then x ^ 64 else 0 := by
    rw [hlow, value, Finset.sum_range_succ, mul_add, Finset.mul_sum, BitVec.msb_eq_getLsbD_last]
    congr 1
    split <;> simp_all [pow_succ']
  rw [hall, add_assoc, CharTwo.add_self_eq_zero, add_zero]

theorem value_double (hx : x ^ 64 = x ^ 4 + x ^ 3 + x + 1) :
    value x (double v) = x * value x v := by
  rw [double, value_xor, value_shiftLeft]
  cases v.msb
  · simp
  · rw [if_pos rfl, if_pos rfl, value_reduction, hx, add_assoc, CharTwo.add_self_eq_zero, add_zero]

theorem value_triple (hx : x ^ 64 = x ^ 4 + x ^ 3 + x + 1) :
    value x (triple v) = (x + 1) * value x v := by
  rw [triple, value_xor, value_double hx]
  ring

end Value

/-! ## Products of words -/

/-- The product with the lowest `n` bits of `b`. -/
def mulBits (a : BitVec 64) : ℕ → BitVec 64 → BitVec 64
  | 0, _ => 0
  | n + 1, b => (if b.getLsbD 0 then a else 0) ^^^ double (mulBits a n (b >>> 1))

def mul (a b : BitVec 64) : BitVec 64 := mulBits a 64 b

/-- `v` squared `n` times. -/
def square : ℕ → BitVec 64 → BitVec 64
  | 0, v => v
  | n + 1, v => square n (mul v v)

section Value

variable {R : Type} [CommRing R] [CharP R 2] {x : R}

theorem value_mulBits (hx : x ^ 64 = x ^ 4 + x ^ 3 + x + 1) (a b : BitVec 64) (n : ℕ) :
    value x (mulBits a n b)
      = value x a * ∑ k ∈ Finset.range n, if b.getLsbD k then x ^ k else 0 := by
  induction n generalizing b with
  | zero => simp [mulBits]
  | succ n ih =>
    have hlow : value x (if b.getLsbD 0 then a else 0)
        = value x a * if b.getLsbD 0 then x ^ 0 else 0 := by
      split <;> simp
    rw [mulBits, value_xor, value_double hx, ih, hlow, Finset.sum_range_succ', mul_add,
      Finset.mul_sum, Finset.mul_sum, Finset.mul_sum, add_comm]
    congr 1
    refine Finset.sum_congr rfl fun k _ => ?_
    rw [BitVec.getLsbD_ushiftRight, Nat.add_comm 1 k]
    split
    · ring
    · simp

theorem value_mul (hx : x ^ 64 = x ^ 4 + x ^ 3 + x + 1) (a b : BitVec 64) :
    value x (mul a b) = value x a * value x b :=
  value_mulBits hx a b 64

theorem value_square (hx : x ^ 64 = x ^ 4 + x ^ 3 + x + 1) (n : ℕ) (v : BitVec 64) :
    value x (square n v) = value x v ^ 2 ^ n := by
  induction n generalizing v with
  | zero => simp [square]
  | succ n ih => rw [square, ih, value_mul hx, ← pow_two, ← pow_mul, ← pow_succ']

end Value

/-! ## The modulus -/

noncomputable def modulus : (ZMod 2)[X] := X ^ 64 + X ^ 4 + X ^ 3 + X + 1

theorem natDegree_modulus : modulus.natDegree = 64 := by
  rw [modulus]
  compute_degree!

theorem modulus_ne_zero : modulus ≠ 0 := by
  intro h
  have := natDegree_modulus
  rw [h, natDegree_zero] at this
  omega

/-- At a root of the modulus the highest power reduces. -/
theorem pow_of_root {R : Type} [CommRing R] [Algebra (ZMod 2) R] [CharP R 2] {x : R}
    (h : aeval x modulus = 0) : x ^ 64 = x ^ 4 + x ^ 3 + x + 1 := by
  simp only [modulus, map_add, map_pow, map_one, aeval_X] at h
  rw [← CharTwo.add_eq_zero, ← h]
  ring

instance charP_adjoinRoot {f : (ZMod 2)[X]} [Fact (Irreducible f)] : CharP (AdjoinRoot f) 2 :=
  charP_of_injective_algebraMap (algebraMap (ZMod 2) (AdjoinRoot f)).injective 2

/-- Squared 64 times, `x` is `x` again. -/
theorem square_all : square 64 2 = 2 := by decide +kernel

/-- After half of the squarings it is not: the difference is invertible. -/
theorem mul_square_half : mul 0x53CAD161BF5A89C7 (square 32 2 ^^^ 2) = 1 := by decide +kernel

/-- An irreducible factor of the modulus has all of its degree. -/
theorem natDegree_factor {f : (ZMod 2)[X]} (hf : Irreducible f) (hdvd : f ∣ modulus) :
    f.natDegree = 64 := by
  have hfact : Fact (Irreducible f) := ⟨hf⟩
  have hx : AdjoinRoot.root f ^ 64 = AdjoinRoot.root f ^ 4 + AdjoinRoot.root f ^ 3
      + AdjoinRoot.root f + 1 :=
    pow_of_root (by rw [AdjoinRoot.aeval_eq, AdjoinRoot.mk_eq_zero]; exact hdvd)
  have hpow : ∀ n, f ∣ X ^ Nat.card (ZMod 2) ^ n - X ↔
      AdjoinRoot.root f ^ 2 ^ n = AdjoinRoot.root f := by
    intro n
    rw [← AdjoinRoot.mk_eq_zero, map_sub, map_pow, AdjoinRoot.mk_X, sub_eq_zero, Nat.card_zmod]
  have hall : AdjoinRoot.root f ^ 2 ^ 64 = AdjoinRoot.root f := by
    have := value_square hx 64 2
    rwa [square_all, value_two, eq_comm] at this
  have h64 : f.natDegree ∣ 2 ^ 6 := hf.natDegree_dvd_of_dvd_X_pow_card_pow_sub_X ((hpow 64).mpr hall)
  have h32 : ¬f.natDegree ∣ 2 ^ 5 := by
    intro h
    have hhalf := (hpow 32).mp (hf.natDegree_dvd_iff_dvd_X_pow_card_pow_sub_X.mp h)
    have hmul := congrArg (value (AdjoinRoot.root f)) mul_square_half
    rw [value_mul hx, value_xor, value_square hx, value_two, hhalf, CharTwo.add_self_eq_zero,
      mul_zero, value_one] at hmul
    exact zero_ne_one hmul
  obtain ⟨k, hk, heq⟩ := (Nat.dvd_prime_pow Nat.prime_two).mp h64
  rcases Nat.lt_or_ge k 6 with hlt | hge
  · exact absurd (heq ▸ pow_dvd_pow 2 (by omega)) h32
  · rw [heq, show k = 6 by omega]
    rfl

theorem irreducible_modulus : Irreducible modulus := by
  have hunit : ¬IsUnit modulus := by
    intro h
    have := natDegree_eq_zero_of_isUnit h
    rw [natDegree_modulus] at this
    omega
  obtain ⟨f, hf, g, hg⟩ := WfDvdMonoid.exists_irreducible_factor hunit modulus_ne_zero
  have hg0 : g ≠ 0 := fun h => modulus_ne_zero (by rw [hg, h, mul_zero])
  have hdeg := natDegree_mul hf.ne_zero hg0
  rw [← hg, natDegree_modulus, natDegree_factor hf ⟨g, hg⟩] at hdeg
  have hconst : IsUnit g := by
    rw [isUnit_iff_degree_eq_zero, degree_eq_natDegree hg0]
    exact_mod_cast (by omega : g.natDegree = 0)
  rw [hg]
  exact (associated_mul_unit_right f g hconst).irreducible_iff.mp hf

/-! ## The field -/

instance fact_irreducible_modulus : Fact (Irreducible modulus) := ⟨irreducible_modulus⟩

/-- GF(2⁶⁴). -/
abbrev Gf : Type := AdjoinRoot modulus

/-- The element a word stands for. -/
noncomputable def elt (v : BitVec 64) : Gf := value (AdjoinRoot.root modulus) v

theorem root_pow : AdjoinRoot.root modulus ^ 64 = AdjoinRoot.root modulus ^ 4
    + AdjoinRoot.root modulus ^ 3 + AdjoinRoot.root modulus + 1 :=
  pow_of_root (by rw [AdjoinRoot.aeval_eq, AdjoinRoot.mk_self])

theorem elt_two : elt 2 = AdjoinRoot.root modulus := value_two

theorem elt_three : elt 3 = AdjoinRoot.root modulus + 1 := value_three

theorem elt_double (v : BitVec 64) : elt (double v) = elt 2 * elt v := by
  rw [elt_two]
  exact value_double root_pow

theorem elt_triple (v : BitVec 64) : elt (triple v) = elt 3 * elt v := by
  rw [elt_three]
  exact value_triple root_pow

/-- Polynomials below the degree of the modulus stay apart. -/
theorem mk_inj {f g : (ZMod 2)[X]} (hf : f.natDegree < 64) (hg : g.natDegree < 64)
    (h : AdjoinRoot.mk modulus f = AdjoinRoot.mk modulus g) : f = g := by
  rw [AdjoinRoot.mk_eq_mk] at h
  refine sub_eq_zero.mp (eq_zero_of_dvd_of_natDegree_lt h ?_)
  rw [natDegree_modulus]
  exact (natDegree_sub_le f g).trans_lt (max_lt hf hg)

theorem elt_eq_mk (v : BitVec 64) : elt v = AdjoinRoot.mk modulus (value X v) := by
  rw [map_value, AdjoinRoot.mk_X]
  rfl

theorem coeff_value (v : BitVec 64) {k : ℕ} (hk : k < 64) :
    (value (X : (ZMod 2)[X]) v).coeff k = if v.getLsbD k then 1 else 0 := by
  rw [value, finsetSum_coeff, Finset.sum_eq_single k]
  · split <;> simp
  · intro j _ hj
    split
    · rw [coeff_X_pow, if_neg (Ne.symm hj)]
    · rfl
  · intro h
    exact absurd (Finset.mem_range.mpr hk) h

theorem natDegree_value (v : BitVec 64) : (value (X : (ZMod 2)[X]) v).natDegree < 64 := by
  refine Nat.lt_succ_of_le (natDegree_sum_le_of_forall_le _ _ fun k hk => ?_)
  have := Finset.mem_range.mp hk
  split
  · rw [natDegree_X_pow]
    omega
  · simp

theorem elt_injective : Function.Injective elt := by
  intro v w h
  rw [elt_eq_mk, elt_eq_mk] at h
  have hpoly := mk_inj (natDegree_value v) (natDegree_value w) h
  apply BitVec.eq_of_getLsbD_eq
  intro k hk
  have hcoeff := congrArg (coeff · k) hpoly
  simp only [coeff_value _ hk] at hcoeff
  cases hv : v.getLsbD k <;> cases hw : w.getLsbD k <;> simp_all

theorem elt_ne_zero {v : BitVec 64} (h : v ≠ 0) : elt v ≠ 0 := by
  rw [← show elt 0 = 0 from value_zero]
  exact fun heq => h (elt_injective heq)

/-! ## Products of powers of 2 and 3 -/

/-- `2 ^ i * 3 ^ j` -/
noncomputable def power (e : ℕ × ℕ) : Gf := elt 2 ^ e.1 * elt 3 ^ e.2

theorem power_ne_zero (e : ℕ × ℕ) : power e ≠ 0 :=
  mul_ne_zero (pow_ne_zero _ (elt_ne_zero (by decide))) (pow_ne_zero _ (elt_ne_zero (by decide)))

/-- Below degree 64 the exponents can be read off: the smallest degree and the largest. -/
theorem power_inj {e e' : ℕ × ℕ} (he : e.1 + e.2 < 64) (he' : e'.1 + e'.2 < 64)
    (h : power e = power e') : e = e' := by
  have hmk : ∀ e : ℕ × ℕ, power e = AdjoinRoot.mk modulus (X ^ e.1 * (X + C 1) ^ e.2) := by
    intro e
    rw [power, elt_two, elt_three, map_mul, map_pow, map_pow, map_add, AdjoinRoot.mk_X, C_1,
      map_one]
  have hne : ∀ n, (X + C (1 : ZMod 2)) ^ n ≠ 0 := fun n => pow_ne_zero n (X_add_C_ne_zero 1)
  have hdeg : ∀ e : ℕ × ℕ, (X ^ e.1 * (X + C (1 : ZMod 2)) ^ e.2).natDegree = e.1 + e.2 := by
    intro e
    rw [natDegree_mul (pow_ne_zero _ X_ne_zero) (hne e.2), natDegree_X_pow, natDegree_pow,
      natDegree_X_add_C, mul_one]
  have hlow : ∀ e : ℕ × ℕ, (X ^ e.1 * (X + C (1 : ZMod 2)) ^ e.2).natTrailingDegree = e.1 := by
    intro e
    rw [mul_comm, natTrailingDegree_mul_X_pow (hne e.2)]
    have hconst : ((X + C (1 : ZMod 2)) ^ e.2).coeff 0 ≠ 0 := by
      rw [coeff_zero_eq_eval_zero]
      simp
    rw [natTrailingDegree_eq_zero.mpr (.inr hconst), zero_add]
  rw [hmk, hmk] at h
  have heq := mk_inj (by rw [hdeg]; exact he) (by rw [hdeg]; exact he') h
  have h₁ := congrArg natTrailingDegree heq
  have h₂ := congrArg natDegree heq
  rw [hlow, hlow] at h₁
  rw [hdeg, hdeg] at h₂
  exact Prod.ext h₁ (by omega)

end Gf64
