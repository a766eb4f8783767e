import Mathlib.Tactic

set_option autoImplicit false

/-! # Arithmetic in steps

Two ways in which circuits compute a quotient and a product: restoring division, which finds one bit
of the quotient in a step, and an accumulator whose carries wait for the next step. -/

namespace Arithmetic

/-! ## Restoring division -/

/-- `k` bits of the quotient `q` of `n` by `d` have been found, `r` is left of the dividend. -/
structure Divided (w n d k q r : ℕ) : Prop where
  sum : n = q * d + r
  rest : 0 < d → r < d * 2 ^ (w - k)
  low : 2 ^ (w - k) ∣ q
  zero : d = 0 → q + 2 ^ (w - k) = 2 ^ w

theorem Divided.start {w n : ℕ} (d : ℕ) (hn : n < 2 ^ w) : Divided w n d 0 0 n where
  sum := by omega
  rest := fun hd => hn.trans_le (Nat.le_mul_of_pos_left _ hd)
  low := dvd_zero _
  zero := fun _ => Nat.zero_add _

section

variable {w n d k q r : ℕ}

theorem two_pow_pred (hk : k < w) : 2 ^ (w - k) = 2 * 2 ^ (w - (k + 1)) := by
  rw [← Nat.pow_succ', show (w - (k + 1)).succ = w - k by omega]

/-- The shifted divisor fits: the bit is 1. -/
theorem Divided.subtract (h : Divided w n d k q r) (hk : k < w)
    (hle : d * 2 ^ (w - (k + 1)) ≤ r) :
    Divided w n d (k + 1) (q + 2 ^ (w - (k + 1))) (r - d * 2 ^ (w - (k + 1))) := by
  obtain ⟨hsum, hrest, hlow, hzero⟩ := h
  rw [two_pow_pred hk] at hrest hlow hzero
  refine ⟨?_, fun hd => ?_, (Dvd.intro_left 2 rfl).trans hlow |>.add dvd_rfl, fun hd => ?_⟩
  · rw [add_mul, Nat.mul_comm (2 ^ _) d]
    omega
  · have := hrest hd
    rw [Nat.mul_left_comm] at this
    omega
  · have := hzero hd
    omega

/-- It does not: the bit is 0. -/
theorem Divided.skip (h : Divided w n d k q r) (hk : k < w) (hlt : r < d * 2 ^ (w - (k + 1))) :
    Divided w n d (k + 1) q r := by
  obtain ⟨hsum, -, hlow, -⟩ := h
  rw [two_pow_pred hk] at hlow
  refine ⟨hsum, fun _ => hlt, (Dvd.intro_left 2 rfl).trans hlow, fun hd => ?_⟩
  rw [hd, Nat.zero_mul] at hlt
  omega

theorem Divided.done (h : Divided w n d w q r) (hd : 0 < d) : q = n / d ∧ r = n % d := by
  obtain ⟨hsum, hrest, -, -⟩ := h
  have hlt := hrest hd
  rw [Nat.sub_self, Nat.pow_zero, Nat.mul_one] at hlt
  rw [hsum, Nat.mul_comm q d, Nat.mul_add_div hd, Nat.mul_add_mod, Nat.div_eq_of_lt hlt,
    Nat.mod_eq_of_lt hlt]
  exact ⟨rfl, rfl⟩

theorem Divided.done_zero (h : Divided w n 0 w q r) : q + 1 = 2 ^ w ∧ r = n := by
  obtain ⟨hsum, -, -, hzero⟩ := h
  have hq := hzero rfl
  rw [Nat.sub_self] at hq
  exact ⟨hq, by omega⟩

/-- The found bit goes into a bit of the quotient that is still 0. -/
theorem Divided.or_eq_add (h : Divided w n d k q r) (hk : k < w) :
    q ||| 2 ^ (w - (k + 1)) = q + 2 ^ (w - (k + 1)) := by
  obtain ⟨a, rfl⟩ := h.low
  have hlt : 2 ^ (w - (k + 1)) < 2 ^ (w - k) := Nat.pow_lt_pow_right (by omega) (by omega)
  exact (Nat.two_pow_add_eq_or_of_lt hlt a).symm

end

/-! ## Sums with waiting carries -/

/-- Three summands become a sum without carries and the carries, one place further up. -/
theorem carry_save (a b c : ℕ) :
    a + b + c = (a ^^^ b ^^^ c) + 2 * (a &&& b ||| a &&& c ||| b &&& c) := by
  obtain ⟨n, ha, hb, hc⟩ : ∃ n, a < 2 ^ n ∧ b < 2 ^ n ∧ c < 2 ^ n := by
    refine ⟨a + b + c, ?_, ?_, ?_⟩ <;>
      exact lt_of_le_of_lt (by omega) (Nat.lt_two_pow_self (n := a + b + c))
  induction n generalizing a b c with
  | zero =>
      obtain rfl : a = 0 := by omega
      obtain rfl : b = 0 := by omega
      obtain rfl : c = 0 := by omega
      rfl
  | succ n ih =>
      have hhalf := ih (a / 2) (b / 2) (c / 2) (by omega) (by omega) (by omega)
      have hsum := Nat.div_add_mod (a ^^^ b ^^^ c) 2
      have hcarry := Nat.div_add_mod (a &&& b ||| a &&& c ||| b &&& c) 2
      have hxor := fun a b : ℕ => Nat.xor_mod_two_pow (a := a) (b := b) (n := 1)
      have hand := fun a b : ℕ => Nat.and_mod_two_pow (a := a) (b := b) (n := 1)
      have hor := fun a b : ℕ => Nat.or_mod_two_pow (a := a) (b := b) (n := 1)
      rw [Nat.pow_one] at hxor hand hor
      rw [Nat.xor_div_two, Nat.xor_div_two, hxor, hxor] at hsum
      rw [Nat.or_div_two, Nat.or_div_two, Nat.and_div_two, Nat.and_div_two, Nat.and_div_two, hor, hor,
        hand, hand, hand] at hcarry
      rcases Nat.mod_two_eq_zero_or_one a with h₁ | h₁ <;>
        rcases Nat.mod_two_eq_zero_or_one b with h₂ | h₂ <;>
        rcases Nat.mod_two_eq_zero_or_one c with h₃ | h₃ <;>
        rw [h₁, h₂, h₃] at hsum hcarry <;>
        norm_num at hsum hcarry <;>
        omega

section Slice

variable {w c : ℕ}

/-- `x` with the `c` bits from bit `j` on replaced. -/
def setSlice (x : BitVec w) (j : ℕ) (v : BitVec c) : BitVec w :=
  (x &&& ~~~((BitVec.allOnes c).setWidth w <<< j)) ||| (v.setWidth w <<< j)

theorem getLsbD_setSlice (x : BitVec w) (j : ℕ) (v : BitVec c) {i : ℕ} (hi : i < w) :
    (setSlice x j v).getLsbD i =
      if j ≤ i ∧ i < j + c then v.getLsbD (i - j) else x.getLsbD i := by
  rw [setSlice, BitVec.getLsbD_or, BitVec.getLsbD_and, BitVec.getLsbD_not, BitVec.getLsbD_shiftLeft,
    BitVec.getLsbD_shiftLeft, BitVec.getLsbD_setWidth, BitVec.getLsbD_setWidth,
    BitVec.getLsbD_allOnes]
  split
  · next h => simp [hi, show ¬ i < j by omega, show i - j < w by omega, show i - j < c by omega]
  · next h =>
    by_cases hij : i < j
    · simp [hi, hij]
    · have hv : v.getLsbD (i - j) = false := BitVec.getLsbD_of_ge _ _ (by omega)
      simp [hi, hij, hv, show ¬ i - j < c by omega]

/-- Its value: the old slice out, the new one in. -/
theorem setSlice_add (x : BitVec w) (j : ℕ) (v : BitVec c) :
    setSlice x j v + (x.extractLsb' j c).setWidth w <<< j = x + v.setWidth w <<< j := by
  have hdisjoint : ∀ v : BitVec c,
      (x &&& ~~~((BitVec.allOnes c).setWidth w <<< j)) &&& (v.setWidth w <<< j) = 0#w := by
    intro v
    apply BitVec.eq_of_getLsbD_eq
    intro i hi
    by_cases hij : i < j
    · simp [hij]
    · by_cases hic : i - j < c
      · simp [hi, hij, hic]
      · simp [BitVec.getLsbD_of_ge v (i - j) (by omega)]
  have hself : setSlice x j (x.extractLsb' j c) = x := by
    apply BitVec.eq_of_getLsbD_eq
    intro i hi
    rw [getLsbD_setSlice _ _ _ hi]
    split
    · next h =>
      rw [BitVec.getLsbD_extractLsb', decide_eq_true (by omega), Bool.true_and,
        Nat.add_sub_cancel' h.1]
    · rfl
  have hnew : setSlice x j v = _ := (BitVec.add_eq_or_of_and_eq_zero _ _ (hdisjoint v)).symm
  have hold : setSlice x j (x.extractLsb' j c) = _ :=
    (BitVec.add_eq_or_of_and_eq_zero _ _ (hdisjoint _)).symm
  rw [hself] at hold
  rw [hnew]
  nth_rewrite 3 [hold]
  rw [BitVec.add_assoc, BitVec.add_assoc, BitVec.add_comm (v.setWidth w <<< j)]

end Slice

end Arithmetic
