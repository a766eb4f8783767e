import Mathlib.Data.BitVec
import PicoSoc.Library.Arithmetic

set_option autoImplicit false

/-! # The carry save accumulator of `picorv32_pcpi_mul`

A step adds a row of the product to `rd` and `rdx`. The carries of the step wait in `rdx`; with
`CARRY_CHAIN` they come from the ends of the chains only. -/

namespace PicoSoc.Picorv32

open Arithmetic

/-- The registers `rs1`, `rs2`, `rd` and `rdx`. -/
structure Accumulator where
  rs1 : BitVec 64
  rs2 : BitVec 64
  rd : BitVec 64
  rdx : BitVec 64
  deriving Inhabited

/-- `next_rd` and `next_rdt` after the carry chain that starts at bit `j`. -/
def carryChain (c : ℕ) (rdx thisRs2 : BitVec 64) (acc : BitVec 64 × BitVec 64) (j : ℕ) :
    BitVec 64 × BitVec 64 :=
  let sum : BitVec (c + 1) :=
    (acc.1.extractLsb' j c).setWidth (c + 1) + (rdx.extractLsb' j c).setWidth (c + 1)
      + (thisRs2.extractLsb' j c).setWidth (c + 1)
  (setSlice acc.1 j (sum.extractLsb' 0 c), setSlice acc.2 (j + c - 1) (sum.extractLsb' c 1))

/-- One of the `STEPS_AT_ONCE`. -/
def Accumulator.add (carryChainLen : ℕ) (a : Accumulator) : Accumulator :=
  let thisRs2 := if a.rs1.getLsbD 0 then a.rs2 else 0
  let next :=
    if carryChainLen = 0 then
      (a.rd ^^^ a.rdx ^^^ thisRs2,
        ((a.rd &&& a.rdx) ||| (a.rd &&& thisRs2) ||| (a.rdx &&& thisRs2)) <<< 1)
    else
      let sums := ((List.range (64 / carryChainLen)).map (· * carryChainLen)).foldl
        (carryChain carryChainLen a.rdx thisRs2) (a.rd, 0)
      (sums.1, sums.2 <<< 1)
  { rs1 := a.rs1 >>> 1, rs2 := a.rs2 <<< 1, rd := next.1, rdx := next.2 }

/-- `t` bits of `x` have been used: the sum and the waiting carries make up `x % 2 ^ t` times `y`,
    and no carry is left in the lowest `t` bits. -/
structure Accumulator.Partial (c : ℕ) (x y : BitVec 64) (t : ℕ) (a : Accumulator) : Prop where
  rs1 : a.rs1 = x >>> t
  rs2 : a.rs2 = y <<< t
  sum : a.rd + a.rdx = BitVec.ofNat 64 (x.toNat % 2 ^ t) * y
  low : ∀ k < t, a.rdx.getLsbD k = false
  aligned : 0 < c → ∀ k, a.rdx.getLsbD k = true → c ∣ k

section

variable {c t : ℕ} {rd rdx r : BitVec 64}

/-- Sum and carries of three words. -/
theorem carrySave_sum (rd rdx r : BitVec 64) :
    (rd ^^^ rdx ^^^ r) + ((rd &&& rdx) ||| (rd &&& r) ||| (rdx &&& r)) <<< 1 = rd + rdx + r := by
  apply BitVec.eq_of_toNat_eq
  have h := carry_save rd.toNat rdx.toNat r.toNat
  simp only [BitVec.toNat_add, BitVec.toNat_shiftLeft, BitVec.toNat_xor, BitVec.toNat_or,
    BitVec.toNat_and, Nat.shiftLeft_eq, Nat.pow_one, Nat.add_mod_mod, Nat.mod_add_mod]
  rw [h, Nat.mul_comm 2]

/-- The lowest `n` bits. -/
def lowBits (x : BitVec 64) (n : ℕ) : BitVec 64 := BitVec.ofNat 64 (x.toNat % 2 ^ n)

theorem lowBits_zero (x : BitVec 64) : lowBits x 0 = 0 := by
  rw [lowBits, Nat.pow_zero, Nat.mod_one]
  rfl

theorem lowBits_of_le (x : BitVec 64) {n : ℕ} (hn : 64 ≤ n) : lowBits x n = x := by
  have hlt : x.toNat < 2 ^ n := x.isLt.trans_le (Nat.pow_le_pow_right (by omega) hn)
  rw [lowBits, Nat.mod_eq_of_lt hlt, BitVec.ofNat_toNat, BitVec.setWidth_eq]

theorem lowBits_add (x : BitVec 64) (j c : ℕ) :
    lowBits x (j + c) = lowBits x j + BitVec.ofNat 64 ((x.extractLsb' j c).toNat * 2 ^ j) := by
  rw [lowBits, lowBits, ← BitVec.ofNat_add, Nat.pow_add, Nat.mod_mul, BitVec.extractLsb'_toNat,
    Nat.shiftRight_eq_div_pow, Nat.mul_comm (2 ^ j)]

theorem shiftLeft_setWidth (v : BitVec c) (j : ℕ) :
    v.setWidth 64 <<< j = BitVec.ofNat 64 (v.toNat * 2 ^ j) := by
  apply BitVec.eq_of_toNat_eq
  rw [BitVec.toNat_shiftLeft, BitVec.toNat_setWidth, BitVec.toNat_ofNat, Nat.shiftLeft_eq,
    Nat.mod_mul_mod]

/-- `next_rd` and `next_rdt` after `q` carry chains. -/
structure Chained (c : ℕ) (rd rdx r : BitVec 64) (q : ℕ) (acc : BitVec 64 × BitVec 64) : Prop where
  sum : acc.1 + acc.2 <<< 1 = rd + lowBits rdx (q * c) + lowBits r (q * c)
  above : ∀ k, q * c ≤ k → k < 64 → acc.1.getLsbD k = rd.getLsbD k
  carry : ∀ k, acc.2.getLsbD k = true → ∃ j < q, k = j * c + c - 1
    ∧ ∃ b, b < j * c + c ∧ (rdx.getLsbD b = true ∨ r.getLsbD b = true)

theorem Chained.start : Chained c rd rdx r 0 (rd, 0) where
  sum := by
    rw [Nat.zero_mul, lowBits_zero, lowBits_zero]
    simp
  above := fun _ _ _ => rfl
  carry := fun k hk => by simp at hk

/-- A slice of carries holds at most its lowest bit. -/
theorem carry_slice_le (haligned : ∀ k, rdx.getLsbD k = true → c ∣ k) {j : ℕ} (hj : c ∣ j) :
    (rdx.extractLsb' j c).toNat ≤ 1 := by
  have hbit : ∀ i, 1 ≤ i → (rdx.extractLsb' j c).getLsbD i = false := by
    intro i hi
    rw [BitVec.getLsbD_extractLsb']
    by_cases hic : i < c
    · rw [Bool.and_eq_false_iff]
      right
      by_contra hb
      have hdvd := haligned _ (by simpa using hb)
      exact absurd (Nat.le_of_dvd hi ((Nat.dvd_add_right hj).1 hdvd)) (by omega)
    · simp [hic]
  by_contra hgt
  obtain ⟨i, hi⟩ := Nat.exists_testBit_of_ne_zero (x := (rdx.extractLsb' j c).toNat / 2) (by omega)
  rw [← Nat.testBit_add_one] at hi
  have hfalse := hbit (i + 1) (by omega)
  rw [BitVec.getLsbD, hi] at hfalse
  cases hfalse

/-- A slice that is not zero has a bit. -/
theorem exists_bit_of_slice {x : BitVec 64} {j : ℕ} (h : (x.extractLsb' j c).toNat ≠ 0) :
    ∃ b, b < j + c ∧ x.getLsbD b = true := by
  obtain ⟨i, hi⟩ := Nat.exists_testBit_of_ne_zero h
  rw [← BitVec.getLsbD, BitVec.getLsbD_extractLsb', Bool.and_eq_true, decide_eq_true_eq] at hi
  exact ⟨j + i, by omega, hi.2⟩

theorem Chained.succ (hc : 0 < c) (haligned : ∀ k, rdx.getLsbD k = true → c ∣ k) {q : ℕ}
    (hq : (q + 1) * c ≤ 64) {acc : BitVec 64 × BitVec 64} (h : Chained c rd rdx r q acc) :
    Chained c rd rdx r (q + 1) (carryChain c rdx r acc (q * c)) := by
  obtain ⟨hsum, habove, hcarry⟩ := h
  have hsucc : (q + 1) * c = q * c + c := Nat.succ_mul q c
  rw [hsucc] at hq
  -- the sum of a chain fits into one more bit
  have hs := (acc.1.extractLsb' (q * c) c).isLt
  have hy := (r.extractLsb' (q * c) c).isLt
  have hx := carry_slice_le haligned (Nat.dvd_mul_left c q)
  obtain ⟨sum, hsum'⟩ : ∃ sum : BitVec (c + 1), sum = (acc.1.extractLsb' (q * c) c).setWidth (c + 1)
      + (rdx.extractLsb' (q * c) c).setWidth (c + 1) + (r.extractLsb' (q * c) c).setWidth (c + 1) :=
    ⟨_, rfl⟩
  have hstep : carryChain c rdx r acc (q * c)
      = (setSlice acc.1 (q * c) (sum.extractLsb' 0 c),
        setSlice acc.2 (q * c + c - 1) (sum.extractLsb' c 1)) := by
    rw [hsum']
    rfl
  have hvalue : sum.toNat = (acc.1.extractLsb' (q * c) c).toNat
      + (rdx.extractLsb' (q * c) c).toNat + (r.extractLsb' (q * c) c).toNat := by
    rw [hsum', BitVec.toNat_add, BitVec.toNat_add, BitVec.toNat_setWidth, BitVec.toNat_setWidth,
      BitVec.toNat_setWidth]
    have hpow : 2 ^ (c + 1) = 2 * 2 ^ c := Nat.pow_succ'
    simp only [Nat.mod_add_mod, Nat.add_mod_mod]
    exact Nat.mod_eq_of_lt (by omega)
  have hlow : (sum.extractLsb' 0 c).toNat = sum.toNat % 2 ^ c := by
    rw [BitVec.extractLsb'_toNat, Nat.shiftRight_zero]
  have hhigh : (sum.extractLsb' c 1).toNat = sum.toNat / 2 ^ c := by
    have hlt := sum.isLt
    rw [Nat.pow_succ] at hlt
    rw [BitVec.extractLsb'_toNat, Nat.shiftRight_eq_div_pow, Nat.pow_one,
      Nat.mod_eq_of_lt (Nat.div_lt_of_lt_mul hlt)]
  -- no carry has been written above the chains so far
  have hfree : (acc.2.extractLsb' (q * c + c - 1) 1).setWidth 64 <<< (q * c + c - 1) = 0#64 := by
    have hbit : acc.2.getLsbD (q * c + c - 1) = false := by
      by_contra hb
      obtain ⟨j, hj, heq, -⟩ := hcarry _ (by simpa using hb)
      have hle : (j + 1) * c ≤ q * c := Nat.mul_le_mul_right c hj
      rw [Nat.succ_mul] at hle
      omega
    have hslice : acc.2.extractLsb' (q * c + c - 1) 1 = 0 := by
      apply BitVec.eq_of_getLsbD_eq
      intro i hi
      obtain rfl : i = 0 := by omega
      rw [BitVec.getLsbD_extractLsb', Nat.add_zero, hbit]
      rfl
    rw [hslice]
    simp
  have hrd := setSlice_add acc.1 (q * c) (sum.extractLsb' 0 c)
  have hrdt := setSlice_add acc.2 (q * c + c - 1) (sum.extractLsb' c 1)
  rw [hfree, BitVec.add_zero, shiftLeft_setWidth] at hrdt
  rw [shiftLeft_setWidth, shiftLeft_setWidth] at hrd
  have hdouble : BitVec.ofNat 64 ((sum.extractLsb' c 1).toNat * 2 ^ (q * c + c - 1)) <<< 1
      = BitVec.ofNat 64 (sum.toNat / 2 ^ c * 2 ^ (q * c + c)) := by
    apply BitVec.eq_of_toNat_eq
    rw [BitVec.toNat_shiftLeft, BitVec.toNat_ofNat, BitVec.toNat_ofNat, Nat.shiftLeft_eq,
      Nat.mod_mul_mod, hhigh, Nat.mul_assoc, ← Nat.pow_succ,
      show (q * c + c - 1).succ = q * c + c by omega]
  have hchain : BitVec.ofNat 64 ((sum.extractLsb' 0 c).toNat * 2 ^ (q * c))
      + BitVec.ofNat 64 (sum.toNat / 2 ^ c * 2 ^ (q * c + c))
      = BitVec.ofNat 64 ((acc.1.extractLsb' (q * c) c).toNat * 2 ^ (q * c))
        + BitVec.ofNat 64 ((rdx.extractLsb' (q * c) c).toNat * 2 ^ (q * c))
        + BitVec.ofNat 64 ((r.extractLsb' (q * c) c).toNat * 2 ^ (q * c)) := by
    rw [← BitVec.ofNat_add, ← BitVec.ofNat_add, ← BitVec.ofNat_add, ← Nat.add_mul, ← Nat.add_mul,
      ← hvalue, hlow, Nat.pow_add, ← Nat.mul_assoc, Nat.mul_right_comm, ← Nat.add_mul]
    congr 2
    rw [Nat.mul_comm (sum.toNat / 2 ^ c)]
    exact Nat.mod_add_div _ _
  rw [hstep]
  refine ⟨?_, fun k hk hk64 => ?_, fun k hk => ?_⟩
  · rw [hrdt, BitVec.shiftLeft_add_distrib, hdouble, hsucc, lowBits_add, lowBits_add]
    linear_combination hsum + hrd + hchain
  · rw [hsucc] at hk
    rw [getLsbD_setSlice _ _ _ hk64, if_neg (by omega)]
    exact habove k (by omega) hk64
  · have hk64 : k < 64 := by
      by_contra hge
      rw [BitVec.getLsbD_of_ge _ _ (by omega)] at hk
      cases hk
    rw [getLsbD_setSlice _ _ _ hk64] at hk
    split at hk
    · next hkc =>
      refine ⟨q, by omega, by omega, ?_⟩
      obtain rfl : k = q * c + c - 1 := by omega
      -- without a summand bit there is no carry
      by_contra hnone
      simp only [not_exists, not_and, not_or] at hnone
      have hzero : ∀ x : BitVec 64, (∀ b, b < q * c + c → ¬x.getLsbD b = true) →
          (x.extractLsb' (q * c) c).toNat = 0 := by
        intro x hx
        by_contra hne
        obtain ⟨b, hb, hbit⟩ := exists_bit_of_slice hne
        exact hx b hb hbit
      rw [hzero rdx fun b hb => (hnone b hb).1, hzero r fun b hb => (hnone b hb).2] at hvalue
      rw [BitVec.getLsbD, hhigh, Nat.div_eq_of_lt (by omega)] at hk
      simp at hk
    · obtain ⟨j, hj, heq, hbit⟩ := hcarry k hk
      exact ⟨j, by omega, heq, hbit⟩

/-- All the carry chains of a step. -/
theorem chained_all (rd r : BitVec 64) (hc : 0 < c) (hdvd : c ∣ 64) (haligned : ∀ k, rdx.getLsbD k = true → c ∣ k) :
    Chained c rd rdx r (64 / c)
      (((List.range (64 / c)).map (· * c)).foldl (carryChain c rdx r) (rd, 0)) := by
  have hprefix : ∀ q ≤ 64 / c, Chained c rd rdx r q
      (((List.range q).map (· * c)).foldl (carryChain c rdx r) (rd, 0)) := by
    intro q hq
    induction q with
    | zero => exact .start
    | succ q ih =>
        rw [List.range_succ, List.map_append, List.foldl_append]
        refine (ih (by omega)).succ hc haligned ?_
        calc (q + 1) * c ≤ 64 / c * c := Nat.mul_le_mul_right c hq
          _ = 64 := Nat.div_mul_cancel hdvd
  exact hprefix _ le_rfl

end

section

variable {c t : ℕ} {x y : BitVec 64} {a : Accumulator}

theorem Accumulator.Partial.zero (c : ℕ) (x y : BitVec 64) :
    Partial c x y 0 { rs1 := x, rs2 := y, rd := 0, rdx := 0 } where
  rs1 := (BitVec.ushiftRight_zero x).symm
  rs2 := (BitVec.shiftLeft_zero y).symm
  sum := by simp [Nat.mod_one]
  low := fun k hk => absurd hk (by omega)
  aligned := fun _ k hk => by simp at hk

/-- The partial product after one more bit. -/
theorem sum_succ (x y : BitVec 64) (t : ℕ) :
    BitVec.ofNat 64 (x.toNat % 2 ^ (t + 1)) * y = BitVec.ofNat 64 (x.toNat % 2 ^ t) * y
      + (if (x >>> t).getLsbD 0 then y <<< t else 0) := by
  have hmod : x.toNat % 2 ^ (t + 1) = x.toNat % 2 ^ t + 2 ^ t * (x.toNat / 2 ^ t % 2) := by
    rw [Nat.pow_succ, Nat.mod_mul]
  have hbit : (x >>> t).getLsbD 0 = decide (x.toNat / 2 ^ t % 2 = 1) := by
    rw [BitVec.getLsbD_ushiftRight, BitVec.getLsbD, Nat.testBit_eq_decide_div_mod_eq, Nat.add_zero]
  rw [hmod, BitVec.ofNat_add, BitVec.add_mul, hbit]
  congr 1
  rcases Nat.mod_two_eq_zero_or_one (x.toNat / 2 ^ t) with h | h
  · rw [h]
    simp
  · rw [h, if_pos (by simp), Nat.mul_one, BitVec.shiftLeft_eq_mul_twoPow, BitVec.mul_comm]
    congr 1
    exact BitVec.eq_of_toNat_eq (by rw [BitVec.toNat_ofNat, BitVec.toNat_twoPow])

/-- A step uses one bit, for every length of the carry chains. -/
theorem Accumulator.Partial.add (h : Partial c x y t a) (hc : c = 0 ∨ c ∣ 64) :
    Partial c x y (t + 1) (a.add c) := by
  obtain ⟨hrs1, hrs2, hsum, hlow, haligned⟩ := h
  obtain ⟨r, hr⟩ : ∃ r, r = if a.rs1.getLsbD 0 then a.rs2 else 0 := ⟨_, rfl⟩
  -- the added row has no bits below `t`
  have hrow : ∀ k < t, r.getLsbD k = false := by
    intro k hk
    rw [hr, hrs2]
    split
    · rw [BitVec.getLsbD_shiftLeft, decide_eq_true hk]
      simp
    · simp
  have htotal : a.rd + a.rdx + r = BitVec.ofNat 64 (x.toNat % 2 ^ (t + 1)) * y := by
    rw [sum_succ, hsum, hr, hrs1, hrs2]
  have hrs1' : (a.add c).rs1 = x >>> (t + 1) := by
    show a.rs1 >>> 1 = _
    rw [hrs1, BitVec.shiftRight_add]
  have hrs2' : (a.add c).rs2 = y <<< (t + 1) := by
    show a.rs2 <<< 1 = _
    rw [hrs2, BitVec.shiftLeft_add]
  have hshift : ∀ z : BitVec 64, (∀ k, z.getLsbD k = true → t ≤ k) →
      ∀ k < t + 1, (z <<< 1).getLsbD k = false := by
    intro z hz k hk
    rw [BitVec.getLsbD_shiftLeft]
    by_contra hb
    simp only [Bool.not_eq_false, Bool.and_eq_true, Bool.not_eq_true', decide_eq_true_eq,
      decide_eq_false_iff_not] at hb
    have := hz _ hb.2
    omega
  -- without chains each column is a full adder, with them each chain is an addition
  by_cases hc0 : c = 0
  · have hrd : (a.add c).rd = a.rd ^^^ a.rdx ^^^ r := by
      rw [Accumulator.add, if_pos hc0, hr]
    have hrdx : (a.add c).rdx = ((a.rd &&& a.rdx) ||| (a.rd &&& r) ||| (a.rdx &&& r)) <<< 1 := by
      rw [Accumulator.add, if_pos hc0, hr]
    refine ⟨hrs1', hrs2', ?_, ?_, fun hpos => absurd hpos (by omega)⟩
    · rw [hrd, hrdx, carrySave_sum, htotal]
    · rw [hrdx]
      refine hshift _ fun k hk => ?_
      by_contra hkt
      simp [hlow k (by omega), hrow k (by omega)] at hk
  · have hpos : 0 < c := Nat.pos_of_ne_zero hc0
    have hchain := chained_all a.rd r hpos (hc.resolve_left hc0) (haligned hpos)
    obtain ⟨hvalue, -, hcarry⟩ := hchain
    rw [Nat.div_mul_cancel (hc.resolve_left hc0), lowBits_of_le _ le_rfl, lowBits_of_le _ le_rfl]
      at hvalue
    have hrd : (a.add c).rd = (((List.range (64 / c)).map (· * c)).foldl
        (carryChain c a.rdx r) (a.rd, 0)).1 := by
      rw [Accumulator.add, if_neg hc0, hr]
    have hrdx : (a.add c).rdx = (((List.range (64 / c)).map (· * c)).foldl
        (carryChain c a.rdx r) (a.rd, 0)).2 <<< 1 := by
      rw [Accumulator.add, if_neg hc0, hr]
    refine ⟨hrs1', hrs2', ?_, ?_, fun _ k hk => ?_⟩
    · rw [hrd, hrdx, hvalue, htotal]
    · rw [hrdx]
      refine hshift _ fun k hk => ?_
      obtain ⟨j, -, rfl, b, hb, hbit⟩ := hcarry k hk
      have hbt : t ≤ b := by
        by_contra hbt
        rcases hbit with h | h
        · rw [hlow b (by omega)] at h
          cases h
        · rw [hrow b (by omega)] at h
          cases h
      omega
    · rw [hrdx, BitVec.getLsbD_shiftLeft] at hk
      simp only [Bool.and_eq_true, Bool.not_eq_true', decide_eq_true_eq,
        decide_eq_false_iff_not] at hk
      obtain ⟨j, -, hkj, -⟩ := hcarry _ hk.2
      rw [show k = (j + 1) * c by rw [Nat.succ_mul]; omega]
      exact Nat.dvd_mul_left c _

/-- What a finished sum says about the result register: it holds the product, up to carries above
    the used bits. -/
theorem Accumulator.Partial.rd_of_64 (h : Partial c x y t a) (ht : 64 ≤ t) : a.rd = x * y := by
  have hrdx : a.rdx = 0 := by
    apply BitVec.eq_of_getLsbD_eq
    intro k hk
    rw [h.low k (by omega)]
    simp
  have hx : BitVec.ofNat 64 (x.toNat % 2 ^ t) = x := lowBits_of_le x ht
  have hsum := h.sum
  rwa [hrdx, add_zero, hx] at hsum

theorem Accumulator.Partial.rd_low (h : Partial c x y t a) (ht : 32 ≤ t) (hx : x.toNat < 2 ^ 32) :
    a.rd.extractLsb' 0 32 = (x * y).extractLsb' 0 32 := by
  have hrdx : a.rdx.setWidth 32 = 0 := by
    apply BitVec.eq_of_getLsbD_eq
    intro k hk
    rw [BitVec.getLsbD_setWidth, h.low k (by omega)]
    simp
  have hlt : x.toNat < 2 ^ t := hx.trans_le (Nat.pow_le_pow_right (by omega) ht)
  have hsum := h.sum
  rw [Nat.mod_eq_of_lt hlt, BitVec.ofNat_toNat, BitVec.setWidth_eq] at hsum
  rw [← BitVec.setWidth_eq_extractLsb' (by omega), ← BitVec.setWidth_eq_extractLsb' (by omega),
    ← hsum, BitVec.setWidth_add _ _ (by omega), hrdx, add_zero]

end

end PicoSoc.Picorv32
