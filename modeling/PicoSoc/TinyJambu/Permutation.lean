import PicoSoc.Library.Clocked
import PicoSoc.TinyJambu.Core
import PicoSoc.TinyJambu.Spec

set_option autoImplicit false

/-! # Thirty-two rounds a cycle

All taps of the rounds `0 … 31` lie inside the 128 bits the cycle starts with, so the feedback of
32 rounds is one word of the old state. -/

namespace PicoSoc.TinyJambu

open Clocked

/-! ## The register as bits -/

/-- `{w3, w2, w1, w0}`. -/
def Nlfsr.bits (s : Nlfsr) : BitVec 128 := s.w3 ++ s.w2 ++ s.w1 ++ s.w0

theorem getLsbD_bits (s : Nlfsr) (j : ℕ) :
    s.bits.getLsbD j =
      if j < 32 then s.w0.getLsbD j
      else if j < 64 then s.w1.getLsbD (j - 32)
      else if j < 96 then s.w2.getLsbD (j - 64)
      else s.w3.getLsbD (j - 96) := by
  simp only [Nlfsr.bits, BitVec.getLsbD_append]
  repeat' split
  all_goals first | rfl | omega

/-! ## A run of rounds -/

namespace Spec

/-- `r` rounds with indices from `a` on. -/
def rounds (k : BitVec 128) (a r : ℕ) (s : State) : State :=
  (List.range r).foldl (fun s i => nlfsrRound k s (a + i)) s

theorem rounds_succ (k : BitVec 128) (a r : ℕ) (s : State) :
    rounds k a (r + 1) s = nlfsrRound k (rounds k a r s) (a + r) := by
  rw [rounds, List.range_succ, List.foldl_append]
  rfl

theorem permute_add (k : BitVec 128) (a r : ℕ) (s : State) :
    permute k (a + r) s = rounds k a r (permute k a s) := by
  rw [permute, List.range_add, List.foldl_append, List.foldl_map]
  rfl

theorem getLsbD_nlfsrRound (k : BitVec 128) (s : State) (i : ℕ) {j : ℕ} (hj : j < 128) :
    (nlfsrRound k s i).getLsbD j =
      if j < 127 then s.getLsbD (j + 1)
      else s.getLsbD 0 ^^ s.getLsbD 47 ^^ !(s.getLsbD 70 && s.getLsbD 85) ^^ s.getLsbD 91 ^^
        k.getLsbD (i % 128) := by
  rw [nlfsrRound, BitVec.getLsbD_cons]
  by_cases h : j = 127
  · rw [if_pos h, if_neg (by omega)]
  · rw [if_neg h, if_pos (by omega), BitVec.getLsbD_extractLsb', decide_eq_true (by omega),
      Bool.true_and, Nat.add_comm]

/-- The feedback bit of round `a + t`, read off the state before round `a`. -/
def feedback (k : BitVec 128) (a : ℕ) (s : State) (t : ℕ) : Bool :=
  s.getLsbD t ^^ s.getLsbD (t + 47) ^^ !(s.getLsbD (t + 70) && s.getLsbD (t + 85)) ^^
    s.getLsbD (t + 91) ^^ k.getLsbD ((a + t) % 128)

/-- Up to 32 rounds shift the state and append feedback bits of the state before them. -/
theorem getLsbD_rounds (k : BitVec 128) (a : ℕ) (s : State) {r : ℕ} (hr : r ≤ 32) {j : ℕ}
    (hj : j < 128) :
    (rounds k a r s).getLsbD j =
      if j + r < 128 then s.getLsbD (j + r) else feedback k a s (j + r - 128) := by
  induction r generalizing j with
  | zero => rw [if_pos (by omega)]; rfl
  | succ r ih =>
      rw [rounds_succ, getLsbD_nlfsrRound k _ _ hj]
      by_cases h : j < 127
      · rw [if_pos h, ih (by omega) (by omega)]
        simp only [Nat.add_right_comm j 1 r, Nat.add_assoc]
      · obtain rfl : j = 127 := by omega
        have htap : ∀ t, t ≤ 91 → (rounds k a r s).getLsbD t = s.getLsbD (r + t) := by
          intro t ht
          rw [ih (by omega) (by omega), if_pos (by omega), Nat.add_comm]
        rw [if_neg h, if_neg (by omega), htap 0 (by omega), htap 47 (by omega), htap 70 (by omega),
          htap 85 (by omega), htap 91 (by omega), show 127 + (r + 1) - 128 = r by omega, feedback,
          Nat.add_zero]

end Spec

/-! ## The engine -/

/-- `n` cycles of a permutation: the key words in turn, from word 0 on. -/
def permSteps (key : BitVec 128) : ℕ → Nlfsr → Nlfsr
  | 0, s => s
  | n + 1, s =>
      (permSteps key n s).step { keyWord := getWord key (BitVec.ofNat 2 n), run := true }

theorem getLsbD_word (s : Nlfsr) {j : ℕ} (hj : j < 32) :
    s.w0.getLsbD j = s.bits.getLsbD j ∧ s.w1.getLsbD j = s.bits.getLsbD (32 + j) ∧
      s.w2.getLsbD j = s.bits.getLsbD (64 + j) ∧ s.w3.getLsbD j = s.bits.getLsbD (96 + j) := by
  refine ⟨?_, ?_, ?_, ?_⟩
  · rw [getLsbD_bits, if_pos hj]
  · rw [getLsbD_bits, if_neg (by omega), if_pos (by omega), Nat.add_sub_cancel_left]
  · rw [getLsbD_bits, if_neg (by omega), if_neg (by omega), if_pos (by omega),
      Nat.add_sub_cancel_left]
  · rw [getLsbD_bits, if_neg (by omega), if_neg (by omega), if_neg (by omega),
      Nat.add_sub_cancel_left]

/-- A tap: 32 bits from position `b + m` on, out of two neighbouring words at position `b`. -/
theorem getLsbD_tap {x : BitVec 128} {lo hi : BitVec 32} {b m n : ℕ} (hmn : m + n = 32)
    (hlo : ∀ j < 32, lo.getLsbD j = x.getLsbD (b + j))
    (hhi : ∀ j < 32, hi.getLsbD j = x.getLsbD (b + 32 + j)) {t : ℕ} (ht : t < 32) :
    ((lo >>> m) ||| (hi <<< n)).getLsbD t = x.getLsbD (t + (b + m)) := by
  rw [BitVec.getLsbD_or, BitVec.getLsbD_ushiftRight, BitVec.getLsbD_shiftLeft, decide_eq_true ht]
  by_cases h : m + t < 32
  · rw [hlo _ h, decide_eq_true (show t < n by omega), show b + (m + t) = t + (b + m) by omega]
    simp
  · rw [decide_eq_false (show ¬ t < n by omega), BitVec.getLsbD_of_ge lo _ (by omega),
      hhi (t - n) (by omega), show b + 32 + (t - n) = t + (b + m) by omega]
    simp

theorem getLsbD_keyWord (key : BitVec 128) (n : ℕ) {t : ℕ} (ht : t < 32) :
    (getWord key (BitVec.ofNat 2 n)).getLsbD t = key.getLsbD ((32 * n + t) % 128) := by
  rw [getWord, BitVec.getLsbD_extractLsb', decide_eq_true ht, Bool.true_and, BitVec.toNat_ofNat]
  congr 1
  omega

theorem getLsbD_fb (s : Nlfsr) (key : BitVec 128) (n : ℕ) {t : ℕ} (ht : t < 32) :
    (s.fb (getWord key (BitVec.ofNat 2 n))).getLsbD t = Spec.feedback key (32 * n) s.bits t := by
  have h0 := (getLsbD_word s ht).1
  have hw1 : ∀ j < 32, s.w1.getLsbD j = s.bits.getLsbD (32 + j) := fun j hj =>
    (getLsbD_word s hj).2.1
  have hw2 : ∀ j < 32, s.w2.getLsbD j = s.bits.getLsbD (64 + j) := fun j hj =>
    (getLsbD_word s hj).2.2.1
  have hw3 : ∀ j < 32, s.w3.getLsbD j = s.bits.getLsbD (96 + j) := fun j hj =>
    (getLsbD_word s hj).2.2.2
  have h47 := getLsbD_tap (m := 15) (n := 17) rfl hw1 hw2 ht
  have h70 := getLsbD_tap (m := 6) (n := 26) rfl hw2 hw3 ht
  have h85 := getLsbD_tap (m := 21) (n := 11) rfl hw2 hw3 ht
  have h91 := getLsbD_tap (m := 27) (n := 5) rfl hw2 hw3 ht
  rw [Nlfsr.fb, Spec.feedback, BitVec.getLsbD_xor, BitVec.getLsbD_xor, BitVec.getLsbD_xor,
    BitVec.getLsbD_xor, BitVec.getLsbD_not, BitVec.getLsbD_and, h0, h47, h70, h85, h91,
    getLsbD_keyWord key n ht, decide_eq_true ht, Bool.true_and]

theorem bits_step (s : Nlfsr) (key : BitVec 128) (n : ℕ) :
    (s.step { keyWord := getWord key (BitVec.ofNat 2 n), run := true }).bits =
      Spec.rounds key (32 * n) 32 s.bits := by
  apply BitVec.eq_of_getLsbD_eq
  intro j hj
  rw [Spec.getLsbD_rounds _ _ _ (by decide) hj, getLsbD_bits]
  simp only [Nlfsr.step, Bool.false_eq_true, if_false, if_true]
  by_cases h : j < 96
  · rw [if_pos (show j + 32 < 128 by omega), getLsbD_bits, if_neg (show ¬ j + 32 < 32 by omega)]
    repeat' split
    all_goals first | omega | (congr 1)
  · rw [if_neg (show ¬ j + 32 < 128 by omega), if_neg (by omega), if_neg (by omega), if_neg h,
      getLsbD_fb _ _ _ (by omega)]
    rfl

/-- The cycles of the engine are the rounds of the specification, 32 at a time. -/
theorem bits_permSteps (key : BitVec 128) (n : ℕ) (s : Nlfsr) :
    (permSteps key n s).bits = Spec.permute key (32 * n) s.bits := by
  induction n with
  | zero => rfl
  | succ n ih => rw [permSteps, bits_step, ih, Nat.mul_succ, Spec.permute_add]

/-! ## `S_PERM` -/

/-- The engine with `i_run` high, on the key words that a counter from `0` on selects. -/
def permIn (key : BitVec 128) (kidx : ℕ) : NlfsrIn :=
  { keyWord := getWord key ((BitVec.ofNat 6 kidx).extractLsb' 0 2), run := true }

theorem permIn_eq (key : BitVec 128) (n : ℕ) :
    permIn key n = { keyWord := getWord key (BitVec.ofNat 2 n), run := true } := by
  have hidx : (BitVec.ofNat 6 n).extractLsb' 0 2 = BitVec.ofNat 2 n := by
    apply BitVec.eq_of_toNat_eq
    simp only [BitVec.extractLsb'_toNat, BitVec.toNat_ofNat]
    omega
  rw [permIn, hidx]

theorem run_permIn (key : BitVec 128) (s : Nlfsr) (n : ℕ) :
    run Nlfsr.step (permIn key) s n = permSteps key n s := by
  induction n with
  | zero => rfl
  | succ n ih => rw [run_succ, ih, permIn_eq, permSteps]

/-- A cycle in `S_PERM` leaves the data path alone and counts on. -/
theorem step_perm_state {c : Core} (h : c.fsm.fsm = .perm) (i : CoreIn) :
    (c.step i).dp = c.dp ∧ (c.step i).fsm.kidx = c.fsm.kidx + 1 ∧
      (c.step i).nlfsr =
        c.nlfsr.step { keyWord := getWord c.dp.keyR (c.fsm.kidx.extractLsb' 0 2), run := true } := by
  have hctl : c.datapathCtl i = {} := by
    rw [Core.datapathCtl, h]
  have hin : c.nlfsrIn i = { keyWord := c.keyWord, run := true } := by
    rw [Core.nlfsrIn, h]
  refine ⟨?_, ?_, ?_⟩
  · show c.dp.step i (c.datapathCtl i) = c.dp
    rw [hctl]
    rfl
  · show (c.fsm.step i.ena c.dp c.nlfsr.w2).kidx = _
    rw [Fsm.step, h]
  · show c.nlfsr.step (c.nlfsrIn i) = _
    rw [hin]
    rfl

/-- In `S_PERM` the core runs its engine on the words of the latched key. -/
theorem run_perm {c : Core} (hkidx : c.fsm.kidx = 0) {env : ℕ → CoreIn} {n : ℕ}
    (hperm : ∀ k < n, (run Core.step env c k).fsm.fsm = .perm) :
    (run Core.step env c n).dp = c.dp ∧ (run Core.step env c n).fsm.kidx = BitVec.ofNat 6 n ∧
      (run Core.step env c n).nlfsr = run Nlfsr.step (permIn c.dp.keyR) c.nlfsr n := by
  induction n with
  | zero => exact ⟨rfl, hkidx, rfl⟩
  | succ n ih =>
      obtain ⟨hdp, hcount, hnlfsr⟩ := ih fun k hk => hperm k (by omega)
      obtain ⟨hdp', hcount', hnlfsr'⟩ := step_perm_state (hperm n (by omega)) (env n)
      rw [run_succ, run_succ]
      refine ⟨hdp'.trans hdp, ?_, ?_⟩
      · rw [hcount', hcount, BitVec.ofNat_add]
        rfl
      · rw [hnlfsr', hdp, hcount, hnlfsr, permIn]

/-- `n` cycles of the engine on the key words in turn are `32 * n` rounds of one bit, and so are `n`
    cycles of the core in `S_PERM`. -/
theorem perm_cycles_are_rounds (key : BitVec 128) (s : Nlfsr) (n : ℕ) :
    (run Nlfsr.step (permIn key) s n).bits = Spec.permute key (32 * n) s.bits ∧
      ∀ (c : Core) (env : ℕ → CoreIn), c.nlfsr = s → c.dp.keyR = key → c.fsm.kidx = 0 →
        (∀ k < n, (run Core.step env c k).fsm.fsm = .perm) →
          (run Core.step env c n).nlfsr.bits = Spec.permute key (32 * n) s.bits := by
  have hengine : (run Nlfsr.step (permIn key) s n).bits = Spec.permute key (32 * n) s.bits := by
    rw [run_permIn, bits_permSteps]
  refine ⟨hengine, ?_⟩
  rintro c env rfl rfl hkidx hperm
  rw [(run_perm hkidx hperm).2.2]
  exact hengine

/-- Two cycles of a permutation of the zero state. -/
theorem perm_cycles_are_rounds_two :
    (run Core.step (fun _ => ⟨false, 0, 0, 0, 0, 0, 0, 0, 0⟩)
      { Core.reset with fsm := { Fsm.reset with fsm := .perm, steps := 32 } } 2).nlfsr.bits =
        Spec.permute 0 64 0 :=
  (perm_cycles_are_rounds 0 .zero 2).2 _ _ rfl rfl rfl fun k hk => by
    interval_cases k <;> rfl

end PicoSoc.TinyJambu
