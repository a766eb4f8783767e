import PicoSoc.Library.Clocked
import PicoSoc.GiftCofb.Gift
import PicoSoc.GiftCofb.Spec

set_option autoImplicit false

/-! # The engine computes GIFT-128

Bit `4 * i + j` of the state of the specification is bit `i` of row `j`; under this view each part
of the round datapath is one of the specification. -/

namespace PicoSoc.GiftCofb

open Bytes Clocked

/-! ## Rows and nibbles -/

def Rows.row (r : Rows) (j : ℕ) : BitVec 32 :=
  if j = 0 then r.s0 else if j = 1 then r.s1 else if j = 2 then r.s2 else r.s3

/-- The rows as the state of the specification. -/
def Rows.state (r : Rows) : Spec.State := Spec.pack r.block

/-- The key words as the key state of the specification. -/
def KeyWords.key (w : KeyWords) : BitVec 128 :=
  w.w0 ++ w.w1 ++ w.w2 ++ w.w3 ++ w.w4 ++ w.w5 ++ w.w6 ++ w.w7

theorem getLsbD_block (r : Rows) {i j : ℕ} (hi : i < 32) (hj : j < 4) :
    r.block.getLsbD (32 * (3 - j) + i) = (r.row j).getLsbD i := by
  simp only [Rows.block, Rows.row, BitVec.getLsbD_append]
  interval_cases j
  · rw [if_neg (by omega), if_neg (by omega), if_neg (by omega), if_pos rfl]
    congr 1
    omega
  · rw [if_neg (by omega), if_neg (by omega), if_pos (by omega), if_neg (by omega), if_pos rfl]
    congr 1
    omega
  · rw [if_neg (by omega), if_pos (by omega), if_neg (by omega), if_neg (by omega), if_pos rfl]
    congr 1
    omega
  · rw [if_pos (by omega), if_neg (by omega), if_neg (by omega), if_neg (by omega)]
    congr 1
    omega

theorem getLsbD_state (r : Rows) {b : ℕ} (hb : b < 128) :
    r.state.getLsbD b = (r.row (b % 4)).getLsbD (b / 4) := by
  rw [Rows.state, Spec.pack, getLsbD_ofBitsLE _ hb, getLsbD_block r (by omega) (by omega)]

theorem unpack_pack (x : BitVec 128) : Spec.unpack (Spec.pack x) = x := by
  apply BitVec.eq_of_getLsbD_eq
  intro b hb
  rw [Spec.unpack, getLsbD_ofBitsLE _ hb, Spec.pack, getLsbD_ofBitsLE _ (by omega)]
  congr 1
  omega

/-! ## The parts of a round -/

/-- The four output bits of the circuit are those of the S-box. -/
theorem sbox_bits (x : BitVec 4) :
    Spec.sbox x =
      (let s1 := x.getLsbD 1 ^^ (x.getLsbD 0 && x.getLsbD 2)
       let s0 := x.getLsbD 0 ^^ (s1 && x.getLsbD 3)
       let s2 := x.getLsbD 2 ^^ (s0 || s1)
       let s3 := x.getLsbD 3 ^^ s2
       let s1 := s1 ^^ s3
       ofBitsLE 4 fun j =>
        if j = 0 then !s3 else if j = 1 then s1 else if j = 2 then s2 ^^ (s0 && s1) else s0) := by
  revert x
  decide

theorem getLsbD_nibble (r : Rows) {i j : ℕ} (hi : i < 32) (hj : j < 4) :
    (Spec.nibble r.state i).getLsbD j = (r.row j).getLsbD i := by
  rw [Spec.nibble, BitVec.getLsbD_extractLsb', decide_eq_true hj, Bool.true_and,
    getLsbD_state r (by omega), show (4 * i + j) % 4 = j by omega,
    show (4 * i + j) / 4 = i by omega]

theorem state_subcells (r : Rows) : (gift128Subcells r).state = Spec.subCells r.state := by
  apply BitVec.eq_of_getLsbD_eq
  intro b hb
  have hi : b / 4 < 32 := by omega
  have hj : b % 4 < 4 := by omega
  rw [getLsbD_state _ hb, Spec.subCells, getLsbD_ofBitsLE _ hb, sbox_bits]
  generalize b / 4 = i at hi ⊢
  generalize b % 4 = j at hj ⊢
  simp only [getLsbD_nibble r hi (show 0 < 4 by decide), getLsbD_nibble r hi (show 1 < 4 by decide),
    getLsbD_nibble r hi (show 2 < 4 by decide), getLsbD_nibble r hi (show 3 < 4 by decide)]
  rw [getLsbD_ofBitsLE _ hj]
  interval_cases j <;> simp [Rows.row, gift128Subcells, hi]

theorem getLsbD_concatBits (s : BitVec 32) (bits : List ℕ) {i : ℕ} (hi : i < bits.length) :
    (concatBits s bits).getLsbD i = s.getLsbD (bits.getD (bits.length - 1 - i) 0) := by
  induction bits with
  | nil => simp at hi
  | cons b bits ih =>
      have hlen : (b :: bits).length - 1 = bits.length := rfl
      rw [List.length_cons] at hi
      rw [hlen]
      refine (BitVec.getLsbD_cons ..).trans ?_
      by_cases hlast : i = bits.length
      · rw [if_pos hlast, hlast, Nat.sub_self, List.getD_cons_zero]
      · rw [if_neg hlast, ih (by omega),
          show bits.length - i = bits.length - 1 - i + 1 by omega, List.getD_cons_succ]

/-- The four concatenations are the bit permutation, row by row. -/
theorem permBits_source : ∀ i < 32, permBits0.getD (31 - i) 0 = Spec.source i 0 ∧
    permBits1.getD (31 - i) 0 = Spec.source i 1 ∧ permBits2.getD (31 - i) 0 = Spec.source i 2 ∧
    permBits3.getD (31 - i) 0 = Spec.source i 3 := by
  decide

theorem row_permbits (r : Rows) {i j : ℕ} (hi : i < 32) (hj : j < 4) :
    ((gift128Permbits r).row j).getLsbD i = (r.row j).getLsbD (Spec.source i j) := by
  obtain ⟨h0, h1, h2, h3⟩ := permBits_source i hi
  interval_cases j
  · exact (getLsbD_concatBits r.s0 permBits0 hi).trans (congrArg r.s0.getLsbD h0)
  · exact (getLsbD_concatBits r.s1 permBits1 hi).trans (congrArg r.s1.getLsbD h1)
  · exact (getLsbD_concatBits r.s2 permBits2 hi).trans (congrArg r.s2.getLsbD h2)
  · exact (getLsbD_concatBits r.s3 permBits3 hi).trans (congrArg r.s3.getLsbD h3)

theorem state_permbits (r : Rows) : (gift128Permbits r).state = Spec.permBits r.state := by
  apply BitVec.eq_of_getLsbD_eq
  intro b hb
  have hsource : Spec.source (b / 4) (b % 4) < 32 := by
    unfold Spec.source
    omega
  rw [getLsbD_state _ hb, row_permbits r (by omega) (by omega), Spec.permBits,
    getLsbD_ofBitsLE _ hb, getLsbD_state r (by omega),
    show (4 * Spec.source (b / 4) (b % 4) + b % 4) % 4 = b % 4 by omega,
    show (4 * Spec.source (b / 4) (b % 4) + b % 4) / 4 = Spec.source (b / 4) (b % 4) by omega]

/-- `{W2, W3}` and `{W6, W7}` are `U` and `V`. -/
theorem getLsbD_key (w : KeyWords) {i : ℕ} (hi : i < 32) :
    w.key.getLsbD (64 + i) = (w.w2 ++ w.w3).getLsbD i ∧
      w.key.getLsbD i = (w.w6 ++ w.w7).getLsbD i := by
  simp only [KeyWords.key, BitVec.getLsbD_append]
  constructor
  · rw [if_neg (by omega), if_neg (by omega), if_neg (by omega), if_neg (by omega)]
    by_cases h : i < 16
    · rw [if_pos (by omega), if_pos h]
      congr 1
      omega
    · rw [if_neg (by omega), if_pos (by omega), if_neg h]
      congr 1
      omega
  · by_cases h : i < 16
    · rw [if_pos h, if_pos h]
    · rw [if_neg h, if_pos (by omega), if_neg h]

theorem state_round (w : KeyWords) (c : BitVec 6) (r : Rows) :
    (gift128Round w (0#2 ++ c) r).state = Spec.round w.key c r.state := by
  have hbefore : (gift128Permbits (gift128Subcells r)).state =
      Spec.permBits (Spec.subCells r.state) := by
    rw [state_permbits, state_subcells]
  rw [Spec.round, ← hbefore, gift128Round]
  generalize gift128Permbits (gift128Subcells r) = q
  apply BitVec.eq_of_getLsbD_eq
  intro b hb
  have hi : b / 4 < 32 := by omega
  obtain ⟨hU, hV⟩ := getLsbD_key w hi
  rw [BitVec.getLsbD_xor, getLsbD_state _ hb, getLsbD_state _ hb, Spec.roundKey,
    getLsbD_ofBitsLE _ hb, hU, hV]
  have hj : b % 4 = 0 ∨ b % 4 = 1 ∨ b % 4 = 2 ∨ b % 4 = 3 := by omega
  rcases hj with h | h | h | h
  · simp [h, Rows.row, gift128Roundconst, gift128Addroundkey]
  · simp [h, Rows.row, gift128Roundconst, gift128Addroundkey]
  · simp [h, Rows.row, gift128Roundconst, gift128Addroundkey]
  · have htop : (0x80000000 : BitVec 32).getLsbD (b / 4) = decide (b = 127) := by
      have htable : ∀ i < 32, (0x80000000 : BitVec 32).getLsbD i = decide (i = 31) := by decide
      rw [htable _ hi, decide_eq_decide]
      omega
    have hconst : (0#24 ++ (0#2 ++ c)).getLsbD (b / 4) = c.getLsbD (b / 4) := by
      rw [BitVec.getLsbD_append, BitVec.getLsbD_append]
      by_cases h6 : b / 4 < 6
      · rw [if_pos (by omega), if_pos h6]
      · rw [BitVec.getLsbD_of_ge c _ (by omega)]
        simp
    rw [h]
    show (q.s3 ^^^ 0x80000000 ^^^ (0#24 ++ (0#2 ++ c))).getLsbD (b / 4) = _
    rw [BitVec.getLsbD_xor, BitVec.getLsbD_xor, htop, hconst, Bool.xor_assoc]
    rfl

theorem rotateRight_parts (w : BitVec 16) :
    w.extractLsb' 0 2 ++ w.extractLsb' 2 14 = w.rotateRight 2 ∧
      w.extractLsb' 0 12 ++ w.extractLsb' 12 4 = w.rotateRight 12 := by
  constructor <;> apply BitVec.eq_of_getLsbD_eq <;> intro i hi <;>
    simp only [BitVec.getLsbD_append, BitVec.getLsbD_extractLsb', BitVec.getLsbD_rotateRight] <;>
    interval_cases i <;> simp

/-- The key state as six words below two. -/
theorem key_eq_append (w : KeyWords) :
    w.key = w.w0 ++ w.w1 ++ (w.w2 ++ w.w3 ++ w.w4 ++ w.w5 ++ w.w6 ++ w.w7) := by
  apply BitVec.eq_of_getLsbD_eq
  intro b hb
  simp only [KeyWords.key, BitVec.getLsbD_append]
  by_cases h : b < 96
  · rw [if_pos h]
    repeat' split
    all_goals first | rfl | omega
  · rw [if_neg h, if_neg (by omega), if_neg (by omega), if_neg (by omega), if_neg (by omega),
      if_neg (by omega), if_neg (by omega), show b - 16 - 16 - 16 - 16 - 16 - 16 = b - 96 by omega]

theorem key_keyschedule (w : KeyWords) : (gift128Keyschedule w).key = Spec.keySchedule w.key := by
  have hhi : w.key.extractLsb' 32 96 = w.w0 ++ w.w1 ++ w.w2 ++ w.w3 ++ w.w4 ++ w.w5 := by
    apply BitVec.eq_of_getLsbD_eq
    intro i hi
    simp only [KeyWords.key, BitVec.getLsbD_extractLsb', BitVec.getLsbD_append, hi, decide_true,
      Bool.true_and, show ¬ 32 + i < 16 by omega, show ¬ 32 + i - 16 < 16 by omega, if_false,
      show 32 + i - 16 - 16 = i by omega]
  have h6 : w.key.extractLsb' 16 16 = w.w6 := by
    apply BitVec.eq_of_getLsbD_eq
    intro i hi
    simp only [KeyWords.key, BitVec.getLsbD_extractLsb', BitVec.getLsbD_append, hi, decide_true,
      Bool.true_and, show ¬ 16 + i < 16 by omega, if_false, show 16 + i - 16 = i by omega, if_true]
  have h7 : w.key.extractLsb' 0 16 = w.w7 := by
    apply BitVec.eq_of_getLsbD_eq
    intro i hi
    simp only [KeyWords.key, BitVec.getLsbD_extractLsb', BitVec.getLsbD_append, hi, decide_true,
      Bool.true_and, Nat.zero_add, if_true]
  rw [Spec.keySchedule, hhi, h6, h7, key_eq_append, ← (rotateRight_parts w.w6).1,
    ← (rotateRight_parts w.w7).2]
  rfl

/-! ## All rounds -/

/-- The ROM holds the constants of the LFSR. -/
theorem roundConstant_eq {n : ℕ} (hn : n < 40) :
    roundConstant (BitVec.ofNat 6 n) = 0#2 ++ Spec.constantNext^[n] (Spec.constantNext 0) := by
  have htable : ∀ n < 40, roundConstant (BitVec.ofNat 6 n) =
      0#2 ++ Spec.constantNext^[n] (Spec.constantNext 0) := by
    decide
  exact htable n hn

theorem rounds_constant (k : BitVec 128) (s : Spec.State) (n : ℕ) :
    (Spec.rounds k s n).2.2 = Spec.constantNext^[n] (Spec.constantNext 0) := by
  induction n with
  | zero => rfl
  | succ n ih => rw [Spec.rounds, ih, Function.iterate_succ_apply']

/-- The engine after `n` rounds on the block `x`. -/
def engineAfter (key x ciphertext : BitVec 128) : ℕ → Gift
  | 0 =>
      { rows := loadRows x
        words := loadWords key
        round := 0
        busy := true
        done := false
        ciphertext := ciphertext }
  | n + 1 => (engineAfter key x ciphertext n).step { start := false, plaintext := 0, key := 0 }

theorem state_loadRows (x : BitVec 128) : (loadRows x).state = Spec.pack x := by
  have hblock : (loadRows x).block = x := by
    simp only [Rows.block, loadRows]
    rw [BitVec.extractLsb'_append_extractLsb'_eq_extractLsb' (by rfl),
      BitVec.extractLsb'_append_extractLsb'_eq_extractLsb' (by rfl),
      BitVec.extractLsb'_append_extractLsb'_eq_extractLsb' (by rfl)]
    exact BitVec.extractLsb'_eq_self
  rw [Rows.state, hblock]

theorem key_loadWords (key : BitVec 128) : (loadWords key).key = key := by
  simp only [KeyWords.key, loadWords]
  rw [BitVec.extractLsb'_append_extractLsb'_eq_extractLsb' (by rfl),
    BitVec.extractLsb'_append_extractLsb'_eq_extractLsb' (by rfl),
    BitVec.extractLsb'_append_extractLsb'_eq_extractLsb' (by rfl),
    BitVec.extractLsb'_append_extractLsb'_eq_extractLsb' (by rfl),
    BitVec.extractLsb'_append_extractLsb'_eq_extractLsb' (by rfl),
    BitVec.extractLsb'_append_extractLsb'_eq_extractLsb' (by rfl),
    BitVec.extractLsb'_append_extractLsb'_eq_extractLsb' (by rfl)]
  exact BitVec.extractLsb'_eq_self

/-- While the engine is busy no input matters. -/
theorem Gift.step_busy {g : Gift} (hg : g.busy = true) (i j : GiftIn) : g.step i = g.step j := by
  simp only [Gift.step, hg, Bool.not_true, Bool.and_false, Bool.false_eq_true, if_false, if_true]

/-- The rounds of the engine are those of the specification. -/
theorem engineAfter_rounds (key x ciphertext : BitVec 128) {n : ℕ} (hn : n ≤ 40) :
    (engineAfter key x ciphertext n).rows.state = (Spec.rounds key (Spec.pack x) n).1 ∧
      (engineAfter key x ciphertext n).words.key = (Spec.rounds key (Spec.pack x) n).2.1 ∧
      (engineAfter key x ciphertext n).round = BitVec.ofNat 6 n ∧
      (engineAfter key x ciphertext n).busy = decide (n < 40) ∧
      (engineAfter key x ciphertext n).done = decide (n = 40) := by
  induction n with
  | zero => exact ⟨state_loadRows x, key_loadWords key, rfl, rfl, rfl⟩
  | succ n ih =>
      obtain ⟨hrows, hwords, hround, hbusy, -⟩ := ih (by omega)
      rw [decide_eq_true (show n < 40 by omega)] at hbusy
      have hlast : BitVec.ofNat 6 n = 39 ↔ n = 39 := by
        rw [← BitVec.toNat_inj]
        simp
        omega
      rw [engineAfter, Spec.rounds, Gift.step]
      simp only [hbusy, hround, hlast, Bool.false_and, Bool.false_eq_true, if_false, if_true,
        roundConstant_eq (show n < 40 by omega), state_round, key_keyschedule, hrows, hwords,
        rounds_constant]
      refine ⟨trivial, trivial, (BitVec.ofNat_add n 1).symm, ?_, ?_⟩
      · by_cases h : n = 39
        · rw [if_pos h, decide_eq_false (by omega)]
        · rw [if_neg h, decide_eq_true (by omega)]
      · by_cases h : n = 39
        · rw [if_pos h, decide_eq_true (by omega)]
        · rw [if_neg h, decide_eq_false (by omega)]

/-- After forty rounds the output register holds the cipher block. -/
theorem engineAfter_done (key x ciphertext : BitVec 128) :
    (engineAfter key x ciphertext 40).ciphertext = Spec.gift128 key x := by
  obtain ⟨hrows, -⟩ := engineAfter_rounds key x ciphertext (le_refl 40)
  obtain ⟨-, -, hround, hbusy, -⟩ := engineAfter_rounds key x ciphertext (show 39 ≤ 40 by decide)
  have hout : (engineAfter key x ciphertext 40).ciphertext =
      (engineAfter key x ciphertext 40).rows.block := by
    rw [engineAfter, Gift.step]
    simp [hbusy, hround]
  rw [hout, Spec.gift128, ← hrows, Rows.state, unpack_pack]

/-! ## A call of the engine -/

/-- From a start pulse on an engine at rest the rounds follow one a cycle, whatever the inputs. -/
theorem run_engineAfter {g : Gift} (hbusy : g.busy = false) {env : ℕ → GiftIn}
    (hstart : (env 0).start = true) {n : ℕ} (hn : n ≤ 40) :
    run Gift.step env g (n + 1) = engineAfter (env 0).key (env 0).plaintext g.ciphertext n := by
  induction n with
  | zero =>
      show Gift.step (env 0) g = _
      rw [Gift.step, hbusy, hstart]
      rfl
  | succ n ih =>
      obtain ⟨-, -, -, hbusy', -⟩ :=
        engineAfter_rounds (env 0).key (env 0).plaintext g.ciphertext (show n ≤ 40 by omega)
      rw [decide_eq_true (show n < 40 by omega)] at hbusy'
      rw [run_succ, ih (by omega), engineAfter]
      exact Gift.step_busy hbusy' _ _

/-- An engine at rest without a start pulse drops `done` and keeps its output. -/
theorem run_engine_rest {g : Gift} (hbusy : g.busy = false) {env : ℕ → GiftIn} {n : ℕ}
    (hquiet : ∀ k ≤ n, (env k).start = false) :
    run Gift.step env g (n + 1) = { g with done := false } := by
  have hstep : ∀ (i : GiftIn) (h : Gift), h.busy = false → i.start = false →
      Gift.step i h = { h with done := false } := by
    intro i h hb hi
    rw [Gift.step, hb, hi]
    rfl
  induction n with
  | zero => exact hstep (env 0) g hbusy (hquiet 0 le_rfl)
  | succ n ih =>
      rw [run_succ, ih fun k hk => hquiet k (by omega)]
      exact hstep (env (n + 1)) { g with done := false } hbusy (hquiet (n + 1) le_rfl)

/-- A start pulse on an engine at rest, whatever its registers hold, makes it busy for forty cycles;
    then `done` is high for one cycle with the cipher block of the key and plaintext of the start
    pulse. Until the next start pulse the block stays and `done` stays low. -/
theorem engine_computes_gift128 (g : Gift) (env : ℕ → GiftIn) (hbusy : g.busy = false)
    (hstart : (env 0).start = true) :
    (∀ n, 0 < n → n ≤ 41 → (run Gift.step env g n).busy = decide (n < 41)
        ∧ (run Gift.step env g n).done = decide (n = 41))
      ∧ (run Gift.step env g 41).ciphertext = Spec.gift128 (env 0).key (env 0).plaintext
      ∧ (run Gift.step env g 42).done = false
      ∧ ∀ n, (∀ k, 41 ≤ k → k ≤ 41 + n → (env k).start = false) →
        (run Gift.step env g (41 + (n + 1))).busy = false
          ∧ (run Gift.step env g (41 + (n + 1))).done = false
          ∧ (run Gift.step env g (41 + (n + 1))).ciphertext =
            Spec.gift128 (env 0).key (env 0).plaintext := by
  have hrun : ∀ n ≤ 40, run Gift.step env g (n + 1) =
      engineAfter (env 0).key (env 0).plaintext g.ciphertext n :=
    fun n hn => run_engineAfter hbusy hstart hn
  have hend : (run Gift.step env g 41).busy = false := by
    rw [hrun 40 le_rfl]
    exact (engineAfter_rounds _ _ _ le_rfl).2.2.2.1
  have hblock : (run Gift.step env g 41).ciphertext = Spec.gift128 (env 0).key (env 0).plaintext := by
    rw [hrun 40 le_rfl]
    exact engineAfter_done _ _ _
  refine ⟨?_, hblock, ?_, ?_⟩
  · intro n hpos hn
    obtain ⟨m, rfl⟩ : ∃ m, n = m + 1 := ⟨n - 1, by omega⟩
    obtain ⟨-, -, -, hb, hd⟩ := engineAfter_rounds (env 0).key (env 0).plaintext g.ciphertext
      (show m ≤ 40 by omega)
    rw [hrun m (by omega), hb, hd]
    exact ⟨decide_eq_decide.2 (by omega), decide_eq_decide.2 (by omega)⟩
  · show (Gift.step (env 41) (run Gift.step env g 41)).done = false
    generalize run Gift.step env g 41 = h at hend
    rw [Gift.step, hend]
    cases (env 41).start <;> rfl
  · intro n hquiet
    rw [run_add, run_engine_rest hend fun k hk => hquiet (41 + k) (by omega) (by omega)]
    exact ⟨hend, rfl, hblock⟩

theorem engine_computes_gift128_zero :
    (run Gift.step (fun n => ⟨n == 0, 0, 0⟩) default 41).ciphertext = Spec.gift128 0 0 :=
  (engine_computes_gift128 default (fun n => ⟨n == 0, 0, 0⟩) rfl rfl).2.1

end PicoSoc.GiftCofb
