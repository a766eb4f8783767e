import PicoSoc.Library.Clocked

set_option autoImplicit false

/-! # The reset button

`resetn_sync` samples the button and `reset_cnt` counts from 0 to 63, where `resetn` is released. A
sample that is low restarts the counter only at 63. -/

namespace PicoSoc.System

/-- The registers of the power-on reset. -/
structure ButtonReset where
  resetCnt : BitVec 6
  resetnSync : BitVec 3
  deriving DecidableEq

namespace ButtonReset

/-- `&reset_cnt` -/
def resetn (s : ButtonReset) : Bool := s.resetCnt == ~~~0#6

/-- `resetn_sync[2]` -/
def sync (s : ButtonReset) : Bool := s.resetnSync.getLsbD 2

/-- The clock edge with `resetn_btn` at the pin. -/
def step (btn : Bool) (s : ButtonReset) : ButtonReset where
  resetCnt :=
    if !s.sync && s.resetn then 0
    else if !s.resetn then s.resetCnt + 1
    else s.resetCnt
  resetnSync := s.resetnSync.extractLsb' 0 2 ++ BitVec.ofBool btn

/-- The registers at power-on. -/
def init : ButtonReset := ⟨0, 0⟩

/-- The registers in cycle `n`. -/
def cycle (btn : ℕ → Bool) (n : ℕ) : ButtonReset := Clocked.run step btn init n

/-- A held reset stays a reset, and a released one is released once. -/
structure Lawful (btn : ℕ → Bool) : Prop where
  held : ∀ n, (cycle btn n).sync = false → (cycle btn (n + 1)).resetn = false
  stays : ∀ n, (cycle btn n).sync = true → (cycle btn n).resetn = true →
    (cycle btn (n + 1)).resetn = true
  rises : ∀ n, (∀ k < 63, (cycle btn (n + k)).sync = true) → (cycle btn (n + 63)).resetn = true

/-! ## The counter -/

variable (s : ButtonReset) (b : Bool)

theorem resetn_iff : s.resetn = true ↔ s.resetCnt = 63 := beq_iff_eq

/-- It counts, unless it is full. -/
theorem resetCnt_count (h : s.resetCnt ≠ 63) : (s.step b).resetCnt = s.resetCnt + 1 := by
  have hlow : s.resetn = false := by
    rw [← Bool.not_eq_true, resetn_iff]
    exact h
  rw [step, hlow, Bool.and_false]
  rfl

theorem resetCnt_full (h : s.resetCnt = 63) :
    (s.step b).resetCnt = if s.sync then 63 else 0 := by
  have hhigh : s.resetn = true := (resetn_iff s).2 h
  rw [step, hhigh, h]
  cases s.sync <;> rfl

/-- One low sample releases the reset, the one at 62. -/
theorem released_of_low (hsync : s.sync = false) :
    (s.step b).resetn = true ↔ s.resetCnt = 62 := by
  rw [resetn_iff]
  by_cases hfull : s.resetCnt = 63
  · rw [resetCnt_full s b hfull, hsync, hfull]
    decide
  · rw [resetCnt_count s b hfull]
    constructor
    · intro h
      have h := congrArg BitVec.toNat h
      have hlt := s.resetCnt.isLt
      apply BitVec.eq_of_toNat_eq
      rw [BitVec.toNat_add] at h
      simp only [BitVec.ofNat_eq_ofNat, BitVec.toNat_ofNat] at h ⊢
      omega
    · intro h
      rw [h]
      decide

section

variable (btn : ℕ → Bool)

theorem cycle_succ (n : ℕ) : cycle btn (n + 1) = (cycle btn n).step (btn n) := rfl

theorem stays_released {n : ℕ} (hsync : (cycle btn n).sync = true)
    (h : (cycle btn n).resetn = true) : (cycle btn (n + 1)).resetn = true := by
  rw [resetn_iff] at h ⊢
  rw [cycle_succ, resetCnt_full _ _ h, hsync]
  rfl

/-- The count while the button is up. -/
theorem counts {n : ℕ} (k : ℕ) (hk : k ≤ 63) (hup : ∀ j < k, (cycle btn (n + j)).sync = true) :
    k ≤ (cycle btn (n + k)).resetCnt.toNat := by
  induction k with
  | zero => exact Nat.zero_le _
  | succ k ih =>
      have ih := ih (by omega) fun j hj => hup j (by omega)
      rw [← Nat.add_assoc, cycle_succ]
      by_cases hfull : (cycle btn (n + k)).resetCnt = 63
      · rw [resetCnt_full _ _ hfull, hup k (by omega)]
        exact hk
      · have hlt := (cycle btn (n + k)).resetCnt.isLt
        have hne : (cycle btn (n + k)).resetCnt.toNat ≠ 63 := fun h =>
          hfull (BitVec.eq_of_toNat_eq h)
        rw [resetCnt_count _ _ hfull, BitVec.toNat_add]
        simp only [BitVec.ofNat_eq_ofNat, BitVec.toNat_ofNat]
        omega

theorem rises_released {n : ℕ} (hup : ∀ k < 63, (cycle btn (n + k)).sync = true) :
    (cycle btn (n + 63)).resetn = true := by
  have hcount := counts btn 63 le_rfl hup
  have hlt := (cycle btn (n + 63)).resetCnt.isLt
  rw [resetn_iff]
  apply BitVec.eq_of_toNat_eq
  show _ = 63
  omega

theorem lawful_of_counts (h : ∀ n, (cycle btn n).sync = false → (cycle btn n).resetCnt ≠ 62) :
    Lawful btn := by
  refine ⟨fun n hsync => ?_, fun n => stays_released btn, fun n => rises_released btn⟩
  rw [← Bool.not_eq_true, cycle_succ, released_of_low _ _ hsync]
  exact h n hsync

variable {btn}

theorem Lawful.counts (h : Lawful btn) (n : ℕ) (hsync : (cycle btn n).sync = false) :
    (cycle btn n).resetCnt ≠ 62 := by
  intro hcnt
  have hlow := h.held n hsync
  rw [cycle_succ, (released_of_low _ _ hsync).2 hcnt] at hlow
  exact absurd hlow (by decide)

end

/-- The reset is released under a held button exactly when a low sample meets the count 62. -/
theorem lawful_iff (btn : ℕ → Bool) :
    Lawful btn ↔ ∀ n, (cycle btn n).sync = false → (cycle btn n).resetCnt ≠ 62 :=
  ⟨Lawful.counts, lawful_of_counts btn⟩

/-- The button held from power-on. -/
theorem not_lawful_held : ¬Lawful fun _ => false := by
  intro h
  exact absurd (h.held 62 (by decide +kernel)) (by decide +kernel)

/-! ## The samples of the button -/

section

variable (btn : ℕ → Bool)

/-- `resetn_sync[2]` in cycle `n`: the button three cycles before, low at power-on. -/
def sample (n : ℕ) : Bool := decide (3 ≤ n) && btn (n - 3)

/-- The cycles in which the counter starts: at power-on, and after the first low sample from 63
    cycles after a start on. -/
inductive Restart : ℕ → Prop
  | powerOn : Restart 0
  | low {r t : ℕ} (hr : Restart r) (hfull : r + 63 ≤ t)
      (hhigh : ∀ u, r + 63 ≤ u → u < t → sample btn u = true) (hlow : sample btn t = false) :
      Restart (t + 1)

theorem step_resetnSync (b : Bool) (s : ButtonReset) :
    (s.step b).resetnSync.getLsbD 0 = b
      ∧ (s.step b).resetnSync.getLsbD 1 = s.resetnSync.getLsbD 0
      ∧ (s.step b).resetnSync.getLsbD 2 = s.resetnSync.getLsbD 1 := by
  refine ⟨?_, ?_, ?_⟩ <;>
    exact (BitVec.getLsbD_append ..).trans (by simp)

theorem sync_cycle (n : ℕ) : (cycle btn n).sync = sample btn n := by
  have hlow : ∀ i, init.resetnSync.getLsbD i = false := fun _ => BitVec.getLsbD_zero
  match n with
  | 0 => exact hlow 2
  | 1 =>
      rw [sync, cycle_succ, (step_resetnSync _ _).2.2]
      exact hlow 1
  | 2 =>
      rw [sync, cycle_succ, (step_resetnSync _ _).2.2, cycle_succ, (step_resetnSync _ _).2.1]
      exact hlow 0
  | n + 3 =>
      rw [sync, cycle_succ, (step_resetnSync _ _).2.2, cycle_succ, (step_resetnSync _ _).2.1,
        cycle_succ, (step_resetnSync _ _).1, sample, decide_eq_true (by omega), Bool.true_and,
        Nat.add_sub_cancel]

/-- The counter since its last start. -/
theorem exists_restart (n : ℕ) : ∃ r, Restart btn r ∧ r ≤ n
    ∧ (cycle btn n).resetCnt.toNat = min (n - r) 63
    ∧ ∀ u, r + 63 ≤ u → u < n → sample btn u = true := by
  induction n with
  | zero => exact ⟨0, .powerOn, le_rfl, rfl, fun u _ hu => absurd hu (Nat.not_lt_zero u)⟩
  | succ n ih =>
      obtain ⟨r, hr, hrn, hcnt, hhigh⟩ := ih
      rw [cycle_succ]
      by_cases hfull : (cycle btn n).resetCnt = 63
      · rw [hfull] at hcnt
        have hcnt : 63 = min (n - r) 63 := hcnt
        rw [resetCnt_full _ _ hfull, sync_cycle]
        cases hs : sample btn n with
        | false =>
            refine ⟨n + 1, .low hr (by omega) hhigh hs, le_rfl, ?_, fun u hu hun => by omega⟩
            rw [Nat.sub_self]
            rfl
        | true =>
            refine ⟨r, hr, by omega, ?_, fun u hu hun => ?_⟩
            · show 63 = min (n + 1 - r) 63
              omega
            · rcases Nat.lt_succ_iff_lt_or_eq.1 hun with hlt | rfl
              · exact hhigh u hu hlt
              · exact hs
      · have hlt := (cycle btn n).resetCnt.isLt
        have hne : (cycle btn n).resetCnt.toNat ≠ 63 := fun h => hfull (BitVec.eq_of_toNat_eq h)
        refine ⟨r, hr, by omega, ?_, fun u hu hun => by omega⟩
        rw [resetCnt_count _ _ hfull, BitVec.toNat_add, hcnt]
        simp only [BitVec.ofNat_eq_ofNat, BitVec.toNat_ofNat]
        omega

variable {btn}

theorem resetCnt_of_zero {n : ℕ} (h : (cycle btn n).resetCnt = 0) {k : ℕ} (hk : k ≤ 63) :
    (cycle btn (n + k)).resetCnt.toNat = k := by
  induction k with
  | zero =>
      rw [Nat.add_zero, h]
      rfl
  | succ k ih =>
      have ih := ih (by omega)
      have hne : (cycle btn (n + k)).resetCnt ≠ 63 := by
        intro hfull
        rw [hfull] at ih
        have ih : 63 = k := ih
        omega
      rw [← Nat.add_assoc, cycle_succ, resetCnt_count _ _ hne, BitVec.toNat_add, ih]
      exact Nat.mod_eq_of_lt (show k + 1 < 64 by omega)

theorem released_while_high {n t : ℕ} (h : (cycle btn n).resetn = true) (hnt : n ≤ t)
    (hhigh : ∀ u, n ≤ u → u < t → sample btn u = true) : (cycle btn t).resetn = true := by
  induction t, hnt using Nat.le_induction with
  | base => exact h
  | succ t hnt ih =>
      have hsync : (cycle btn t).sync = true := (sync_cycle btn t).trans (hhigh t hnt (by omega))
      exact stays_released btn hsync (ih fun u hu hut => hhigh u hu (by omega))

theorem Restart.resetCnt {r : ℕ} (hr : Restart btn r) : (cycle btn r).resetCnt = 0 := by
  induction hr with
  | powerOn => rfl
  | low _ hfull hhigh hlow ih =>
      have h63 : (cycle btn (_ + 63)).resetn = true :=
        (resetn_iff _).2 (BitVec.eq_of_toNat_eq (resetCnt_of_zero ih le_rfl))
      have ht := (resetn_iff _).1 (released_while_high h63 hfull hhigh)
      rw [cycle_succ, resetCnt_full _ _ ht, sync_cycle, hlow]
      rfl

/-- On the samples alone: 62 cycles after each start of the counter the button is up. -/
theorem lawful_iff_samples : Lawful btn ↔ ∀ r, Restart btn r → sample btn (r + 62) = true := by
  constructor
  · intro h r hr
    by_contra hlow
    refine h.counts (r + 62) ?_ (BitVec.eq_of_toNat_eq (resetCnt_of_zero hr.resetCnt (by decide)))
    rw [sync_cycle]
    exact Bool.eq_false_iff.2 hlow
  · intro h
    refine lawful_of_counts btn fun n hsync hcnt => ?_
    obtain ⟨r, hr, hrn, hcount, -⟩ := exists_restart btn n
    rw [hcnt] at hcount
    have hcount : 62 = min (n - r) 63 := hcount
    have hn : n = r + 62 := by omega
    rw [sync_cycle, hn, h r hr] at hsync
    cases hsync

end

end ButtonReset

end PicoSoc.System
