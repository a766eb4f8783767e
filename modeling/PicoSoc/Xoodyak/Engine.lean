import PicoSoc.Library.Clocked
import PicoSoc.Xoodyak.Permutation

set_option autoImplicit false

/-! # Running the Xoodoo engine

An engine at rest only applies the XORs of its inputs. From the start pulse on it makes
`roundPerCycle` rounds a cycle; after `12 / roundPerCycle` cycles it is at rest again, holds the
permuted state and has raised `state_valid_o`. -/

namespace PicoSoc.Xoodyak

open Clocked

variable {n : ℕ}

/-! ## Rest -/

/-- No permutation runs, the constants are rewound. With all twelve rounds in one cycle the
    generator is always one step from its end, and the valid flag is high at rest. -/
structure Xoodoo.Rest (n : ℕ) (e : Xoodoo) : Prop where
  running : e.running = false
  rc : e.rcStateIn = rcInit
  valid : n = 12 → e.stateValidO = true

/-- The inputs apply neither a word nor a domain. -/
structure XoodooIn.Silent (i : XoodooIn) : Prop where
  word : i.wordEnableIn = false
  domain : i.domainEnableI = false
  init : i.initReg = false

theorem stateWithXor_silent {i : XoodooIn} (hi : i.Silent) (r : XState) : stateWithXor i r = r := by
  apply Vector.ext
  intro k hk
  simp [stateWithXor, hi.word, hi.domain]

theorem rounds_snd_init (hn : n ∣ 12) (s : XState) :
    (xoodooNRounds n s rcInit).2 = rcFinal ↔ n = 12 := by
  rw [xoodooNRounds_snd, rc_final (Nat.le_of_dvd (by decide) hn)]

/-- At rest the engine applies the XORs of its inputs and stays at rest. -/
theorem Xoodoo.step_rest (hn : n ∣ 12) {e : Xoodoo} (he : e.Rest n) {i : XoodooIn}
    (hstart : i.startI = false) (hinit : i.initReg = false) :
    e.step n i = { e with regValue := stateWithXor i e.regValue } := by
  have hfinal := rounds_snd_init hn (stateWithXor i e.regValue)
  by_cases h12 : n = 12
  · have hvalid := he.valid h12
    have hlast := hfinal.2 h12
    simp [Xoodoo.step, he.running, he.rc, hstart, hinit, hlast, hvalid]
  · simp [Xoodoo.step, he.running, he.rc, hstart, hinit, hfinal, h12]

/-- Without a start pulse an idle engine comes to rest, whatever its inputs are. -/
theorem Xoodoo.rest_of_parked (hn : n ∣ 12) {e : Xoodoo} (hrun : e.running = false)
    (hrc : e.rcStateIn = rcInit) {i : XoodooIn} (hstart : i.startI = false) :
    (e.step n i).Rest n := by
  have hfinal := rounds_snd_init hn (stateWithXor i e.regValue)
  by_cases h12 : n = 12
  · have hlast := hfinal.2 h12
    refine ⟨?_, ?_, ?_⟩ <;> simp [Xoodoo.step, hrc, hlast]
  · refine ⟨?_, ?_, fun h => absurd h h12⟩ <;>
      simp [Xoodoo.step, hrun, hrc, hstart, hfinal, h12]

/-- The start of an operation clears the state. -/
theorem Xoodoo.step_init (e : Xoodoo) {i : XoodooIn} (hinit : i.initReg = true) :
    (e.step n i).regValue = Vector.replicate 12 0 := by
  simp only [Xoodoo.step, hinit, if_true]

/-! ## A permutation -/

/-- The engine `k` cycles after the start of a permutation of `s`. -/
def engineAfter (n k : ℕ) (s : XState) : Xoodoo :=
  let rounds := xoodooNRounds (n * k) s rcInit
  if n * k = 12 then
    { regValue := xoodoo12 s, rcStateIn := rcInit, running := false, stateValidO := true }
  else
    { regValue := rounds.1, rcStateIn := rounds.2, running := true, stateValidO := false }

theorem engineAfter_last {k : ℕ} (h : n * k = 12) (s : XState) :
    engineAfter n k s =
      { regValue := xoodoo12 s, rcStateIn := rcInit, running := false, stateValidO := true } := by
  rw [engineAfter, if_pos h]

/-- The finished engine is at rest. -/
theorem engineAfter_rest {k : ℕ} (h : n * k = 12) (s : XState) : (engineAfter n k s).Rest n := by
  rw [engineAfter_last h]
  exact ⟨rfl, rfl, fun _ => rfl⟩

/-- The registers after a busy cycle: `n` rounds from round `n * k` on. -/
theorem step_busy {k : ℕ} (hk : n * (k + 1) ≤ 12) {e : Xoodoo} {s : XState} {i : XoodooIn}
    (hinit : i.initReg = false) (hbusy : (i.startI || e.running) = true)
    (hreg : stateWithXor i e.regValue = (xoodooNRounds (n * k) s rcInit).1)
    (hrc : e.rcStateIn = (xoodooNRounds (n * k) s rcInit).2) :
    e.step n i = engineAfter n (k + 1) s := by
  have hrounds : xoodooNRounds n (stateWithXor i e.regValue) e.rcStateIn =
      xoodooNRounds (n * (k + 1)) s rcInit := by
    rw [hreg, hrc, Nat.mul_succ, xoodooNRounds_add]
  have hfinal : (xoodooNRounds (n * (k + 1)) s rcInit).2 = rcFinal ↔ n * (k + 1) = 12 := by
    rw [xoodooNRounds_snd, rc_final hk]
  have hbusy' : (e.running || i.startI) = true := by rw [Bool.or_comm]; exact hbusy
  by_cases h12 : n * (k + 1) = 12
  · have hlast := hfinal.2 h12
    rw [h12] at hlast hrounds
    simp only [Xoodoo.step, hrounds, hlast, hinit, hbusy', if_true, Bool.false_eq_true,
      if_false, engineAfter, h12, xoodoo12]
  · simp only [Xoodoo.step, hrounds, mt hfinal.1 h12, hinit, hbusy, hbusy', if_true,
      Bool.false_eq_true, if_false, engineAfter, h12]

/-- The start pulse makes the first `n` rounds on what is pending at the inputs. -/
theorem step_start_pending (hn : n ∣ 12) {e : Xoodoo} (hrc : e.rcStateIn = rcInit) {i : XoodooIn}
    (hinit : i.initReg = false) (hstart : i.startI = true) :
    e.step n i = engineAfter n 1 (stateWithXor i e.regValue) := by
  have hle : n * (0 + 1) ≤ 12 := by simpa using Nat.le_of_dvd (by decide) hn
  exact step_busy hle hinit (by simp [hstart]) rfl hrc

/-- The start pulse makes the first `n` rounds. -/
theorem step_start (hn : n ∣ 12) {e : Xoodoo} (he : e.Rest n) {i : XoodooIn} (hi : i.Silent)
    (hstart : i.startI = true) : e.step n i = engineAfter n 1 e.regValue := by
  rw [step_start_pending hn he.rc hi.init hstart, stateWithXor_silent hi]

/-- The engine goes on until the twelfth round. -/
theorem step_engineAfter {k : ℕ} (hk : n * (k + 1) ≤ 12) (hn : 0 < n) (s : XState)
    {i : XoodooIn} (hi : i.Silent) :
    (engineAfter n k s).step n i = engineAfter n (k + 1) s := by
  have hlt : n * k ≠ 12 := by rw [Nat.mul_succ] at hk; omega
  rw [engineAfter, if_neg hlt]
  refine step_busy hk hi.init (by simp) ?_ rfl
  exact stateWithXor_silent hi _

/-! ## Every history -/

/-- The generator follows the rounds made, whatever the inputs are. -/
structure Xoodoo.Inv (n : ℕ) (e : Xoodoo) : Prop where
  rc : ∃ k, n * k < 12 ∧ e.rcStateIn = xoodooRcNext^[n * k] rcInit ∧ (e.running = false → k = 0)

theorem Xoodoo.Inv.step (hn : n ∣ 12) {e : Xoodoo} (he : e.Inv n) (i : XoodooIn) :
    (e.step n i).Inv n := by
  obtain ⟨k, hk, hrc, hrun⟩ := he.rc
  have hnext : (xoodooNRounds n (stateWithXor i e.regValue) e.rcStateIn).2 =
      xoodooRcNext^[n * (k + 1)] rcInit := by
    rw [xoodooNRounds_snd, hrc, ← Function.iterate_add_apply, Nat.mul_succ, Nat.add_comm]
  have hle : n * (k + 1) ≤ 12 := by
    obtain ⟨m, hm⟩ := hn
    have hpos : 0 < n := by
      rcases Nat.eq_zero_or_pos n with rfl | hpos
      · omega
      · exact hpos
    rw [hm] at hk ⊢
    exact Nat.mul_le_mul_left n (Nat.lt_of_mul_lt_mul_left hk)
  by_cases h12 : n * (k + 1) = 12
  · have hlast := (rc_final hle).2 h12
    refine ⟨0, by omega, ?_, fun _ => rfl⟩
    simp only [Xoodoo.step, hnext, hlast, if_true]
    rfl
  · have hlast := mt (rc_final hle).1 h12
    by_cases hbusy : (i.startI || e.running) = true
    · refine ⟨k + 1, by omega, ?_, ?_⟩
      · simp only [Xoodoo.step, hnext, if_neg hlast, if_pos hbusy]
      · simp only [Xoodoo.step, hnext, if_neg hlast, if_pos hbusy, Bool.true_eq_false,
          false_implies]
    · refine ⟨k, hk, ?_, ?_⟩
      · simp only [Xoodoo.step, hnext, if_neg hlast, if_neg hbusy]
        exact hrc
      · simp only [Xoodoo.step, hnext, if_neg hlast, if_neg hbusy]
        exact hrun

/-- From reset on, under any inputs, an engine that does not run has its constants rewound. -/
theorem Xoodoo.rc_of_reachable (hn : n ∣ 12) {e : Xoodoo}
    (he : Reachable (Xoodoo.step n) (· = .reset) (fun _ => True) e) (hrun : e.running = false) :
    e.rcStateIn = rcInit := by
  have hinv : e.Inv n := by
    refine he.invariant ?_ fun s i _ hs => hs.step hn i
    rintro s rfl
    exact ⟨0, by omega, rfl, fun _ => rfl⟩
  obtain ⟨k, -, hrc, hzero⟩ := hinv.rc
  rw [hrc, hzero hrun]
  rfl

/-- The engine without any request. -/
theorem Xoodoo.regValue_idle (hn : n ∣ 12) {e : Xoodoo} (he : e.Rest n) {env : ℕ → XoodooIn} {m : ℕ}
    (hidle : ∀ k < m, (env k).Silent ∧ (env k).startI = false) :
    run (Xoodoo.step n) env e m = e := by
  induction m with
  | zero => rfl
  | succ m ih =>
      obtain ⟨hsilent, hstart⟩ := hidle m (by omega)
      rw [run_succ, ih fun k hk => hidle k (by omega),
        Xoodoo.step_rest hn he hstart hsilent.init, stateWithXor_silent hsilent]

/-- For every number of rounds a cycle and after every history, a start pulse on an engine that does
    not run is followed, `12 / n` cycles later, by the valid flag and the permutation of the state
    that was pending at the start; the state then stays. -/
theorem engine_computes_xoodoo (hn : n ∣ 12) (e : Xoodoo)
    (he : Reachable (Xoodoo.step n) (· = .reset) (fun _ => True) e) (hrun : e.running = false)
    (env : ℕ → XoodooIn) (hstart : (env 0).startI = true) (hinit : (env 0).initReg = false)
    (hsilent : ∀ k, 0 < k → k < 12 / n → (env k).Silent) :
    FirstDone (Xoodoo.step n) env e Xoodoo.stateValidO (12 / n)
      ∧ stateArray (run (Xoodoo.step n) env e (12 / n)).regValue =
        Spec.permute (stateArray (stateWithXor (env 0) e.regValue))
      ∧ ∀ m, (∀ k, 12 / n ≤ k → k < 12 / n + m → (env k).Silent ∧ (env k).startI = false) →
        (run (Xoodoo.step n) env e (12 / n + m)).regValue =
          (run (Xoodoo.step n) env e (12 / n)).regValue := by
  have hpos : 0 < n := Nat.pos_of_dvd_of_pos hn (by decide)
  have hmul : n * (12 / n) = 12 := Nat.mul_div_cancel' hn
  have hcycles : 0 < 12 / n := Nat.div_pos (Nat.le_of_dvd (by decide) hn) hpos
  -- `n` rounds a cycle, the first ones with the pending word
  have hafter : ∀ k, k < 12 / n → run (Xoodoo.step n) env e (k + 1) =
      engineAfter n (k + 1) (stateWithXor (env 0) e.regValue) := by
    intro k
    induction k with
    | zero => exact fun _ => step_start_pending hn (Xoodoo.rc_of_reachable hn he hrun) hinit hstart
    | succ k ih =>
        intro hk
        have hle : n * (k + 1 + 1) ≤ 12 := by
          calc n * (k + 1 + 1) ≤ n * (12 / n) := Nat.mul_le_mul_left n hk
            _ = 12 := hmul
        rw [run_succ, ih (by omega)]
        exact step_engineAfter hle hpos _ (hsilent (k + 1) (by omega) hk)
  have hend : run (Xoodoo.step n) env e (12 / n) =
      engineAfter n (12 / n) (stateWithXor (env 0) e.regValue) := by
    have h := hafter (12 / n - 1) (by omega)
    rwa [Nat.sub_add_cancel hcycles] at h
  refine ⟨⟨hcycles, ?_, ?_⟩, ?_, ?_⟩
  · rw [hend, engineAfter_last hmul]
  · intro k hk hlt
    have hlast : n * k ≠ 12 := by
      intro h
      have := Nat.eq_of_mul_eq_mul_left hpos (h.trans hmul.symm)
      omega
    obtain ⟨j, rfl⟩ : ∃ j, k = j + 1 := ⟨k - 1, by omega⟩
    rw [hafter j (by omega), engineAfter, if_neg hlast]
  · rw [hend, engineAfter_last hmul, stateArray_xoodoo12]
  · intro m hidle
    have hrest : (run (Xoodoo.step n) env e (12 / n)).Rest n := by
      rw [hend]
      exact engineAfter_rest hmul _
    rw [run_add, Xoodoo.regValue_idle hn hrest]
    exact fun k hk => hidle (12 / n + k) (by omega) (by omega)

/-- Three rounds a cycle, from reset, with a word pending at the start. -/
theorem engine_computes_xoodoo_three :
    stateArray (run (Xoodoo.step 3) (fun k => ⟨k == 0, false, 1, 2, k == 0, 0, false⟩) .reset
        4).regValue =
      Spec.permute (stateArray (stateWithXor ⟨true, false, 1, 2, true, 0, false⟩
        Xoodoo.reset.regValue)) :=
  (engine_computes_xoodoo (by decide) .reset (.init rfl) rfl
    (fun k => ⟨k == 0, false, 1, 2, k == 0, 0, false⟩) rfl rfl
    fun k hk _ => ⟨beq_eq_false_iff_ne.2 (by omega), rfl, rfl⟩).2.1

end PicoSoc.Xoodyak
