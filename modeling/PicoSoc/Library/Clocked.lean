import Mathlib.Tactic

set_option autoImplicit false

/-! # Clocked circuits

A synchronous circuit is a next-state function `step : ι → σ → σ` from the inputs of one clock cycle
and the registers before the clock edge to the registers after it. `run` clocks it along an input
stream. Two rules carry every result about such a circuit: `Reachable.invariant` (what one edge
preserves holds of every reachable state) and `Path.run` (a stretch of cycles whose outcome does
not depend on the inputs that are left free). -/

namespace Clocked

variable {σ ι : Type}

/-! ## Runs -/

/-- The registers after `n` clock edges, cycle `k` seeing the inputs `env k`. -/
def run (step : ι → σ → σ) (env : ℕ → ι) (s : σ) : ℕ → σ
  | 0 => s
  | n + 1 => step (env n) (run step env s n)

@[simp] theorem run_zero (step : ι → σ → σ) (env : ℕ → ι) (s : σ) : run step env s 0 = s := rfl

theorem run_succ (step : ι → σ → σ) (env : ℕ → ι) (s : σ) (n : ℕ) :
    run step env s (n + 1) = step (env n) (run step env s n) := rfl

theorem run_add (step : ι → σ → σ) (env : ℕ → ι) (s : σ) (m n : ℕ) :
    run step env s (m + n) = run step (fun k => env (m + k)) (run step env s m) n := by
  induction n with
  | zero => rfl
  | succ n ih => rw [← Nat.add_assoc, run_succ, run_succ, ih]

/-- The first cycle of a run split off. -/
theorem run_succ_head (step : ι → σ → σ) (env : ℕ → ι) (s : σ) (n : ℕ) :
    run step env s (n + 1) = run step (fun k => env (k + 1)) (step (env 0) s) n := by
  rw [Nat.add_comm n 1, run_add]
  simp only [run_succ, run_zero, Nat.add_comm 1]

/-! ## Reachable states -/

/-- States reached from an initial one by clock edges whose inputs satisfy `ok`. -/
inductive Reachable (step : ι → σ → σ) (init : σ → Prop) (ok : ι → Prop) : σ → Prop
  | init {s : σ} (h : init s) : Reachable step init ok s
  | step {s : σ} {i : ι} (h : Reachable step init ok s) (hi : ok i) :
      Reachable step init ok (step i s)

theorem Reachable.invariant {step : ι → σ → σ} {init : σ → Prop} {ok : ι → Prop} {inv : σ → Prop}
    (hinit : ∀ s, init s → inv s) (hstep : ∀ s i, ok i → inv s → inv (step i s)) {s : σ}
    (h : Reachable step init ok s) : inv s := by
  induction h with
  | init h => exact hinit _ h
  | step _ hi ih => exact hstep _ _ hi ih

theorem Reachable.run {step : ι → σ → σ} {init : σ → Prop} {ok : ι → Prop} {s : σ} {env : ℕ → ι}
    (h : Reachable step init ok s) (henv : ∀ k, ok (env k)) (n : ℕ) :
    Reachable step init ok (Clocked.run step env s n) := by
  induction n with
  | zero => exact h
  | succ n ih => exact .step ih (henv n)

/-! ## Paths: stretches of a run that the free inputs do not influence -/

/-- `Path step ok quiet n s t`: whatever inputs satisfying `ok` arrive, `n` clock edges lead from
    `s` to `t`, and every state after `s` up to and including `t` is `quiet`. -/
inductive Path (step : ι → σ → σ) (ok : ι → Prop) (quiet : σ → Prop) : ℕ → σ → σ → Prop
  | refl (s : σ) : Path step ok quiet 0 s s
  | head {n : ℕ} {s t u : σ} (hst : ∀ i, ok i → step i s = t) (hq : quiet t)
      (h : Path step ok quiet n t u) : Path step ok quiet (n + 1) s u

variable {step : ι → σ → σ} {ok : ι → Prop} {quiet : σ → Prop}

theorem Path.single {s t : σ} (hst : ∀ i, ok i → step i s = t) (hq : quiet t) :
    Path step ok quiet 1 s t :=
  .head hst hq (.refl t)

theorem Path.trans {m n : ℕ} {s t u : σ} (h₁ : Path step ok quiet m s t)
    (h₂ : Path step ok quiet n t u) : Path step ok quiet (m + n) s u := by
  induction h₁ with
  | refl s => simpa using h₂
  | @head k _ _ _ hst hq _ ih =>
      rw [Nat.add_right_comm]
      exact .head hst hq (ih h₂)

/-- A loop: `f j` is the state before its `j`-th iteration. -/
theorem Path.loop (f : ℕ → σ) (m : ℕ) (hst : ∀ j < m, ∀ i, ok i → step i (f j) = f (j + 1))
    (hq : ∀ j < m, quiet (f (j + 1))) : Path step ok quiet m (f 0) (f m) := by
  induction m with
  | zero => exact .refl _
  | succ m ih =>
      have hhead := ih (fun j hj => hst j (by omega)) (fun j hj => hq j (by omega))
      exact hhead.trans (.single (hst m (by omega)) (hq m (by omega)))

/-- A path with its length restated. -/
theorem Path.cast {m n : ℕ} {s t : σ} (h : Path step ok quiet m s t) (hmn : m = n) :
    Path step ok quiet n s t :=
  hmn ▸ h

theorem Path.run {n : ℕ} {s t : σ} (h : Path step ok quiet n s t) (env : ℕ → ι)
    (henv : ∀ k < n, ok (env k)) :
    Clocked.run step env s n = t ∧ ∀ k, 0 < k → k ≤ n → quiet (Clocked.run step env s k) := by
  induction h generalizing env with
  | refl s => exact ⟨rfl, fun k hk hk0 => absurd hk0 (by omega)⟩
  | @head n s t u hst hq _ ih =>
      have ht : step (env 0) s = t := hst _ (henv 0 (by omega))
      obtain ⟨hend, hbetween⟩ := ih (fun k => env (k + 1)) (fun k hk => henv _ (by omega))
      refine ⟨by rw [run_succ_head, ht, hend], ?_⟩
      intro k hk hkn
      obtain ⟨j, rfl⟩ : ∃ j, k = j + 1 := ⟨k - 1, by omega⟩
      rw [run_succ_head, ht]
      rcases Nat.eq_zero_or_pos j with rfl | hj
      · exact hq
      · exact hbetween j hj (by omega)

/-! ## Completion -/

/-- `done` is low in the cycles `1 … n - 1` after the start of the run and high in cycle `n`. -/
structure FirstDone (step : ι → σ → σ) (env : ℕ → ι) (s : σ) (done : σ → Bool) (n : ℕ) : Prop where
  pos : 0 < n
  high : done (Clocked.run step env s n) = true
  low : ∀ k, 0 < k → k < n → done (Clocked.run step env s k) = false

theorem FirstDone.unique {env : ℕ → ι} {s : σ} {done : σ → Bool} {m n : ℕ}
    (hm : FirstDone step env s done m) (hn : FirstDone step env s done n) : m = n := by
  rcases Nat.lt_trichotomy m n with h | h | h
  · exact absurd hm.high (by simp [hn.low m hm.pos h])
  · exact h
  · exact absurd hn.high (by simp [hm.low n hn.pos h])

/-- The first `m` cycles, when they leave `done` low, only delay completion. -/
theorem FirstDone.delay {env : ℕ → ι} {s : σ} {done : σ → Bool} {m n : ℕ}
    (hlow : ∀ k, 0 < k → k ≤ m → done (Clocked.run step env s k) = false)
    (h : FirstDone step (fun k => env (m + k)) (Clocked.run step env s m) done n) :
    FirstDone step env s done (m + n) where
  pos := Nat.lt_of_lt_of_le h.pos (Nat.le_add_left n m)
  high := by rw [run_add]; exact h.high
  low := by
    intro k hk hkn
    rcases Nat.lt_or_ge m k with hmk | hkm
    · obtain ⟨j, rfl⟩ : ∃ j, k = m + j := ⟨k - m, by omega⟩
      rw [run_add]
      exact h.low j (by omega) (by omega)
    · exact hlow k hk hkm

/-- A quiet path followed by one edge that raises `done`. -/
theorem Path.firstDone {n : ℕ} {s t : σ} {done : σ → Bool} {env : ℕ → ι}
    (h : Path step ok (fun s => done s = false) n s t) (henv : ∀ k < n, ok (env k))
    (hu : done (step (env n) t) = true) :
    Clocked.run step env s (n + 1) = step (env n) t ∧ FirstDone step env s done (n + 1) := by
  obtain ⟨hend, hquiet⟩ := h.run env henv
  have hrun : Clocked.run step env s (n + 1) = step (env n) t := by rw [run_succ, hend]
  exact ⟨hrun, ⟨by omega, by rw [hrun, hu], fun k hk hkn => hquiet k hk (by omega)⟩⟩

/-! ## One completion for each start -/

/-- After `n` cycles the device has signalled `done` for the first time and is idle again, and not
    before; from then on it stays idle, with `done` low, until it is started again. -/
structure Completes (step : ι → σ → σ) (env : ℕ → ι) (s : σ) (idle : σ → Prop) (done : σ → Bool)
    (start : ι → Bool) (n : ℕ) : Prop where
  firstDone : FirstDone step env s done n
  busy : ∀ m, 0 < m → m < n → ¬idle (Clocked.run step env s m)
  rests : ∀ m, n ≤ m → (∀ k, n ≤ k → k < m → start (env k) = false) →
    idle (Clocked.run step env s m)
  low : ∀ m, n < m → (∀ k, n ≤ k → k < m → start (env k) = false) →
    done (Clocked.run step env s m) = false

/-- What a device does in one cycle: idle it stays idle and quiet without a start, busy it becomes
    idle only by signalling `done`. -/
structure Settles (step : ι → σ → σ) (ok : ι → Prop) (inv idle : σ → Prop) (done : σ → Bool)
    (start : ι → Bool) : Prop where
  keep : ∀ s i, ok i → inv s → inv (step i s)
  rest : ∀ s i, ok i → idle s → start i = false → idle (step i s) ∧ done (step i s) = false
  accept : ∀ s i, ok i → idle s → start i = true → ¬idle (step i s)
  finish : ∀ s i, ok i → inv s → ¬idle s → idle (step i s) → done (step i s) = true

theorem Settles.completes {inv idle : σ → Prop} {done : σ → Bool} {start : ι → Bool}
    (h : Settles step ok inv idle done start) {env : ℕ → ι} {s : σ} (hok : ∀ k, ok (env k))
    (hinv : inv s) (hs : idle s) (hstart : start (env 0) = true) {n : ℕ}
    (hfirst : FirstDone step env s done n) (hidle : idle (Clocked.run step env s n)) :
    Completes step env s idle done start n := by
  have hinvs : ∀ m, inv (Clocked.run step env s m) := by
    intro m
    induction m with
    | zero => exact hinv
    | succ m ih => exact h.keep _ _ (hok m) ih
  have hrests : ∀ m, n ≤ m → (∀ k, n ≤ k → k < m → start (env k) = false) →
      idle (Clocked.run step env s m) := by
    intro m hm
    induction m, hm using Nat.le_induction with
    | base => exact fun _ => hidle
    | succ m hm ih =>
        intro hlow
        exact (h.rest _ _ (hok m) (ih fun k hk hkm => hlow k hk (by omega))
          (hlow m hm (by omega))).1
  refine ⟨hfirst, fun m hpos => ?_, hrests, fun m hm hlow => ?_⟩
  · induction m, hpos using Nat.le_induction with
    | base => exact fun _ => h.accept s (env 0) (hok 0) hs hstart
    | succ m hm ih =>
        intro hlt hnext
        have hdone := h.finish _ _ (hok m) (hinvs m) (ih (by omega)) hnext
        have hlow := hfirst.low (m + 1) (by omega) hlt
        rw [run_succ, hdone] at hlow
        cases hlow
  · obtain ⟨k, rfl⟩ : ∃ k, m = k + 1 := ⟨m - 1, by omega⟩
    exact (h.rest _ _ (hok k) (hrests k (by omega) fun j hj hjk => hlow j hj (by omega))
      (hlow k (by omega) (by omega))).2

end Clocked
