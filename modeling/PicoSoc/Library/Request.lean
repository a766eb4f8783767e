import PicoSoc.Library.Clocked

set_option autoImplicit false

/-! # Requests that wait for their answer

A unit takes a request from its inputs and answers it some cycles later by raising `ready`. The
requester holds a request until the answer and then pauses for at least a cycle. Two facts about the
unit give the whole run: `Server.rest` (a resting unit stays so without a request) and
`Server.serve` (one request, from rest to its answer and the rest after it). -/

namespace Clocked

variable {σ ι : Type}

/-- The ports of a unit: a request is at the inputs, the answer is at the outputs, and the answer is
    `good` for the request. -/
structure Port (σ ι : Type) where
  valid : ι → Bool
  ready : σ → Bool
  good : ι → σ → Prop

/-- The requester: a request and its operands are held until `ready` and then taken away. -/
def Port.Held (P : Port σ ι) (step : ι → σ → σ) (env : ℕ → ι) (s : σ) : Prop :=
  ∀ n, P.valid (env n) = true →
    if P.ready (run step env s n) then P.valid (env (n + 1)) = false else env (n + 1) = env n

/-- Cycle `n` is the first of a request. -/
def Port.Begins (P : Port σ ι) (env : ℕ → ι) (n : ℕ) : Prop :=
  P.valid (env n) = true ∧ ∀ u, n = u + 1 → P.valid (env u) = false

/-- The request at cycle `p` lasts to cycle `m`; it is answered there and in no cycle before. -/
structure Port.Answered (P : Port σ ι) (step : ι → σ → σ) (env : ℕ → ι) (s : σ) (p m : ℕ) :
    Prop where
  le : p ≤ m
  held : ∀ k, p ≤ k → k ≤ m → env k = env p
  ready : ∀ k, p ≤ k → k ≤ m → (P.ready (run step env s k) = true ↔ k = m)
  good : P.good (env p) (run step env s m)
  released : P.valid (env (m + 1)) = false

/-- Every request is answered exactly once, and nothing else is answered. -/
structure Port.AnsweredOnce (P : Port σ ι) (step : ι → σ → σ) (env : ℕ → ι) (s : σ) : Prop where
  answered : ∀ p, P.Begins env p → ∃ m, P.Answered step env s p m
  requested : ∀ k, P.ready (run step env s k) = true → P.valid (env k) = true

/-- What a unit does with the requests that satisfy `ok`. -/
structure Port.Server (P : Port σ ι) (step : ι → σ → σ) (ok : ι → Prop) (rests : σ → Prop) :
    Prop where
  quiet : ∀ s, rests s → P.ready s = false
  rest : ∀ s i, rests s → P.valid i = false → rests (step i s)
  serve : ∀ s i, rests s → ok i → ∃ n,
    (∀ k < n, P.ready ((step i)^[k] s) = false) ∧ P.ready ((step i)^[n] s) = true
      ∧ P.good i ((step i)^[n] s) ∧ P.ready (step i ((step i)^[n] s)) = false
      ∧ ∀ j, P.valid j = false → rests (step j (step i ((step i)^[n] s)))

section

variable {P : Port σ ι} {step : ι → σ → σ} {ok : ι → Prop} {rests : σ → Prop} {env : ℕ → ι} {s : σ}

/-- As long as a request is not answered, it is held. -/
theorem Port.Held.run_eq (h : P.Held step env s) {p n : ℕ} (hv : P.valid (env p) = true)
    (hlow : ∀ k < n, P.ready ((step (env p))^[k] (run step env s p)) = false) :
    ∀ k ≤ n, env (p + k) = env p
      ∧ run step env s (p + k) = (step (env p))^[k] (run step env s p) := by
  intro k hk
  induction k with
  | zero => exact ⟨rfl, rfl⟩
  | succ k ih =>
      obtain ⟨henv, hrun⟩ := ih (by omega)
      have hnext := h (p + k) (by rwa [henv])
      rw [hrun, hlow k (by omega), if_neg (by simp), henv] at hnext
      refine ⟨hnext, ?_⟩
      rw [← Nat.add_assoc, run_succ, hrun, henv, Function.iterate_succ_apply']

/-- A resting unit, and no request before. -/
def Port.Fresh (P : Port σ ι) (step : ι → σ → σ) (rests : σ → Prop) (env : ℕ → ι) (s : σ) (n : ℕ) :
    Prop :=
  rests (run step env s n) ∧ ∀ u, n = u + 1 → P.valid (env u) = false

/-- One request. -/
theorem Port.Server.answered (h : P.Server step ok rests) (hheld : P.Held step env s) {p : ℕ}
    (hfresh : P.Fresh step rests env s p) (hv : P.valid (env p) = true) (hok : ok (env p)) :
    ∃ m, P.Answered step env s p m ∧ P.ready (run step env s (m + 1)) = false
      ∧ P.Fresh step rests env s (m + 2) := by
  obtain ⟨n, hlow, hhigh, hgood, hafter, hrests⟩ := h.serve _ _ hfresh.1 hok
  have hrun := hheld.run_eq hv hlow
  obtain ⟨henv, hlast⟩ := hrun n le_rfl
  have hreleased := hheld (p + n) (by rwa [henv])
  rw [hlast, hhigh, if_pos rfl] at hreleased
  have hsucc : run step env s (p + n + 1)
      = step (env p) ((step (env p))^[n] (run step env s p)) := by
    rw [run_succ, hlast, henv]
  refine ⟨p + n, ⟨by omega, ?_, ?_, by rwa [hlast], hreleased⟩, by rwa [hsucc], ?_, ?_⟩
  · intro k hpk hkn
    obtain ⟨d, rfl⟩ := Nat.exists_eq_add_of_le hpk
    exact (hrun d (by omega)).1
  · intro k hpk hkn
    obtain ⟨d, rfl⟩ := Nat.exists_eq_add_of_le hpk
    rw [(hrun d (by omega)).2]
    rcases Nat.lt_or_eq_of_le (show d ≤ n by omega) with hd | rfl
    · rw [hlow d hd]
      exact ⟨fun h => absurd h (by simp), fun h => absurd h (by omega)⟩
    · exact ⟨fun _ => rfl, fun _ => hhigh⟩
  · rw [run_succ, hsucc]
    exact hrests _ hreleased
  · intro u hu
    obtain rfl : u = p + n + 1 := by omega
    exact hreleased

/-- Every cycle is at rest, or belongs to a request or to the pause after it. -/
theorem Port.Server.cover (h : P.Server step ok rests) (hheld : P.Held step env s)
    (hok : ∀ n, P.valid (env n) = true → ok (env n)) (hs : rests s) (n : ℕ) :
    P.Fresh step rests env s n ∨ ∃ p m, P.Answered step env s p m ∧ P.valid (env p) = true
      ∧ P.ready (run step env s (m + 1)) = false ∧ P.Fresh step rests env s (m + 2)
      ∧ p < n ∧ n ≤ m + 1 := by
  induction n with
  | zero => exact .inl ⟨hs, fun u hu => absurd hu (by omega)⟩
  | succ n ih =>
      rcases ih with hfresh | ⟨p, m, hans, hv, hlow, hnext, hpn, hnm⟩
      · cases hv : P.valid (env n)
        · refine .inl ⟨h.rest _ _ hfresh.1 hv, fun u hu => ?_⟩
          obtain rfl : u = n := by omega
          exact hv
        · obtain ⟨m, hans, hlow, hnext⟩ := h.answered hheld hfresh hv (hok n hv)
          have hnm := hans.le
          exact .inr ⟨n, m, hans, hv, hlow, hnext, by omega, by omega⟩
      · rcases Nat.lt_or_eq_of_le hnm with hlt | rfl
        · exact .inr ⟨p, m, hans, hv, hlow, hnext, by omega, by omega⟩
        · exact .inl hnext

/-- From rest every request is answered once. -/
theorem Port.Server.answeredOnce (h : P.Server step ok rests) (hheld : P.Held step env s)
    (hok : ∀ n, P.valid (env n) = true → ok (env n)) (hs : rests s) :
    P.AnsweredOnce step env s := by
  constructor
  · rintro p ⟨hv, hbefore⟩
    rcases h.cover hheld hok hs p with hfresh | ⟨q, m, hans, hvq, -, -, hqp, hpm⟩
    · obtain ⟨m, hans, -⟩ := h.answered hheld hfresh hv (hok p hv)
      exact ⟨m, hans⟩
    · obtain ⟨u, rfl⟩ : ∃ u, p = u + 1 := ⟨p - 1, by omega⟩
      have hu := hans.held u (by omega) (by omega)
      rw [← hu, hbefore u rfl] at hvq
      cases hvq
  · intro k hk
    rcases h.cover hheld hok hs k with hfresh | ⟨q, m, hans, hvq, hlow, -, hqk, hkm⟩
    · rw [h.quiet _ hfresh.1] at hk
      cases hk
    · rcases Nat.lt_or_eq_of_le hkm with hlt | rfl
      · rwa [hans.held k (by omega) (by omega)]
      · rw [hlow] at hk
        cases hk

end

end Clocked
