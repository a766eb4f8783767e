import PicoSoc.Library.Clocked

set_option autoImplicit false

/-! # Where a run leads

A run shows a list of events in every cycle, and some of its cycles are marked. `Leads` goes from a
cycle to a later one without a marked cycle between, and says what is shown on the way. Stretches
compose; a state that is kept until a signal comes leads to the signal. -/

namespace Clocked

variable {ε : Type} {out : ℕ → List ε} {mark : ℕ → Prop}

/-- What the cycles `n … m - 1` show. -/
def shown (out : ℕ → List ε) (n m : ℕ) : List ε := (List.range' n (m - n)).flatMap out

@[simp] theorem shown_self (n : ℕ) : shown out n n = [] := by
  rw [shown, Nat.sub_self]
  rfl

theorem shown_succ {n m : ℕ} (h : n ≤ m) : shown out n (m + 1) = shown out n m ++ out m := by
  rw [shown, Nat.succ_sub h, List.range'_1_concat, List.flatMap_append, List.flatMap_singleton,
    Nat.add_sub_cancel' h, shown]

theorem shown_append {n m k : ℕ} (h : n ≤ m) (hk : m ≤ k) :
    shown out n m ++ shown out m k = shown out n k := by
  induction k, hk using Nat.le_induction with
  | base => rw [shown_self, List.append_nil]
  | succ k hk ih => rw [shown_succ hk, shown_succ (h.trans hk), ← ih, List.append_assoc]

theorem shown_extends {n m k : ℕ} (h : n ≤ m) (hk : m ≤ k) : shown out n m <+: shown out n k :=
  ⟨shown out m k, shown_append h hk⟩

theorem shown_one (n : ℕ) : shown out n (n + 1) = out n := by
  rw [shown_succ le_rfl, shown_self, List.nil_append]

/-- From cycle `n` a cycle with `P` is reached, with `l` shown and no marked cycle before it. -/
def Leads (out : ℕ → List ε) (mark : ℕ → Prop) (n : ℕ) (l : List ε) (P : ℕ → Prop) : Prop :=
  ∃ m, n ≤ m ∧ P m ∧ (∀ j, n ≤ j → j < m → ¬mark j) ∧ shown out n m = l

variable {n : ℕ} {l l' : List ε} {P Q W : ℕ → Prop}

theorem Leads.here (h : P n) : Leads out mark n [] P :=
  ⟨n, le_rfl, h, fun _ hj hjn => absurd hjn (by omega), shown_self n⟩

theorem Leads.trans (h : Leads out mark n l Q) (hP : ∀ m, Q m → Leads out mark m l' P) :
    Leads out mark n (l ++ l') P := by
  obtain ⟨m, hnm, hQ, hmark, rfl⟩ := h
  obtain ⟨k, hmk, hPk, hmark', rfl⟩ := hP m hQ
  refine ⟨k, hnm.trans hmk, hPk, fun j hj hjk => ?_, (shown_append hnm hmk).symm⟩
  rcases Nat.lt_or_ge j m with hlt | hge
  · exact hmark j hj hlt
  · exact hmark' j hge hjk

theorem Leads.mono (h : Leads out mark n l P) (hPQ : ∀ m, P m → Q m) : Leads out mark n l Q := by
  obtain ⟨m, hnm, hP, hrest⟩ := h
  exact ⟨m, hnm, hPQ m hP, hrest⟩

/-- What holds from the cycle that is reached holds after what is shown up to it. -/
theorem Leads.reached (h : Leads out mark n l Q) :
    ∃ m, Q m ∧ ∀ {l' P}, Leads out mark m l' P → Leads out mark n (l ++ l') P := by
  obtain ⟨m, hnm, hQ, hrest⟩ := h
  have hm : Leads out mark n l fun k => k = m := ⟨m, hnm, rfl, hrest⟩
  exact ⟨m, hQ, fun hP => hm.trans fun k hk => hk ▸ hP⟩

/-- One cycle. -/
theorem Leads.next (hmark : ¬mark n) (hP : P (n + 1)) : Leads out mark n (out n) P := by
  refine ⟨n + 1, by omega, hP, fun j hj hjn => ?_, shown_one n⟩
  obtain rfl : j = n := by omega
  exact hmark

/-- A cycle that shows nothing, and what comes after it. -/
theorem Leads.quiet (hmark : ¬mark n) (hout : out n = []) (h : Leads out mark (n + 1) l P) :
    Leads out mark n l P := by
  have hnext : Leads out mark n (out n) fun m => m = n + 1 := .next hmark rfl
  rw [hout] at hnext
  exact hnext.trans fun m hm => hm ▸ h

/-- A state that stays until the signal comes, and shows nothing. -/
theorem Leads.wait {R : ℕ → Prop} (hW : W n) (hfair : ∀ m, W m → ∃ k, m ≤ k ∧ R k)
    (hstay : ∀ m, W m → ¬R m → W (m + 1) ∧ ¬mark m ∧ out m = []) :
    Leads out mark n [] fun m => W m ∧ R m := by
  obtain ⟨k, hk, hready⟩ := hfair n hW
  obtain ⟨d, rfl⟩ : ∃ d, k = n + d := ⟨k - n, by omega⟩
  clear hk
  induction d generalizing n with
  | zero => exact .here ⟨hW, hready⟩
  | succ d ih =>
      by_cases hr : R n
      · exact .here ⟨hW, hr⟩
      · obtain ⟨hW', hmark, hout⟩ := hstay n hW hr
        have hready' : R (n + 1 + d) := by
          rw [Nat.add_right_comm]
          exact hready
        exact .quiet hmark hout (ih hW' hready')

/-! ## Marked cycles in order -/

/-- Where one kind of marked cycle leads to the next, these are all of them, in order. -/
theorem exists_marks {L : ℕ → ℕ → Prop} (hmark : ∀ k n, L k n → mark n)
    (hfirst : ∃ l, Leads out mark 0 l (L 0))
    (hnext : ∀ k n, L k n → ∃ l, Leads out mark (n + 1) l (L (k + 1))) :
    ∃ t : ℕ → ℕ, StrictMono t ∧ (∀ k, L k (t k)) ∧ ∀ n, mark n ↔ ∃ k, t k = n := by
  obtain ⟨l, n₀, -, hL₀, hbefore, -⟩ := hfirst
  have hstep (k : ℕ) (x : { n // L k n }) :
      ∃ y : { n // L (k + 1) n }, x.1 < y.1 ∧ ∀ j, x.1 < j → j < y.1 → ¬mark j := by
    obtain ⟨l, m, hm, hL, hnone, -⟩ := hnext k x.1 x.2
    exact ⟨⟨m, hL⟩, Nat.lt_of_succ_le hm, fun j hj hjm => hnone j hj hjm⟩
  choose f hlt hnone using hstep
  let t : ∀ k, { n // L k n } := fun k => Nat.rec ⟨n₀, hL₀⟩ f k
  have hmono : StrictMono fun k => (t k).1 := strictMono_nat_of_lt_succ fun k => hlt k (t k)
  refine ⟨fun k => (t k).1, hmono, fun k => (t k).2, fun n => ⟨fun hn => ?_, ?_⟩⟩
  · -- by the first of these cycles that is later than `n`
    have hall (k : ℕ) (hk : n < (t k).1) : ∃ j, (t j).1 = n := by
      induction k with
      | zero => exact absurd hn (hbefore n (Nat.zero_le n) hk)
      | succ k ih =>
        obtain hlt' | heq | hgt := Nat.lt_trichotomy n (t k).1
        · exact ih hlt'
        · exact ⟨k, heq.symm⟩
        · exact absurd hn (hnone k (t k) n hgt hk)
    exact hall (n + 1) (Nat.lt_of_lt_of_le (Nat.lt_succ_self n) (hmono.id_le (n + 1)))
  · rintro ⟨k, rfl⟩
    exact hmark k _ (t k).2

end Clocked
