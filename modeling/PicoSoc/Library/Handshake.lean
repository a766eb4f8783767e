import Mathlib.Data.Nat.Count
import Mathlib.Tactic

set_option autoImplicit false

/-! # Signals over time

What a run shows cycle by cycle: the values a signal marks (`trace`), the rising edges of a request
(`Rise`), and the contract of a host that answers every rising edge with one acknowledge and one
block of data (`Served`). -/

namespace Clocked

/-! ## Traces -/

/-- The values that `f` has in the cycles before `n`, in order. -/
def trace {α : Type} (f : ℕ → Option α) : ℕ → List α
  | 0 => []
  | n + 1 => trace f n ++ (f n).toList

theorem trace_succ {α : Type} (f : ℕ → Option α) (n : ℕ) :
    trace f (n + 1) = trace f n ++ (f n).toList := rfl

theorem trace_succ_none {α : Type} {f : ℕ → Option α} {n : ℕ} (h : f n = none) :
    trace f (n + 1) = trace f n := by
  rw [trace_succ, h, Option.toList_none, List.append_nil]

theorem trace_succ_some {α : Type} {f : ℕ → Option α} {n : ℕ} {a : α} (h : f n = some a) :
    trace f (n + 1) = trace f n ++ [a] := by
  rw [trace_succ, h, Option.toList_some]

/-- A stretch without values adds nothing. -/
theorem trace_quiet {α : Type} {f : ℕ → Option α} {m n : ℕ} (hmn : m ≤ n)
    (h : ∀ t, m ≤ t → t < n → f t = none) : trace f n = trace f m := by
  induction n, hmn using Nat.le_induction with
  | base => rfl
  | succ n hmn ih =>
      rw [trace_succ_none (h n hmn (Nat.lt_succ_self n))]
      exact ih fun t hm hn => h t hm (by omega)

/-! ## Counting -/

theorem count_quiet {p : ℕ → Prop} [DecidablePred p] {m n : ℕ} (hmn : m ≤ n)
    (h : ∀ t, m ≤ t → t < n → ¬ p t) : Nat.count p n = Nat.count p m := by
  induction n, hmn using Nat.le_induction with
  | base => rfl
  | succ n hmn ih =>
      rw [Nat.count_succ, if_neg (h n hmn (Nat.lt_succ_self n)), Nat.add_zero]
      exact ih fun t hm hn => h t hm (by omega)

/-! ## Requests and acknowledges -/

/-- The signal is high and was low in the cycle before, if there was one. -/
def Rise (req : ℕ → Bool) (t : ℕ) : Prop :=
  req t = true ∧ ∀ u, t = u + 1 → req u = false

instance (req : ℕ → Bool) (t : ℕ) : Decidable (Rise req t) :=
  match t with
  | 0 => decidable_of_iff (req 0 = true) ⟨fun h => ⟨h, nofun⟩, fun h => h.1⟩
  | t + 1 => decidable_of_iff (req (t + 1) = true ∧ req t = false)
      ⟨fun h => ⟨h.1, fun _ hu => Nat.succ.inj hu ▸ h.2⟩, fun h => ⟨h.1, h.2 t rfl⟩⟩

/-- The rising edges up to and including cycle `t`. -/
def rises (req : ℕ → Bool) (t : ℕ) : ℕ := Nat.count (Rise req) (t + 1)

/-- The cycles before `t` in which `ack` is high. -/
def acksBefore (ack : ℕ → Bool) (t : ℕ) : ℕ := Nat.count (fun u => ack u = true) t

/-- While the run is `live`, every rising edge of `req` is answered by one cycle of `ack`, at that
    edge or later and before the next one; from the answer to the next rising edge the port shows
    the next block. Block `0` is on the port from the start. -/
structure Served {β : Type} (live : ℕ → Prop) (req ack : ℕ → Bool) (port block : ℕ → β) : Prop where
  answers : ∀ t, live t → ack t = true → acksBefore ack t < rises req t
  answered : ∀ t, live t → acksBefore ack t < rises req t → ∃ u, t ≤ u ∧ ack u = true
  data : ∀ t, live t → acksBefore ack (t + 1) = rises req t → port t = block (acksBefore ack (t + 1))

theorem rise_iff_of_low {req : ℕ → Bool} {t : ℕ} (h : req t = false) :
    Rise req (t + 1) ↔ req (t + 1) = true :=
  ⟨fun hr => hr.1, fun hr => ⟨hr, fun _ hu => Nat.succ.inj hu ▸ h⟩⟩

theorem not_rise_of_low {req : ℕ → Bool} {t : ℕ} (h : req t = false) : ¬ Rise req t := by
  rintro ⟨hr, _⟩
  rw [h] at hr
  exact Bool.false_ne_true hr

theorem not_rise_of_high {req : ℕ → Bool} {t : ℕ} (h : req t = true) : ¬ Rise req (t + 1) := by
  rintro ⟨_, hr⟩
  rw [hr t rfl] at h
  exact Bool.false_ne_true h

theorem rises_succ_of_not {req : ℕ → Bool} {t : ℕ} (h : ¬ Rise req (t + 1)) :
    rises req (t + 1) = rises req t := by
  rw [rises, Nat.count_succ, if_neg h, Nat.add_zero]
  rfl

theorem rises_succ_of_rise {req : ℕ → Bool} {t : ℕ} (h : Rise req (t + 1)) :
    rises req (t + 1) = rises req t + 1 := by
  rw [rises, Nat.count_succ, if_pos h]
  rfl

theorem acksBefore_succ_of_low {ack : ℕ → Bool} {t : ℕ} (h : ack t = false) :
    acksBefore ack (t + 1) = acksBefore ack t := by
  rw [acksBefore, Nat.count_succ, if_neg (by rw [h]; exact Bool.false_ne_true), Nat.add_zero]
  rfl

theorem acksBefore_succ_of_high {ack : ℕ → Bool} {t : ℕ} (h : ack t = true) :
    acksBefore ack (t + 1) = acksBefore ack t + 1 := by
  rw [acksBefore, Nat.count_succ, if_pos h]
  rfl

/-! ## Waiting for an answer -/

section Served

variable {β : Type} {live : ℕ → Prop} {req ack : ℕ → Bool} {port block : ℕ → β}

theorem Served.ack_low (h : Served live req ack port block) {t : ℕ} (ht : live t)
    (heq : acksBefore ack t = rises req t) : ack t = false := by
  by_contra hack
  have hlt := h.answers t ht (by simpa using hack)
  omega

/-- With every request answered, the port shows the block of the last answer. -/
theorem Served.port_eq (h : Served live req ack port block) {t : ℕ} (ht : live t)
    (heq : acksBefore ack t = rises req t) : port t = block (rises req t) := by
  have hlow := acksBefore_succ_of_low (h.ack_low ht heq)
  rw [h.data t ht (hlow.trans heq), hlow, heq]

/-- A requester that raises `req` in the next cycle and holds it until the answer gets one. -/
theorem Served.next (h : Served live req ack port block) {t : ℕ}
    (hwait : ∀ u, t ≤ u → (∀ v, t ≤ v → v < u → ack v = false) →
      live u ∧ req u = decide (t < u))
    (heq : acksBefore ack t = rises req t) :
    ∃ u, t < u ∧ ack u = true ∧ (∀ v, t ≤ v → v < u → ack v = false) ∧
      acksBefore ack (u + 1) = rises req t + 1 ∧ rises req u = rises req t + 1 := by
  obtain ⟨hlive, hlow⟩ := hwait t le_rfl fun v hv hvt => absurd hvt (by omega)
  rw [decide_eq_false (lt_irrefl t)] at hlow
  have hack := h.ack_low hlive heq
  have hnone : ∀ v, t ≤ v → v < t + 1 → ack v = false := by
    intro v hv hvt
    obtain rfl : v = t := by omega
    exact hack
  obtain ⟨hlive₁, hhigh⟩ := hwait (t + 1) (by omega) hnone
  rw [decide_eq_true (Nat.lt_succ_self t)] at hhigh
  have hrise : rises req (t + 1) = rises req t + 1 :=
    rises_succ_of_rise ((rise_iff_of_low hlow).2 hhigh)
  have hacks : acksBefore ack (t + 1) = rises req t := (acksBefore_succ_of_low hack).trans heq
  obtain ⟨w, htw, hw⟩ := h.answered (t + 1) hlive₁ (by omega)
  -- the first answer
  have hex : ∃ u, t < u ∧ ack u = true := ⟨w, htw, hw⟩
  classical
  obtain ⟨hu, hacku⟩ := Nat.find_spec hex
  have hbefore : ∀ v, t ≤ v → v < Nat.find hex → ack v = false := by
    intro v hv hvu
    rcases Nat.eq_or_lt_of_le hv with rfl | hlt
    · exact hack
    · by_contra hne
      exact Nat.find_min hex hvu ⟨hlt, by simpa using hne⟩
  have hstay : ∀ v, t + 1 ≤ v → v ≤ Nat.find hex →
      acksBefore ack v = rises req t ∧ rises req v = rises req t + 1 := by
    intro v hv hvu
    induction v, hv using Nat.le_induction with
    | base => exact ⟨hacks, hrise⟩
    | succ v hv ih =>
        obtain ⟨iha, ihr⟩ := ih (by omega)
        have hreq := (hwait v (by omega) fun x hx hxv => hbefore x hx (by omega)).2
        rw [decide_eq_true (show t < v by omega)] at hreq
        exact ⟨(acksBefore_succ_of_low (hbefore v (by omega) (by omega))).trans iha,
          (rises_succ_of_not (not_rise_of_high hreq)).trans ihr⟩
  obtain ⟨hcount, hrises⟩ := hstay (Nat.find hex) hu le_rfl
  exact ⟨Nat.find hex, hu, hacku, hbefore, by rw [acksBefore_succ_of_high hacku, hcount], hrises⟩

end Served

/-! ## A host -/

/-- A host that gives an acknowledge only while a request is `pending`, in the end to each of them,
    and then turns to the next block. -/
theorem Served.of_pending {β : Type} {live : ℕ → Prop} {req ack : ℕ → Bool} {port block : ℕ → β}
    (pending : ℕ → Bool) (hfirst : req 0 = false) (hnone : pending 0 = false)
    (hrise : ∀ t, Rise req (t + 1) → pending t = false ∧ pending (t + 1) = true)
    (hstay : ∀ t, ¬ Rise req (t + 1) → pending (t + 1) = (pending t && !ack t))
    (hack : ∀ t, ack t = true → pending t = true)
    (hend : ∀ t, pending t = true → ∃ u, t ≤ u ∧ ack u = true)
    (hport : ∀ t, port t = block (acksBefore ack (t + 1))) :
    Served live req ack port block := by
  have hcount (t : ℕ) : acksBefore ack t + (pending t).toNat = rises req t := by
    induction t with
    | zero =>
        rw [hnone, rises, Nat.count_succ, if_neg (not_rise_of_low hfirst)]
        rfl
    | succ t ih =>
        by_cases hr : Rise req (t + 1)
        · obtain ⟨hlow, hhigh⟩ := hrise t hr
          have hquiet : ack t = false := by
            rw [Bool.eq_false_iff]
            intro ht
            rw [hack t ht] at hlow
            cases hlow
          rw [rises_succ_of_rise hr, acksBefore_succ_of_low hquiet, hhigh, ← ih, hlow]
          rfl
        · rw [rises_succ_of_not hr, hstay t hr, ← ih]
          cases ha : ack t with
          | true =>
              rw [acksBefore_succ_of_high ha, hack t ha]
              rfl
          | false => rw [acksBefore_succ_of_low ha, Bool.not_false, Bool.and_true]
  refine ⟨fun t _ ha => ?_, fun t _ hlt => hend t ?_, fun t _ _ => hport t⟩
  · have ht := hcount t
    rw [hack t ha] at ht
    exact Nat.lt_of_succ_le ht.le
  · have ht := hcount t
    by_contra hlow
    rw [Bool.eq_false_iff.2 hlow] at ht
    exact absurd ht (Nat.ne_of_lt hlt)

/-! ## Settled channels -/

/-- `n` requests so far, all of them answered. -/
structure Settled (req ack : ℕ → Bool) (t n : ℕ) : Prop where
  acks : acksBefore ack t = n
  rises : rises req t = n

theorem Settled.start {req ack : ℕ → Bool} (h : req 0 = false) : Settled req ack 0 0 where
  acks := rfl
  rises := by rw [Clocked.rises, Nat.count_succ, if_neg (not_rise_of_low h)]; rfl

/-- Without a rising edge a settled channel stays settled. -/
theorem Settled.rest {β : Type} {live : ℕ → Prop} {req ack : ℕ → Bool} {port block : ℕ → β}
    (h : Served live req ack port block) {t t' n : ℕ} (hset : Settled req ack t n) (htt : t ≤ t')
    (hlive : ∀ u, t ≤ u → u < t' → live u) (hrise : ∀ u, t < u → u ≤ t' → ¬ Rise req u) :
    Settled req ack t' n := by
  induction t', htt using Nat.le_induction with
  | base => exact hset
  | succ u htu ih =>
      obtain ⟨hacks, hrises⟩ := ih (fun v hv hvu => hlive v hv (by omega))
        (fun v hv hvu => hrise v hv (by omega))
      have hlow := h.ack_low (hlive u htu (Nat.lt_succ_self u)) (hacks.trans hrises.symm)
      exact ⟨(acksBefore_succ_of_low hlow).trans hacks,
        (rises_succ_of_not (hrise (u + 1) (by omega) le_rfl)).trans hrises⟩

end Clocked
