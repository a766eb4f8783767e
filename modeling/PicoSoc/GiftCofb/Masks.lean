import PicoSoc.Library.Gf64
import PicoSoc.GiftCofb.Refinement

set_option autoImplicit false

/-! # No mask is used twice

The masks of an operation are products of the first one with powers of 2 and 3 in GF(2⁶⁴), whose
exponents grow from call to call. -/

namespace PicoSoc.GiftCofb

open Clocked Gf64

/-! ## The exponents of an operation -/

/-- The exponents of 2 and 3 over a string of `n` blocks behind `e`: a doubling for each block but
    the last one, `t` triplings for that. -/
def stringExps (n t : ℕ) (e : ℕ × ℕ) : List (ℕ × ℕ) :=
  (List.range (n - 1)).map (fun b => (e.1 + (b + 1), e.2)) ++ [(e.1 + (n - 1), e.2 + t)]

/-- The triplings of the last AD block. -/
def adTriples (adLen msgLen : ℕ) : ℕ :=
  (if adLen % 16 = 0 ∧ adLen ≠ 0 then 1 else 2) + if msgLen = 0 then 2 else 0

/-- The triplings of the last message block. -/
def msgTriples (msgLen : ℕ) : ℕ := if msgLen % 16 = 0 then 1 else 2

def msgExps (msgLen : ℕ) (e : ℕ × ℕ) : List (ℕ × ℕ) :=
  if msgLen = 0 then [] else stringExps ((msgLen + 15) / 16) (msgTriples msgLen) e

def adExps (adLen msgLen : ℕ) (e : ℕ × ℕ) : List (ℕ × ℕ) :=
  let n := max 1 ((adLen + 15) / 16)
  let t := adTriples adLen msgLen
  stringExps n t e ++ msgExps msgLen (e.1 + (n - 1), e.2 + t)

/-- The exponents of the masks behind the nonce. -/
def exponents (adLen msgLen : ℕ) : List (ℕ × ℕ) := adExps adLen msgLen (0, 0)

theorem stringExps_one (t : ℕ) (e : ℕ × ℕ) : stringExps 1 t e = [(e.1, e.2 + t)] := rfl

theorem stringExps_succ {n : ℕ} (hn : 0 < n) (t : ℕ) (e : ℕ × ℕ) :
    stringExps (n + 1) t e = (e.1 + 1, e.2) :: stringExps n t (e.1 + 1, e.2) := by
  obtain ⟨n, rfl⟩ : ∃ m, n = m + 1 := ⟨n - 1, by omega⟩
  rw [stringExps, stringExps, Nat.add_sub_cancel, Nat.add_sub_cancel, List.range_succ_eq_map,
    List.map_cons, List.map_map, List.cons_append]
  refine congrArg₂ List.cons (by simp) (congrArg₂ List.append ?_ ?_)
  · refine List.map_congr_left fun b _ => ?_
    simp only [Function.comp, Nat.succ_eq_add_one]
    exact Prod.ext (by omega) rfl
  · exact congrArg (fun i => [(i, e.2 + t)]) (by omega)

theorem msgExps_last {r : ℕ} (h : r ≤ 16) (h0 : r ≠ 0) (e : ℕ × ℕ) :
    msgExps r e = [(e.1, e.2 + msgTriples r)] := by
  rw [msgExps, if_neg h0, show (r + 15) / 16 = 1 by omega, stringExps_one]

theorem msgExps_more {r : ℕ} (h : 16 < r) (e : ℕ × ℕ) :
    msgExps r e = (e.1 + 1, e.2) :: msgExps (r - 16) (e.1 + 1, e.2) := by
  have htriples : msgTriples (r - 16) = msgTriples r := by
    rw [msgTriples, msgTriples, show (r - 16) % 16 = r % 16 by omega]
  rw [msgExps, msgExps, if_neg (by omega), if_neg (by omega), htriples,
    show (r + 15) / 16 = (r - 16 + 15) / 16 + 1 by omega, stringExps_succ (by omega)]

theorem adExps_last {r : ℕ} (h : r ≤ 16) (m : ℕ) (e : ℕ × ℕ) :
    adExps r m e = (e.1, e.2 + adTriples r m) :: msgExps m (e.1, e.2 + adTriples r m) := by
  rw [adExps, show max 1 ((r + 15) / 16) = 1 by omega]
  rfl

theorem adExps_more {r : ℕ} (h : 16 < r) (m : ℕ) (e : ℕ × ℕ) :
    adExps r m e = (e.1 + 1, e.2) :: adExps (r - 16) m (e.1 + 1, e.2) := by
  have htriples : adTriples (r - 16) m = adTriples r m := by
    rw [adTriples, adTriples, show (r - 16) % 16 = r % 16 by omega]
    simp only [show r - 16 ≠ 0 by omega, show r ≠ 0 by omega, ne_eq, not_false_iff]
  rw [adExps, adExps, htriples, show max 1 ((r + 15) / 16) = max 1 ((r - 16 + 15) / 16) + 1 by omega,
    stringExps_succ (by omega)]
  rw [show e.1 + (max 1 ((r - 16 + 15) / 16) + 1 - 1)
    = e.1 + 1 + (max 1 ((r - 16 + 15) / 16) - 1) by omega]
  rfl

/-! ## The exponents grow -/

/-- Each sum of exponents is above the one before; the first is above `a` and none above `b`. -/
structure Grows (a b : ℕ) (es : List (ℕ × ℕ)) : Prop where
  above : ∀ e ∈ es, a < e.1 + e.2 ∧ e.1 + e.2 ≤ b
  pairwise : es.Pairwise fun e e' => e.1 + e.2 < e'.1 + e'.2

theorem Grows.append {a b c : ℕ} {es es' : List (ℕ × ℕ)} (hab : a ≤ b) (hbc : b ≤ c)
    (h : Grows a b es) (h' : Grows b c es') : Grows a c (es ++ es') := by
  refine ⟨fun e he => ?_, List.pairwise_append.mpr ⟨h.pairwise, h'.pairwise, fun e he e' he' =>
    (h.above e he).2.trans_lt (h'.above e' he').1⟩⟩
  rcases List.mem_append.mp he with he | he
  · have := h.above e he
    omega
  · have := h'.above e he
    omega

theorem stringExps_grows {n t : ℕ} (ht : 0 < t) (e : ℕ × ℕ) :
    Grows (e.1 + e.2) (e.1 + (n - 1) + (e.2 + t)) (stringExps n t e) := by
  have hinit : Grows (e.1 + e.2) (e.1 + (n - 1) + e.2)
      ((List.range (n - 1)).map fun b => (e.1 + (b + 1), e.2)) := by
    refine ⟨fun f hf => ?_, ?_⟩
    · obtain ⟨b, hb, rfl⟩ := List.mem_map.mp hf
      have := List.mem_range.mp hb
      dsimp only
      omega
    · rw [List.pairwise_map]
      refine List.pairwise_lt_range.imp fun hlt => ?_
      dsimp only
      omega
  refine hinit.append (by omega) (by omega) ⟨fun f hf => ?_, List.pairwise_singleton _ _⟩
  rw [List.mem_singleton.mp hf]
  dsimp only
  omega

theorem msgExps_grows (m : ℕ) (e : ℕ × ℕ) :
    Grows (e.1 + e.2) (e.1 + e.2 + m / 16 + 2) (msgExps m e) := by
  rw [msgExps]
  split
  · exact ⟨fun _ h => absurd h List.not_mem_nil, List.Pairwise.nil⟩
  · have ht : 0 < msgTriples m ∧ msgTriples m ≤ 2 := by
      rw [msgTriples]
      split <;> omega
    have h := stringExps_grows (n := (m + 15) / 16) ht.1 e
    exact ⟨fun f hf => ⟨(h.above f hf).1, (h.above f hf).2.trans (by omega)⟩, h.pairwise⟩

/-- All of them stay far below 64. -/
theorem exponents_grows (a m : ℕ) : Grows 0 (a / 16 + m / 16 + 6) (exponents a m) := by
  have ht : 0 < adTriples a m ∧ adTriples a m ≤ 4 := by
    rw [adTriples]
    split <;> split <;> omega
  have h := stringExps_grows (n := max 1 ((a + 15) / 16)) ht.1 (0, 0)
  have h' := msgExps_grows m (0 + (max 1 ((a + 15) / 16) - 1), 0 + adTriples a m)
  dsimp only at h h'
  have hall := h.append (by omega) (by omega) h'
  refine ⟨fun f hf => ⟨(hall.above f hf).1, (hall.above f hf).2.trans ?_⟩, hall.pairwise⟩
  omega

/-! ## The masks of the machine -/

section Masks

variable {x : Gf} {l : BitVec 64} {e : ℕ × ℕ}

theorem elt_doubleHalfBlock (h : elt l = power e * x) :
    elt (doubleHalfBlock l) = power (e.1 + 1, e.2) * x := by
  rw [doubleHalfBlock_eq, elt_double, h, power, power]
  ring

theorem elt_tripleHalfBlock (h : elt l = power e * x) :
    elt (tripleHalfBlock l) = power (e.1, e.2 + 1) * x := by
  rw [tripleHalfBlock_eq, elt_triple, h, power, power]
  ring

theorem partialOrEmptyAd_eq (r : BitVec 8) :
    partialOrEmptyAd r = !decide (r.toNat % 16 = 0 ∧ r.toNat ≠ 0) := by
  revert r
  decide

theorem partialMsg_eq (r : BitVec 8) : partialMsg r = !decide (r.toNat % 16 = 0) := by
  revert r
  decide

/-- The exponents behind an AD block. -/
def adNext (r m : ℕ) (e : ℕ × ℕ) : ℕ × ℕ :=
  if r ≤ 16 then (e.1, e.2 + adTriples r m) else (e.1 + 1, e.2)

/-- The exponents behind a message block. -/
def msgNext (r : ℕ) (e : ℕ × ℕ) : ℕ × ℕ :=
  if r ≤ 16 then (e.1, e.2 + msgTriples r) else (e.1 + 1, e.2)

theorem elt_adMask {r : BitVec 8} {m : ℕ} (h : elt l = power e * x) :
    elt (adMask r (decide (m = 0)) l) = power (adNext r.toNat m e) * x := by
  rw [adMask, adNext]
  by_cases hlast : r.toNat ≤ 16
  · rw [(lastNow_iff r).mpr hlast, if_pos hlast, partialOrEmptyAd_eq, adTriples]
    have h₁ := elt_tripleHalfBlock h
    have h₂ := elt_tripleHalfBlock h₁
    have h₃ := elt_tripleHalfBlock h₂
    have h₄ := elt_tripleHalfBlock h₃
    dsimp only at h₁ h₂ h₃ h₄
    by_cases hf : r.toNat % 16 = 0 ∧ r.toNat ≠ 0
    · rw [decide_eq_true hf, if_pos hf]
      by_cases hm : m = 0
      · rw [decide_eq_true hm, if_pos hm]
        exact h₃
      · rw [decide_eq_false hm, if_neg hm]
        exact h₁
    · rw [decide_eq_false hf, if_neg hf]
      by_cases hm : m = 0
      · rw [decide_eq_true hm, if_pos hm]
        exact h₄
      · rw [decide_eq_false hm, if_neg hm]
        exact h₂
  · have hnot : lastNow r = false := by
      rw [← Bool.not_eq_true, lastNow_iff]
      exact hlast
    rw [hnot, if_neg hlast, Bool.not_false, if_pos rfl]
    exact elt_doubleHalfBlock h

theorem elt_msgMask {r : BitVec 8} (h : elt l = power e * x) :
    elt (msgMask r l) = power (msgNext r.toNat e) * x := by
  rw [msgMask, msgNext]
  by_cases hlast : r.toNat ≤ 16
  · rw [(lastNow_iff r).mpr hlast, if_pos hlast, partialMsg_eq, msgTriples]
    have h₁ := elt_tripleHalfBlock h
    have h₂ := elt_tripleHalfBlock h₁
    by_cases hf : r.toNat % 16 = 0
    · rw [decide_eq_true hf, if_pos hf]
      exact h₁
    · rw [decide_eq_false hf, if_neg hf]
      exact h₂
  · have hnot : lastNow r = false := by
      rw [← Bool.not_eq_true, lastNow_iff]
      exact hlast
    rw [hnot, if_neg hlast, Bool.not_false, if_pos rfl]
    exact elt_doubleHalfBlock h

end Masks

/-! ## The masks to come -/

/-- With `m` message bytes, `es` are the exponents of the masks behind the one in the register, whose
    exponents are `e`. -/
inductive Ahead (m : ℕ) (s : Core) (e : ℕ × ℕ) : List (ℕ × ℕ) → Prop
  | ad (hs : s.state = .procAd ∨ s.state = .reqAd) (hm : s.remainingMsg.toNat = m) :
      Ahead m s e (adExps s.remainingAd.toNat m e)
  | waitAd (hs : s.state = .waitAd) (hm : s.remainingMsg.toNat = m)
      (hlast : s.isLastAd = decide (s.remainingAd.toNat ≤ 16)) :
      Ahead m s e (if s.isLastAd then msgExps m e else adExps (s.remainingAd.toNat - 16) m e)
  | msg (hs : s.state = .procMsg ∨ s.state = .reqMsg) (hpos : s.remainingMsg.toNat ≠ 0) :
      Ahead m s e (msgExps s.remainingMsg.toNat e)
  | waitMsg (hs : s.state = .waitMsg)
      (hlast : s.isLastMsg = decide (s.remainingMsg.toNat ≤ 16)) :
      Ahead m s e (if s.isLastMsg then [] else msgExps (s.remainingMsg.toNat - 16) e)
  | done (hs : s.state = .done) : Ahead m s e []

/-- What a cycle makes of them: a call takes the next exponents. -/
def Advance (m : ℕ) (x : Gf) (es : List (ℕ × ℕ)) (t : Core) : Prop :=
  ∃ e' es', Ahead m t e' es' ∧ elt t.l = power e' * x
    ∧ es = if t.giftStart then e' :: es' else es'

theorem lastNow_eq (r : BitVec 8) : lastNow r = decide (r.toNat ≤ 16) := by
  rw [Bool.eq_iff_iff, lastNow_iff, decide_eq_true_iff]

theorem toNat_sub_sixteen {r : BitVec 8} (h : ¬r.toNat ≤ 16) : (r - 16).toNat = r.toNat - 16 := by
  have hadd : (r - 16).toNat = (2 ^ 8 - 16 + r.toNat) % 2 ^ 8 := BitVec.toNat_sub r 16
  have := r.isLt
  omega

theorem adExps_cons (r m : ℕ) (e : ℕ × ℕ) : adExps r m e = adNext r m e ::
    if decide (r ≤ 16) then msgExps m (adNext r m e) else adExps (r - 16) m (adNext r m e) := by
  rw [adNext]
  by_cases h : r ≤ 16
  · rw [decide_eq_true h, if_pos h, if_pos rfl]
    exact adExps_last h m e
  · rw [decide_eq_false h, if_neg h, if_neg Bool.false_ne_true]
    exact adExps_more (by omega) m e

theorem msgExps_cons {r : ℕ} (h0 : r ≠ 0) (e : ℕ × ℕ) : msgExps r e = msgNext r e ::
    if decide (r ≤ 16) then [] else msgExps (r - 16) (msgNext r e) := by
  rw [msgNext]
  by_cases h : r ≤ 16
  · rw [decide_eq_true h, if_pos h, if_pos rfl]
    exact msgExps_last h h0 e
  · rw [decide_eq_false h, if_neg h, if_neg Bool.false_ne_true]
    exact msgExps_more (by omega) e

section Step

variable {m : ℕ} {x : Gf} {s : Core} {e : ℕ × ℕ} {i : CoreIn}

theorem advance_ad (hq : s.state = .procAd ∨ s.state = .reqAd) (hmsg : s.remainingMsg.toNat = m)
    (hl : elt s.l = power e * x) (hm : i.emptyM = decide (m = 0)) :
    Advance m x (adExps s.remainingAd.toNat m e) (Core.step i s) := by
  rcases hq with hq | hq
  · -- a call on the next AD block
    have hnext := elt_adMask (r := s.remainingAd) (m := m) hl
    rw [← hm] at hnext
    refine ⟨adNext s.remainingAd.toNat m e, _, .waitAd ?_ ?_ ?_, ?_, ?_⟩
    · simp [Core.step, Core.fsmStep, hq]
    · simpa [Core.step, Core.fsmStep, Core.clear, hq] using hmsg
    · simp [Core.step, Core.fsmStep, Core.clear, hq, lastNow_eq]
    · simpa [Core.step, Core.fsmStep, Core.clear, hq] using hnext
    · simp only [Core.step, Core.fsmStep, Core.clear, hq, lastNow_eq, if_true]
      exact adExps_cons _ m e
  · cases hack : i.adAck
    · have hstep : Core.step i s = { s.clear with
          adReq := true, gift := s.gift.step (s.giftInputs i) } := by
        simp [Core.step, Core.fsmStep, hq, hack]
      rw [hstep]
      exact ⟨e, _, .ad (.inr hq) hmsg, hl, rfl⟩
    · have hstep : Core.step i s = { s.clear with
          adReq := true, state := .procAd, gift := s.gift.step (s.giftInputs i) } := by
        simp [Core.step, Core.fsmStep, hq, hack]
      rw [hstep]
      exact ⟨e, _, .ad (.inl rfl) hmsg, hl, rfl⟩

theorem advance_waitAd (hq : s.state = .waitAd) (hmsg : s.remainingMsg.toNat = m)
    (hlast : s.isLastAd = decide (s.remainingAd.toNat ≤ 16)) (hl : elt s.l = power e * x)
    (hm : i.emptyM = decide (m = 0)) :
    Advance m x (if s.isLastAd then msgExps m e else adExps (s.remainingAd.toNat - 16) m e)
      (Core.step i s) := by
  cases hd : s.gift.done
  · have hstep : Core.step i s = { s.clear with gift := s.gift.step (s.giftInputs i) } := by
      simp [Core.step, Core.fsmStep, hq, hd]
    rw [hstep]
    exact ⟨e, _, .waitAd hq hmsg hlast, hl, rfl⟩
  · cases hla : s.isLastAd
    · -- more AD: the host is asked for the next block
      have hstep : Core.step i s = { s.clear with
          yPrev := s.gift.ciphertext, remainingAd := s.remainingAd - 16, state := .reqAd
          gift := s.gift.step (s.giftInputs i) } := by
        simp [Core.step, Core.fsmStep, hq, hd, hla]
      have hmore : ¬s.remainingAd.toNat ≤ 16 := by
        rw [hla] at hlast
        exact of_decide_eq_false hlast.symm
      rw [hstep]
      refine ⟨e, _, .ad (.inr rfl) hmsg, hl, ?_⟩
      show adExps (s.remainingAd.toNat - 16) m e = adExps (s.remainingAd - 16).toNat m e
      rw [toNat_sub_sixteen hmore]
    · by_cases h0 : m = 0
      · have hstep : Core.step i s = { s.clear with
            yPrev := s.gift.ciphertext, tagOut := s.gift.ciphertext, state := .done
            gift := s.gift.step (s.giftInputs i) } := by
          simp [Core.step, Core.fsmStep, hq, hd, hla, hm, h0]
        rw [hstep]
        refine ⟨e, _, .done rfl, hl, ?_⟩
        rw [if_pos rfl, msgExps, if_pos h0]
        rfl
      · have hstep : Core.step i s = { s.clear with
            yPrev := s.gift.ciphertext, state := .procMsg
            gift := s.gift.step (s.giftInputs i) } := by
          simp [Core.step, Core.fsmStep, hq, hd, hla, hm, h0]
        rw [hstep]
        refine ⟨e, _, .msg (.inl rfl) (by rw [← hmsg] at h0; exact h0), hl, ?_⟩
        rw [if_pos rfl, ← hmsg]
        rfl

theorem advance_msg (hq : s.state = .procMsg ∨ s.state = .reqMsg)
    (hpos : s.remainingMsg.toNat ≠ 0) (hl : elt s.l = power e * x) :
    Advance m x (msgExps s.remainingMsg.toNat e) (Core.step i s) := by
  rcases hq with hq | hq
  · -- a call on the next message block
    have hnext := elt_msgMask (r := s.remainingMsg) hl
    refine ⟨msgNext s.remainingMsg.toNat e, _, .waitMsg ?_ ?_, ?_, ?_⟩
    · simp [Core.step, Core.fsmStep, hq]
    · simp [Core.step, Core.fsmStep, Core.clear, hq, lastNow_eq]
    · simpa [Core.step, Core.fsmStep, Core.clear, hq] using hnext
    · simp only [Core.step, Core.fsmStep, Core.clear, hq, lastNow_eq, if_true]
      exact msgExps_cons hpos e
  · cases hack : i.msgAck
    · have hstep : Core.step i s = { s.clear with
          msgReq := true, gift := s.gift.step (s.giftInputs i) } := by
        simp [Core.step, Core.fsmStep, hq, hack]
      rw [hstep]
      exact ⟨e, _, .msg (.inr hq) hpos, hl, rfl⟩
    · have hstep : Core.step i s = { s.clear with
          msgReq := true, state := .procMsg, gift := s.gift.step (s.giftInputs i) } := by
        simp [Core.step, Core.fsmStep, hq, hack]
      rw [hstep]
      exact ⟨e, _, .msg (.inl rfl) hpos, hl, rfl⟩

theorem advance_waitMsg (hq : s.state = .waitMsg)
    (hlast : s.isLastMsg = decide (s.remainingMsg.toNat ≤ 16)) (hl : elt s.l = power e * x) :
    Advance m x (if s.isLastMsg then [] else msgExps (s.remainingMsg.toNat - 16) e)
      (Core.step i s) := by
  cases hd : s.gift.done
  · have hstep : Core.step i s = { s.clear with gift := s.gift.step (s.giftInputs i) } := by
      simp [Core.step, Core.fsmStep, hq, hd]
    rw [hstep]
    exact ⟨e, _, .waitMsg hq hlast, hl, rfl⟩
  · cases hla : s.isLastMsg
    · have hstep : Core.step i s = { s.clear with
          yPrev := s.gift.ciphertext, remainingMsg := s.remainingMsg - 16, state := .reqMsg
          gift := s.gift.step (s.giftInputs i) } := by
        simp [Core.step, Core.fsmStep, hq, hd, hla]
      have hmore : ¬s.remainingMsg.toNat ≤ 16 := by
        rw [hla] at hlast
        exact of_decide_eq_false hlast.symm
      have hsub := toNat_sub_sixteen hmore
      rw [hstep]
      refine ⟨e, _, .msg (.inr rfl) ?_, hl, ?_⟩
      · show (s.remainingMsg - 16).toNat ≠ 0
        omega
      · show msgExps (s.remainingMsg.toNat - 16) e = msgExps (s.remainingMsg - 16).toNat e
        rw [hsub]
    · have hstep : Core.step i s = { s.clear with
          yPrev := s.gift.ciphertext, tagOut := s.gift.ciphertext, state := .done
          gift := s.gift.step (s.giftInputs i) } := by
        simp [Core.step, Core.fsmStep, hq, hd, hla]
      rw [hstep]
      exact ⟨e, _, .done rfl, hl, rfl⟩

theorem Ahead.step {es : List (ℕ × ℕ)} (h : Ahead m s e es) (hl : elt s.l = power e * x)
    (hm : i.emptyM = decide (m = 0)) (hs : s.state ≠ .done) :
    Advance m x es (Core.step i s) := by
  cases h with
  | ad hq hmsg => exact advance_ad hq hmsg hl hm
  | waitAd hq hmsg hlast => exact advance_waitAd hq hmsg hlast hl hm
  | msg hq hpos => exact advance_msg hq hpos hl
  | waitMsg hq hlast => exact advance_waitMsg hq hlast hl
  | done hq => exact absurd hq hs

end Step

/-! ## The masks of an operation -/

/-- The mask of the cipher call that starts in cycle `t`, but for the one of the nonce. -/
def maskUsed (env : ℕ → CoreIn) (s : Core) (t : ℕ) : Option (BitVec 64) :=
  let r := run Core.step env s t
  if r.giftStart = true ∧ r.state ≠ .waitNonce then some r.l else none

/-- The upper half of the first cipher output. -/
def firstMask (env : ℕ → CoreIn) : BitVec 64 :=
  (Spec.gift128 (env 0).key (env 0).nonce).extractLsb' 64 64

theorem Ahead.not_nonce {m : ℕ} {s : Core} {e : ℕ × ℕ} {es : List (ℕ × ℕ)} (h : Ahead m s e es) :
    s.state ≠ .waitNonce := by
  cases h with
  | ad hq | msg hq => rcases hq with hq | hq <;> rw [hq] <;> decide
  | waitAd hq | waitMsg hq | done hq => rw [hq]; decide

/-- The masks used before cycle `t` and the ones to come are those of the operation. -/
def Masked (env : ℕ → CoreIn) (s : Core) (x : Gf) (m t : ℕ) (all : List (ℕ × ℕ)) : Prop :=
  ∃ used e es, Ahead m (run Core.step env s t) e es
    ∧ elt (run Core.step env s t).l = power e * x
    ∧ (trace (maskUsed env s) t).map elt = used.map (power · * x)
    ∧ all = used ++ if (run Core.step env s t).giftStart then e :: es else es

section Run

variable {env : ℕ → CoreIn} {s : Core} {x : Gf} {m t : ℕ} {all : List (ℕ × ℕ)}

theorem Masked.succ (h : Masked env s x m t all) (hm : (env t).emptyM = decide (m = 0))
    (hs : (run Core.step env s t).state ≠ .done) : Masked env s x m (t + 1) all := by
  obtain ⟨used, e, es, hahead, hl, htrace, hall⟩ := h
  obtain ⟨e', es', hahead', hl', hes⟩ := hahead.step hl hm hs
  have hmask : maskUsed env s t = if (run Core.step env s t).giftStart then
      some (run Core.step env s t).l else none := by
    rw [maskUsed]
    exact if_congr (and_iff_left hahead.not_nonce) rfl rfl
  cases hg : (run Core.step env s t).giftStart
  · rw [hg] at hmask hall
    refine ⟨used, e', es', hahead', hl', ?_, ?_⟩
    · rw [trace_succ_none hmask, htrace]
    · rw [hall, run_succ, ← hes]
      rfl
  · rw [hg] at hmask hall
    refine ⟨used ++ [e], e', es', hahead', hl', ?_, ?_⟩
    · rw [trace_succ_some hmask, List.map_append, htrace, List.map_append]
      exact congrArg (_ ++ [·]) hl
    · rw [hall, run_succ, ← hes, List.append_assoc]
      rfl

/-- The nonce uses no mask. -/
theorem masks_nonce (hs : s.FromReset) (hidle : s.state = .idle) (hstart : (env 0).start = true)
    (hkey : (env 1).key = (env 0).key) :
    (∀ k ≤ 43, trace (maskUsed env s) k = []) ∧
      Masked env s (elt (firstMask env)) (env 0).msgTotalLen.toNat 43
        (exponents (env 0).adTotalLen.toNat (env 0).msgTotalLen.toNat) := by
  obtain ⟨hafter, hduring⟩ := run_nonce hs.inv hidle hstart hkey
  have hnone : ∀ t, t < 43 → maskUsed env s t = none := by
    intro t ht
    refine if_neg fun h => ?_
    rcases Nat.eq_zero_or_pos t with rfl | hpos
    · have hrest := (hs.inv.rest (by rw [hidle]; rfl)).1
      rw [run_zero, hrest] at h
      cases h.1
    · exact h.2 (hduring.state t hpos (by omega))
  have htrace : ∀ k ≤ 43, trace (maskUsed env s) k = [] := fun k hk =>
    trace_quiet (m := 0) (Nat.zero_le k) fun t _ ht => hnone t (by omega)
  refine ⟨htrace, [], (0, 0), _, .ad (.inl hafter.at_.state) ?_, ?_, ?_, ?_⟩
  · rw [hafter.at_.remainingMsg]
  · rw [hafter.at_.l]
    exact (by rw [power, pow_zero, pow_zero, one_mul, one_mul] : elt (firstMask env)
      = power (0, 0) * elt (firstMask env))
  · rw [htrace 43 le_rfl]
    rfl
  · rw [hafter.at_.giftStart, hafter.at_.remainingAd]
    rfl

theorem masks_run (hs : s.FromReset) (hidle : s.state = .idle) (hstart : (env 0).start = true)
    (hkey : (env 1).key = (env 0).key)
    (hlen : ∀ t, Live env s t → (env t).msgTotalLen = (env 0).msgTotalLen) {n : ℕ}
    (hn : 43 ≤ n) (hlive : Live env s n) :
    Masked env s (elt (firstMask env)) (env 0).msgTotalLen.toNat n
      (exponents (env 0).adTotalLen.toNat (env 0).msgTotalLen.toNat) := by
  induction n, hn using Nat.le_induction with
  | base => exact (masks_nonce hs hidle hstart hkey).2
  | succ t _ ih =>
    have hlive' : Live env s t := hlive.mono (Nat.le_succ t)
    refine (ih hlive').succ ?_ fun hdone => ?_
    · rw [CoreIn.emptyM, hlen t hlive', Bool.eq_iff_iff, beq_iff_eq, decide_eq_true_iff,
        ← BitVec.toNat_inj]
      rfl
    · -- the state `done` raises `done`
      have hlow := hlive (t + 1) (Nat.succ_pos t) le_rfl
      have hhigh : (run Core.step env s (t + 1)).done = true := by
        rw [run_succ, Core.step, Core.fsmStep, hdone]
        dsimp only
        split <;> rfl
      rw [hhigh] at hlow
      cases hlow

/-- What the exponents say about the masks used. -/
theorem masks_of_exponents {a m : ℕ} (ha : a < 256) (hm : m < 256) (hx : x ≠ 0)
    {used rest : List (ℕ × ℕ)} {ls : List (BitVec 64)} (hall : exponents a m = used ++ rest)
    (hls : ls.map elt = used.map (power · * x)) : (∀ l ∈ ls, l ≠ 0) ∧ ls.Nodup := by
  obtain ⟨habove, hpairwise⟩ := exponents_grows a m
  rw [hall] at habove hpairwise
  have hbound : ∀ e ∈ used, e.1 + e.2 < 64 := fun e he => by
    have := (habove e (List.mem_append_left _ he)).2
    omega
  refine ⟨fun l hl hzero => ?_, List.Nodup.of_map elt ?_⟩
  · have hmem : elt l ∈ used.map (power · * x) := hls ▸ List.mem_map_of_mem hl
    obtain ⟨e, -, he⟩ := List.mem_map.mp hmem
    refine mul_ne_zero (power_ne_zero e) hx ?_
    rw [he, hzero]
    exact value_zero
  · have hused : used.Nodup := (List.pairwise_append.mp hpairwise).1.imp fun hlt heq => by
      rw [heq] at hlt
      exact lt_irrefl _ hlt
    rw [hls]
    refine hused.map_on fun e he e' he' heq => ?_
    exact power_inj (hbound e he) (hbound e' he') (mul_right_cancel₀ hx heq)

/-- In every operation, the masks of the cipher calls behind the one of the nonce are the first one
    times `2 ^ i * 3 ^ j`, in the order of `exponents`; if it is not zero, none of them is, and no
    two of them are equal. -/
theorem masks_distinct (hs : s.FromReset) (hidle : s.state = .idle) (hstart : (env 0).start = true)
    (hkey : ∀ t, Live env s t → (env t).key = (env 0).key)
    (hlen : ∀ t, Live env s t → (env t).msgTotalLen = (env 0).msgTotalLen)
    (hfirst : firstMask env ≠ 0) {n : ℕ} (hlive : Live env s n) :
    (∀ l ∈ trace (maskUsed env s) n, l ≠ 0) ∧ (trace (maskUsed env s) n).Nodup ∧
      (trace (maskUsed env s) n).map elt <+:
        (exponents (env 0).adTotalLen.toNat (env 0).msgTotalLen.toNat).map
          (fun e => elt 2 ^ e.1 * elt 3 ^ e.2 * elt (firstMask env)) ∧
      ((run Core.step env s n).state = .done →
        (trace (maskUsed env s) n).length
          = (exponents (env 0).adTotalLen.toNat (env 0).msgTotalLen.toNat).length) := by
  have hlive1 : Live env s 1 := fun u hpos hle => by
    obtain rfl : u = 1 := by omega
    exact step_done_low (by rw [hidle]; decide) (.inl hidle) (env 0)
  have hx : elt (firstMask env) ≠ 0 := elt_ne_zero hfirst
  rcases Nat.lt_or_ge n 43 with hlt | hge
  · obtain ⟨hnil, -⟩ := masks_nonce hs hidle hstart (hkey 1 hlive1)
    rw [hnil n hlt.le]
    refine ⟨fun _ h => absurd h List.not_mem_nil, List.nodup_nil, List.nil_prefix, fun hdone => ?_⟩
    -- the nonce takes 43 cycles
    obtain ⟨-, hduring⟩ := run_nonce hs.inv hidle hstart (hkey 1 hlive1)
    rcases Nat.eq_zero_or_pos n with rfl | hpos
    · rw [run_zero, hidle] at hdone
      cases hdone
    · rw [hduring.state n hpos (by omega)] at hdone
      cases hdone
  · obtain ⟨used, e, es, hahead, -, htrace, hall⟩ :=
      masks_run hs hidle hstart (hkey 1 hlive1) hlen hge hlive
    obtain ⟨hne, hnodup⟩ := masks_of_exponents (BitVec.isLt _) (BitVec.isLt _) hx hall htrace
    refine ⟨hne, hnodup, ?_, fun hdone => ?_⟩
    · rw [htrace, hall, List.map_append]
      exact List.prefix_append _ _
    · have hreach : (run Core.step env s n).FromReset := Reachable.run hs (fun _ => trivial) n
      have hstart : (run Core.step env s n).giftStart = false :=
        (hreach.inv.rest (by rw [hdone]; rfl)).1
      have hes : es = [] := by
        cases hahead with
        | done => rfl
        | ad hq | msg hq => rcases hq with hq | hq <;> rw [hq] at hdone <;> cases hdone
        | waitAd hq | waitMsg hq => rw [hq] at hdone; cases hdone
      rw [hall, hstart, hes]
      simpa using congrArg List.length htrace

end Run

/-- An operation comes to its end, with the last mask used. -/
theorem Host.exists_state_done {env : ℕ → CoreIn} {s : Core} {adBlock msgBlock : ℕ → BitVec 128}
    (host : Host env s adBlock msgBlock) (hs : s.FromReset) (hidle : s.state = .idle) :
    ∃ n, Live env s n ∧ (run Core.step env s n).state = .done := by
  obtain ⟨n, hout⟩ := host.run_op hs hidle
  obtain ⟨n, rfl⟩ : ∃ k, n = k + 1 := ⟨n - 1, by have := hout.firstDone.pos; omega⟩
  have hlive : Live env s n := fun u hpos hle => hout.firstDone.low u hpos (by omega)
  refine ⟨n, hlive, ?_⟩
  by_contra hne
  have hlow : (run Core.step env s n).state = .idle ∨ (run Core.step env s n).done = false := by
    rcases Nat.eq_zero_or_pos n with rfl | hpos
    · exact .inl hidle
    · exact .inr (hlive n hpos le_rfl)
  have hhigh := hout.firstDone.high
  rw [run_succ, step_done_low hne hlow] at hhigh
  cases hhigh

/-- Two AD blocks and two message blocks take four masks. -/
theorem masks_distinct_firmware :
    let ls := trace (maskUsed firmwareEnv (default : Core).reset)
    ∃ n, (∀ l ∈ ls n, l ≠ 0) ∧ (ls n).Nodup ∧
      (ls n).map elt <+: [(1, 0), (1, 2), (2, 2), (2, 4)].map
        (fun e : ℕ × ℕ => elt 2 ^ e.1 * elt 3 ^ e.2 * elt (firstMask firmwareEnv)) ∧
      (ls n).length = 4 := by
  obtain ⟨n, hlive, hdone⟩ := firmwareEnv_host.exists_state_done (.init ⟨default, rfl⟩) rfl
  obtain ⟨hne, hnodup, hprefix, hlength⟩ := masks_distinct (.init ⟨default, rfl⟩) rfl rfl
    (fun _ _ => rfl) (fun _ _ => rfl) (by decide +kernel) hlive
  exact ⟨n, hne, hnodup, hprefix, hlength hdone⟩

end PicoSoc.GiftCofb
