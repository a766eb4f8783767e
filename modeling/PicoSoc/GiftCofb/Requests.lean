import PicoSoc.GiftCofb.Refinement

set_option autoImplicit false

/-! # From request to request

With its inputs held, the core runs from a start or an answer to its next request or to its end, and
signals nothing on the way. -/

namespace PicoSoc.GiftCofb

open Bytes Clocked

/-! ## Silent runs -/

def Core.Low (c : Core) : Prop := c.adReq = false ∧ c.msgReq = false

/-- The core comes to `P` in `n` cycles under the inputs `i`. -/
inductive ComesTo (i : CoreIn) (P : Core → Prop) : ℕ → Core → Prop
  | here {c : Core} (low : c.Low) (h : P c) : ComesTo i P 0 c
  | step {n : ℕ} {c : Core} (low : c.Low) (done : c.done = false) (h : ComesTo i P n (c.step i)) :
      ComesTo i P (n + 1) c

variable {i : CoreIn} {P P' : Core → Prop} {c : Core}

theorem ComesTo.low {n : ℕ} (h : ComesTo i P n c) : c.Low := by
  cases h with
  | here low _ => exact low
  | step low _ _ => exact low

theorem ComesTo.next {n : ℕ} (h : ComesTo i P (n + 1) c) : c.done = false ∧ ComesTo i P n (c.step i) := by
  cases h with
  | step _ done h => exact ⟨done, h⟩

theorem ComesTo.trans {n : ℕ} (h : ComesTo i P n c) (hP : ∀ c, P c → ∃ m, ComesTo i P' m c) :
    ∃ m, ComesTo i P' m c := by
  induction h with
  | here _ h => exact hP _ h
  | step low done _ ih =>
      obtain ⟨m, hm⟩ := ih
      exact ⟨m + 1, .step low done hm⟩

theorem comesTo_of_run {n : ℕ} (hlow : ∀ m ≤ n, (run Core.step (fun _ => i) c m).Low)
    (hdone : ∀ m < n, (run Core.step (fun _ => i) c m).done = false)
    (h : P (run Core.step (fun _ => i) c n)) : ComesTo i P n c := by
  induction n generalizing c with
  | zero => exact .here (hlow 0 le_rfl) h
  | succ n ih =>
      rw [run_succ_head] at h
      refine .step (hlow 0 (by omega)) (hdone 0 (by omega)) (ih (fun m hm => ?_) (fun m hm => ?_) h)
      · have hstep := hlow (m + 1) (by omega)
        rwa [run_succ_head] at hstep
      · have hstep := hdone (m + 1) (by omega)
        rwa [run_succ_head] at hstep

/-- A call of the cipher. -/
theorem DuringCall.leads {q p : FsmState} {c₁ : Core} {env : ℕ → CoreIn}
    (h : DuringCall q c₁ (run Core.step env c)) (henv : ∀ k, env (k + 1) = i)
    (hP : P (run Core.step env c 43)) (hquiet : (run Core.step env c 43).Quiet p) :
    ComesTo i P 42 (Core.step (env 0) c) := by
  have hrun (m : ℕ) : run Core.step (fun _ => i) (Core.step (env 0) c) m =
      run Core.step env c (m + 1) := by
    rw [run_succ_head]
    simp only [henv]
  refine comesTo_of_run (fun m hm => ?_) (fun m hm => ?_) ?_
  · rw [hrun]
    rcases Nat.eq_or_lt_of_le hm with rfl | hlt
    · exact ⟨hquiet.adReq, hquiet.msgReq⟩
    · exact ⟨h.adReq _ (by omega) (by omega), h.msgReq _ (by omega) (by omega)⟩
  · rw [hrun]
    exact h.done _ (by omega) (by omega)
  · rw [hrun]
    exact hP

/-! ## The calls -/

/-- The call for the nonce. -/
theorem comesTo_start (hs : c.FromReset) (hidle : c.state = .idle) {j : CoreIn}
    (hstart : j.start = true) (hkey : i.key = j.key) :
    ComesTo i (Core.After .procAd (Spec.gift128 j.key j.nonce)
      ((Spec.gift128 j.key j.nonce).extractLsb' 64 64) j.adTotalLen j.msgTotalLen c.dataOut) 42
      (Core.step j c) := by
  let env : ℕ → CoreIn := fun n => n.casesOn j fun _ => i
  obtain ⟨hafter, hduring⟩ := @run_nonce c hs.inv hidle env hstart j.key hkey
  exact hduring.leads (fun _ => rfl) hafter hafter.quiet

section

variable {y : BitVec 128} {l : BitVec 64} {ra rm : BitVec 8} {d : BitVec 128}

theorem comesTo_procAd (hs : c.At .procAd y l ra rm) (i : CoreIn) :
    ComesTo i (Core.After (adExit ra i.emptyM)
      (chainNext i.key (pho1 y i.adData (blockBytes ra)) (adMask ra i.emptyM l))
      (adMask ra i.emptyM l) (remainingNext ra) rm c.dataOut) 42 (Core.step i c) := by
  obtain ⟨c₁, -, hduring, hafter⟩ := run_procAd hs (fun _ => i) rfl
  exact hduring.leads (fun _ => rfl) (hafter rfl) (hafter rfl).quiet

theorem comesTo_procMsg (hs : c.At .procMsg y l ra rm) (i : CoreIn) :
    ComesTo i (Core.After (msgExit rm)
      (chainNext i.key (phoMsg i.decryptMode y i.msgData (blockBytes rm)).2 (msgMask rm l))
      (msgMask rm l) ra (remainingNext rm) (phoMsg i.decryptMode y i.msgData (blockBytes rm)).1) 42
      (Core.step i c) := by
  obtain ⟨c₁, -, -, hduring, hafter⟩ := run_procMsg hs (fun _ => i) rfl rfl
  exact hduring.leads (fun _ => rfl) hafter hafter.quiet

/-! ## In the terms of the mode -/

variable {C : Cofb.Chain} {B : List Byte}

/-- An AD block `B`. -/
theorem comesTo_absorb (hs : c.At .procAd C.y C.l ra rm)
    (hB : leftBytes 16 (blockBytes ra).toNat i.adData = B) :
    ComesTo i (Core.After (adExit ra i.emptyM)
      (Cofb.absorb (Spec.gift128 i.key) (adMask ra i.emptyM C.l) B C).y (adMask ra i.emptyM C.l)
      (remainingNext ra) rm c.dataOut) 42 (Core.step i c) := by
  have hlead := comesTo_procAd hs i
  rw [chainNext_eq i.key _ C.y _ B C rfl
    (by rw [← hB, pho1_eq _ _ (by rw [toNat_blockBytes]; omega)])] at hlead
  exact hlead

/-- A message block `B`. -/
theorem comesTo_crypt (hs : c.At .procMsg C.y C.l ra rm)
    (hB : leftBytes 16 (blockBytes rm).toNat i.msgData = B) :
    ComesTo i (Core.After (msgExit rm)
      (Cofb.absorb (Spec.gift128 i.key) (msgMask rm C.l) (Cofb.plain i.decryptMode C B) C).y
      (msgMask rm C.l) ra (remainingNext rm) (Cofb.toBlock (Cofb.output C B))) 42
      (Core.step i c) := by
  have hlead := comesTo_procMsg hs i
  rw [phoMsg_eq i.decryptMode C i.msgData (n := blockBytes rm) (by rw [toNat_blockBytes]; omega),
    hB, chainNext_eq i.key _ C.y _ _ C rfl rfl] at hlead
  exact hlead

/-- An AD block right after another call. -/
theorem Core.After.comesTo_absorb (hs : c.After .procAd C.y C.l ra rm d)
    (hB : leftBytes 16 (blockBytes ra).toNat i.adData = B) :
    ComesTo i (Core.After (adExit ra i.emptyM)
      (Cofb.absorb (Spec.gift128 i.key) (adMask ra i.emptyM C.l) B C).y (adMask ra i.emptyM C.l)
      (remainingNext ra) rm d) 43 c := by
  have hlead := GiftCofb.comesTo_absorb hs.at_ hB
  rw [hs.dataOut] at hlead
  exact .step ⟨hs.quiet.adReq, hs.quiet.msgReq⟩ hs.quiet.done hlead

/-- A message block right after another call. -/
theorem Core.After.comesTo_crypt (hs : c.After .procMsg C.y C.l ra rm d)
    (hB : leftBytes 16 (blockBytes rm).toNat i.msgData = B) :
    ComesTo i (Core.After (msgExit rm)
      (Cofb.absorb (Spec.gift128 i.key) (msgMask rm C.l) (Cofb.plain i.decryptMode C B) C).y
      (msgMask rm C.l) ra (remainingNext rm) (Cofb.toBlock (Cofb.output C B))) 43 c :=
  .step ⟨hs.quiet.adReq, hs.quiet.msgReq⟩ hs.quiet.done (GiftCofb.comesTo_crypt hs.at_ hB)

/-- The end of an operation. -/
structure Core.Ended (d tag : BitVec 128) (valid : Bool) (c : Core) : Prop where
  done : c.done = true
  state : c.state = .idle
  dataOut : c.dataOut = d
  tagOut : c.tagOut = tag
  valid : c.valid = valid

theorem Core.After.comesTo_end (hs : c.After .done y l ra rm d) (hstart : i.start = false) :
    ComesTo i (Core.Ended d y (if i.decryptMode then y == i.tagIn else true)) 1 c := by
  obtain ⟨hdone, htag, hout, hadReq, hmsgReq, -, hvalid, hidle⟩ := step_done hs.at_ i
  rw [hs.tagOut rfl] at htag hvalid
  rw [hs.dataOut] at hout
  exact .step ⟨hs.quiet.adReq, hs.quiet.msgReq⟩ hs.quiet.done
    (.here ⟨hadReq, hmsgReq⟩ ⟨hdone, hidle hstart, hout, htag, hvalid⟩)

/-! ## The requests -/

/-- The length that is left after a full block. -/
theorem length_next {rem : BitVec 8} {len j : ℕ} (hmore : lastNow rem = false)
    (hlen : len = 16 * j + rem.toNat) : len = 16 * (j + 1) + (rem - 16).toNat := by
  have hlt : 16 < rem.toNat := by
    by_contra hle
    rw [(lastNow_iff rem).2 (by omega)] at hmore
    cases hmore
  rw [BitVec.toNat_sub_of_le (by rw [BitVec.le_def]; exact hlt.le)]
  show len = 16 * (j + 1) + (rem.toNat - 16)
  omega

/-- The core with a request raised. -/
def Core.asksAd (c : Core) : Core := { c with adReq := true }
def Core.asksMsg (c : Core) : Core := { c with msgReq := true }

theorem Core.After.step_ad (hs : c.After .reqAd y l ra rm d) (hack : i.adAck = false) :
    Core.step i c = c.asksAd ∧ Core.step i c.asksAd = c.asksAd := by
  have hlow : ({ c with adReq := false } : Core) = c := by rw [← hs.quiet.adReq]
  have hfirst := step_reqAd hs.at_ hs.quiet false i
  have hnext := step_reqAd hs.at_ hs.quiet true i
  rw [hack] at hfirst hnext
  rw [hlow] at hfirst
  exact ⟨hfirst, hnext⟩

theorem Core.After.step_msg (hs : c.After .reqMsg y l ra rm d) (hack : i.msgAck = false) :
    Core.step i c = c.asksMsg ∧ Core.step i c.asksMsg = c.asksMsg := by
  have hlow : ({ c with msgReq := false } : Core) = c := by rw [← hs.quiet.msgReq]
  have hfirst := step_reqMsg hs.at_ hs.quiet false i
  have hnext := step_reqMsg hs.at_ hs.quiet true i
  rw [hack] at hfirst hnext
  rw [hlow] at hfirst
  exact ⟨hfirst, hnext⟩

/-- The answer to a request. -/
theorem Core.After.ack_ad (hs : c.After .reqAd y l ra rm d) (hack : i.adAck = true) :
    (Core.step i c.asksAd).At .procAd y l ra rm ∧ (Core.step i c.asksAd).dataOut = d
      ∧ (Core.step i c.asksAd).done = false := by
  have hstep : Core.step i c.asksAd = _ := step_reqAd hs.at_ hs.quiet true i
  rw [hack, if_pos rfl] at hstep
  rw [hstep]
  obtain ⟨-, hy, hl, hra, hrm, hstart, hbusy, hgift, hdone⟩ := hs.at_
  exact ⟨⟨rfl, hy, hl, hra, hrm, hstart, hbusy, hgift, hdone⟩, hs.dataOut, hdone⟩

theorem Core.After.ack_msg (hs : c.After .reqMsg y l ra rm d) (hack : i.msgAck = true) :
    (Core.step i c.asksMsg).At .procMsg y l ra rm ∧ (Core.step i c.asksMsg).done = false := by
  have hstep : Core.step i c.asksMsg = _ := step_reqMsg hs.at_ hs.quiet true i
  rw [hack, if_pos rfl] at hstep
  rw [hstep]
  obtain ⟨-, hy, hl, hra, hrm, hstart, hbusy, hgift, hdone⟩ := hs.at_
  exact ⟨⟨rfl, hy, hl, hra, hrm, hstart, hbusy, hgift, hdone⟩, hdone⟩

end

end PicoSoc.GiftCofb
