import PicoSoc.Xoodyak.Outcome
import PicoSoc.GiftCofb.RoundTrip

set_option autoImplicit false

/-! # What an operation leaves to the next one

Two runs of one operation from different idle states. Tags and `valid` never depend on the history;
`data_out` does where the operation writes only a part of its register, or none of it. -/

namespace PicoSoc

open Bytes Clocked

/-! ## Xoodyak -/

namespace Xoodyak

variable {n : ℕ}

theorem collectedOut_eq_iff (op : CoreIn) (old old' : BitVec 128) :
    collectedOut op old = collectedOut op old' ↔
      op.selType = modeHash ∨
        ∀ i, 4 * words op.dataLength ≤ i → i < 16 → byteBE 16 old i = byteBE 16 old' i := by
  rw [collectedOut, collectedOut]
  by_cases hmode : op.selType = modeHash
  · rw [if_pos hmode, if_pos hmode]
    exact ⟨fun _ => .inl hmode, fun _ => squeezed_four _ old old'⟩
  · rw [if_neg hmode, if_neg hmode]
    have hle := words_le op.dataLength
    constructor
    · intro h
      refine .inr fun i hi hi16 => ?_
      rw [← byteBE_collectWords_of_le _ old hle hi hi16, h, byteBE_collectWords_of_le _ _ hle hi hi16]
    · intro h
      apply eq_of_byteBE 16 rfl
      intro i hi
      rcases Nat.lt_or_ge i (4 * words op.dataLength) with hlt | hge
      · rw [byteBE_collectWords _ old hle hlt, byteBE_collectWords _ old' hle hlt]
      · rw [byteBE_collectWords_of_le _ old hle hge hi, byteBE_collectWords_of_le _ old' hle hge hi]
        exact h.resolve_left hmode i hge hi

/-- The idle core shows what it has collected. -/
theorem dataOut_of_idle {s : Core} (h : s.FromReset n) :
    s.stateR = .idle → s.dataOutR = s.dataOut := by
  induction h with
  | init h => exact fun _ => h ▸ rfl
  | @step s i _ hi ih =>
      have hi' : i.restart = false := hi
      intro hnext
      rw [Core.step, hi'] at hnext ⊢
      have hout : s.dataOutNext = s.dataOutR ∧
          (if s.stateR = .done then s.dataOutR else s.dataOut) = s.dataOutR := by
        rcases stateNext_eq_idle hnext with h | h
        · exact ⟨by rw [Core.dataOutNext, h], by rw [h, ih h]; rfl⟩
        · exact ⟨by rw [Core.dataOutNext, h], if_pos h⟩
      exact hout.1.trans hout.2.symm

/-- The encryption of a block, to fill the output register. -/
def fillOp (data : BitVec 128) : CoreIn where
  ena := true
  restart := false
  selType := modeAeadEnc
  key := 0
  nonce := 0
  ad := 0
  adLength := 0
  dataIn := data
  dataLength := 16
  tagIn := 0

/-- Two histories that leave different output registers. -/
theorem exists_leftover (hn : n ∣ 12) :
    ∃ s s' : Core, s.FromReset n ∧ s.stateR = .idle ∧ s'.FromReset n ∧ s'.stateR = .idle ∧
      byteBE 16 s.dataOutR 15 ≠ byteBE 16 s'.dataOutR 15 := by
  have hfill : ∀ data : BitVec 128, ∃ s : Core, s.FromReset n ∧ s.stateR = .idle ∧
      byteBE 16 s.dataOutR 15 =
        byteLE (wordOut (adState 0 0 (keyState 0 0)) 3) 3 ^^^ byteBE 16 data 15 := by
    intro data
    obtain ⟨k, hrun⟩ := run_collected hn (fillOp data) rfl
    have hreset : Core.reset.FromReset n := .init rfl
    obtain ⟨-, hidle, hout, -⟩ := hrun Core.reset hreset rfl (fun _ => fillOp data)
      (fun _ => rfl) rfl
    have hreach : (run (Core.step n) (fun _ => fillOp data) Core.reset k).FromReset n :=
      Reachable.run hreset (fun _ => (rfl : NoRestart (fillOp data))) k
    refine ⟨_, hreach, hidle, ?_⟩
    have hmode : modeAeadEnc ≠ modeHash := by decide
    rw [dataOut_of_idle hreach hidle, hout, collectedOut]
    refine (congrArg (byteBE 16 · 15) (if_neg hmode)).trans ?_
    have hbyte := byteBE_collectWords (streamWord data (adState 0 0 (keyState 0 0)))
      Core.reset.dataOutR (j := 4) (i := 15) (by decide) (by decide)
    rw [streamWord, byteLE_xor, byteLE_inputWord _ (by decide) (by decide)] at hbyte
    have hwords : words 16 = 4 := by decide
    show byteBE 16 (collectWords (fun j => byteSwap
      (streamWord data (adState 0 0 (keyState 0 0)) j)) (words 16) Core.reset.dataOutR) 15 = _
    rw [hwords]
    exact hbyte
  obtain ⟨s, hs, hidle, hbyte⟩ := hfill 0
  obtain ⟨s', hs', hidle', hbyte'⟩ := hfill 1
  refine ⟨s, s', hs, hidle, hs', hidle', fun h => ?_⟩
  rw [hbyte, hbyte', BitVec.xor_right_inj] at h
  exact absurd h (by decide)

/-- Two states give one operation the same visible results. -/
def SameResults (n : ℕ) (env : ℕ → CoreIn) (s s' : Core) : Prop :=
  ∀ k k', FirstDone (Core.step n) env s Core.done k → FirstDone (Core.step n) env s' Core.done k' →
    (run (Core.step n) env s k).dataOut = (run (Core.step n) env s' k').dataOut ∧
      (run (Core.step n) env s k).tag = (run (Core.step n) env s' k').tag ∧
      (run (Core.step n) env s k).valid = (run (Core.step n) env s' k').valid

/-- For two histories: the words that the operation does not write agree. -/
theorem sameResults_iff (hn : n ∣ 12) {env : ℕ → CoreIn} (henv : ∀ t, NoRestart (env t))
    (hena : (env 0).ena = true) {s s' : Core} (hs : s.FromReset n) (hidle : s.stateR = .idle)
    (hs' : s'.FromReset n) (hidle' : s'.stateR = .idle) :
    SameResults n env s s' ↔ (env 0).selType = modeHash ∨
      ∀ i, 4 * words (env 0).dataLength ≤ i → i < 16 →
        byteBE 16 s.dataOutR i = byteBE 16 s'.dataOutR i := by
  obtain ⟨k, hrun⟩ := run_collected hn (env 0) hena
  obtain ⟨hdone, -, hout, htag, hvalid⟩ := hrun s hs hidle env henv rfl
  obtain ⟨hdone', -, hout', htag', hvalid'⟩ := hrun s' hs' hidle' env henv rfl
  rw [← collectedOut_eq_iff]
  constructor
  · intro h
    rw [← hout, ← hout']
    exact (h k k hdone hdone').1
  · intro h m m' hm hm'
    obtain rfl := hm.unique hdone
    obtain rfl := hm'.unique hdone'
    exact ⟨by rw [hout, hout', h], by rw [htag, htag'], by rw [hvalid, hvalid']⟩

/-- For all histories: a hash, or data that fill the last word. -/
theorem sameResults_all_iff (hn : n ∣ 12) {env : ℕ → CoreIn} (henv : ∀ t, NoRestart (env t))
    (hena : (env 0).ena = true) :
    (∀ s s' : Core, s.FromReset n → s.stateR = .idle → s'.FromReset n → s'.stateR = .idle →
      SameResults n env s s') ↔
      (env 0).selType = modeHash ∨ 13 ≤ (env 0).dataLength.toNat := by
  constructor
  · intro h
    obtain ⟨s, s', hs, hidle, hs', hidle', hne⟩ := exists_leftover hn
    rcases (sameResults_iff hn henv hena hs hidle hs' hidle').1 (h s s' hs hidle hs' hidle') with
      hmode | hall
    · exact .inl hmode
    · refine .inr ?_
      by_contra hshort
      exact hne (hall 15 (by rw [words]; omega) (by decide))
  · rintro h s s' hs hidle hs' hidle'
    rw [sameResults_iff hn henv hena hs hidle hs' hidle']
    refine h.imp id fun hlen i hi hi16 => ?_
    rw [words] at hi
    omega

end Xoodyak

/-! ## GIFT-COFB -/

namespace GiftCofb

/-- Two states that a host cannot tell apart by the requests, now or later. -/
structure Core.SameControl (s s' : Core) : Prop where
  state : s'.state = s.state
  done : s'.done = s.done
  adReq : s'.adReq = s.adReq
  msgReq : s'.msgReq = s.msgReq
  giftStart : s'.giftStart = s.giftStart
  busy : s'.gift.busy = s.gift.busy
  giftDone : s'.gift.done = s.gift.done
  round : s.gift.busy = true → s'.gift.round = s.gift.round
  remaining : s.state ≠ .idle →
    s'.remainingAd = s.remainingAd ∧ s'.remainingMsg = s.remainingMsg
  isLastAd : s.state = .waitAd → s'.isLastAd = s.isLastAd
  isLastMsg : s.state = .waitMsg → s'.isLastMsg = s.isLastMsg

theorem Core.SameControl.gift {s s' : Core} (h : s.SameControl s') (i : CoreIn) :
    (Core.step i s').gift.busy = (Core.step i s).gift.busy ∧
      (Core.step i s').gift.done = (Core.step i s).gift.done ∧
      ((Core.step i s).gift.busy = true →
        (Core.step i s').gift.round = (Core.step i s).gift.round) := by
  have hround := h.round
  simp only [Core.step, Gift.step, Core.giftInputs, h.giftStart, h.busy]
  by_cases hload : (s.giftStart && !s.gift.busy) = true
  · simp [hload]
  · by_cases hbusy : s.gift.busy = true
    · simp [hbusy, hround hbusy]
    · have hidle : s.gift.busy = false := by simpa using hbusy
      have hlow : s.giftStart = false := by simpa [hidle] using hload
      simp [hlow, hidle]

theorem Core.SameControl.step {s s' : Core} (h : s.SameControl s') (i : CoreIn) :
    (Core.step i s).SameControl (Core.step i s') := by
  obtain ⟨hbusy, hgiftDone, hround⟩ := h.gift i
  obtain ⟨hstate, hdone, hadReq, hmsgReq, -, -, hgd, -, hrem, hlastAd, hlastMsg⟩ := h
  refine ⟨?_, ?_, ?_, ?_, ?_, hbusy, hgiftDone, hround, ?_, ?_, ?_⟩
  all_goals
    clear hbusy hgiftDone hround
    simp only [Core.step, Core.fsmStep, hstate]
    cases hs : s.state <;> simp only [hs, hgd, Core.clear] at * <;> (repeat' split) <;> simp_all

theorem Core.SameControl.started {s s' : Core} (hs : s.FromReset) (hidle : s.state = .idle)
    (hs' : s'.FromReset) (hidle' : s'.state = .idle) {i : CoreIn} (hstart : i.start = true) :
    (Core.step i s).SameControl (Core.step i s') := by
  obtain ⟨hgs, hbusy, hgd⟩ := hs.inv.rest (by rw [hidle]; rfl)
  obtain ⟨hgs', hbusy', hgd'⟩ := hs'.inv.rest (by rw [hidle']; rfl)
  have hstep : ∀ t : Core, t.state = .idle → t.giftStart = false → t.gift.busy = false →
      t.gift.done = false → Core.step i t = t.started i := by
    intro t hidle hgs hbusy hgd
    have hgift : { t.gift with done := false } = t.gift := by rw [← hgd]
    unfold Core.step Core.fsmStep
    rw [gift_step_rest hbusy hgs, hgift]
    simp [hidle, hstart, Core.started, Core.clear]
  rw [hstep s hidle hgs hbusy hgd, hstep s' hidle' hgs' hbusy' hgd']
  exact ⟨rfl, rfl, rfl, rfl, rfl, hbusy'.trans hbusy.symm, hgd'.trans hgd.symm,
    fun h => absurd h (by simp [Core.started, Core.clear, hbusy]), fun _ => ⟨rfl, rfl⟩,
    fun h => absurd (show FsmState.waitNonce = .waitAd from h) (by decide),
    fun h => absurd (show FsmState.waitNonce = .waitMsg from h) (by decide)⟩

theorem Core.SameControl.run {s s' : Core} (hs : s.FromReset) (hidle : s.state = .idle)
    (hs' : s'.FromReset) (hidle' : s'.state = .idle) {env : ℕ → CoreIn}
    (hstart : (env 0).start = true) (t : ℕ) :
    (run Core.step env s (t + 1)).SameControl (run Core.step env s' (t + 1)) := by
  induction t with
  | zero => exact .started hs hidle hs' hidle' hstart
  | succ t ih => exact ih.step (env (t + 1))

/-- A host that serves an operation from one idle state serves it from every one. -/
theorem Host.transfer {env : ℕ → CoreIn} {s s' : Core} {adBlock msgBlock : ℕ → BitVec 128}
    (host : Host env s adBlock msgBlock) (hs : s.FromReset) (hidle : s.state = .idle)
    (hs' : s'.FromReset) (hidle' : s'.state = .idle) : Host env s' adBlock msgBlock := by
  have hsame := Core.SameControl.run hs hidle hs' hidle' host.start
  have hlive : Live env s' = Live env s := by
    funext t
    refine propext (forall_congr' fun u => imp_congr_right fun hu => imp_congr_right fun _ => ?_)
    obtain ⟨v, rfl⟩ : ∃ v, u = v + 1 := ⟨u - 1, by omega⟩
    rw [(hsame v).done]
  have hads : adReqs env s' = adReqs env s := by
    funext t
    cases t with
    | zero => exact (hs'.silent hidle').1.trans (hs.silent hidle).1.symm
    | succ t => exact (hsame t).adReq
  have hmsgs : msgReqs env s' = msgReqs env s := by
    funext t
    cases t with
    | zero => exact (hs'.silent hidle').2.1.trans (hs.silent hidle).2.1.symm
    | succ t => exact (hsame t).msgReq
  obtain ⟨hstart, hkey, hlen, hmode, htag, had, hmsg⟩ := host
  rw [← hlive] at hkey hlen hmode htag had hmsg
  rw [← hads] at had
  rw [← hmsgs] at hmsg
  exact ⟨hstart, hkey, hlen, hmode, htag, had, hmsg⟩

/-- The encryption of a block, to fill the output register. -/
def fillOp (data : BitVec 128) (t : ℕ) : CoreIn where
  start := decide (t = 0)
  decryptMode := false
  key := 0
  nonce := 0
  adData := 0
  adTotalLen := 0
  adAck := false
  msgData := data
  msgTotalLen := 16
  msgAck := false
  tagIn := 0

/-- The chain that the block meets. -/
def fillChain : Cofb.Chain :=
  Cofb.afterAd (Spec.gift128 0) (leftBytes 16 16 0#128) [] (leftBytes 16 16 0#128)

/-- The output register after `fillOp`. -/
theorem run_fillOp (data : BitVec 128) :
    ∃ s : Core, s.FromReset ∧ s.state = .idle ∧ s.dataOut = fillChain.y ^^^ data := by
  have hreset : (default : Core).reset.FromReset := .init ⟨default, rfl⟩
  have host : Host (fillOp data) (default : Core).reset (fun _ => 0) (fun _ => data) :=
    Host.constant (fillOp data 0) (fun t => decide (t = 0)) rfl
      (show lastNow 0 = true by decide) (show lastNow 16 = true by decide) rfl rfl (.reset default)
  obtain ⟨n, h⟩ := host.run_op hreset rfl
  refine ⟨_, hreset.run (fun _ => trivial) n, h.idle fun t ht => decide_eq_false (by omega), ?_⟩
  have hbytes : Host.msgBytes (fillOp data) (fun _ => data) = streamBytes (fun _ => data) 16 := rfl
  have hblocks : Cofb.blocks (streamBytes (fun _ => data) 16) = [leftBytes 16 16 data] := by
    rw [blocks_streamBytes]
    rfl
  have hchain : Host.adChain (fillOp data) (fun _ => 0) (fun _ => data) = fillChain :=
    Cofb.afterAd_congr _ _ _ (by rw [hbytes, length_streamBytes, length_leftBytes])
  have hxor := xorBlock_eq fillChain data (n := 16) (by decide)
  rw [xorBlock_full] at hxor
  rw [h.dataOut, Host.reference_eq, hchain, hbytes, hblocks, hxor]
  rfl

/-- Two histories that leave different output registers. -/
theorem exists_leftover :
    ∃ s s' : Core, s.FromReset ∧ s.state = .idle ∧ s'.FromReset ∧ s'.state = .idle ∧
      s.dataOut ≠ s'.dataOut := by
  obtain ⟨s, hs, hidle, hout⟩ := run_fillOp 0
  obtain ⟨s', hs', hidle', hout'⟩ := run_fillOp 1
  refine ⟨s, s', hs, hidle, hs', hidle', fun h => ?_⟩
  rw [hout, hout', BitVec.xor_right_inj] at h
  exact absurd h (by decide)

theorem reference_eq_nil (env : ℕ → CoreIn) (adBlock msgBlock : ℕ → BitVec 128) :
    (Host.reference env adBlock msgBlock).1 = [] ↔ (env 0).msgTotalLen = 0 := by
  rw [Host.reference_eq, ← List.length_eq_zero_iff, Cofb.length_cryptAll, Host.msgBytes,
    blocks_streamBytes, List.length_map, List.length_range, ← BitVec.toNat_inj]
  show _ ↔ (env 0).msgTotalLen.toNat = 0
  omega

/-- Two states give one operation the same visible results. -/
def SameResults (env : ℕ → CoreIn) (s s' : Core) : Prop :=
  ∀ k k', FirstDone Core.step env s Core.done k → FirstDone Core.step env s' Core.done k' →
    (run Core.step env s k).dataOut = (run Core.step env s' k').dataOut ∧
      (run Core.step env s k).tagOut = (run Core.step env s' k').tagOut ∧
      (run Core.step env s k).valid = (run Core.step env s' k').valid

/-- For two histories: there is a message, or the output registers agree. -/
theorem sameResults_iff {env : ℕ → CoreIn} {s s' : Core} {adBlock msgBlock : ℕ → BitVec 128}
    (host : Host env s adBlock msgBlock) (hs : s.FromReset) (hidle : s.state = .idle)
    (hs' : s'.FromReset) (hidle' : s'.state = .idle) :
    SameResults env s s' ↔ (env 0).msgTotalLen ≠ 0 ∨ s.dataOut = s'.dataOut := by
  obtain ⟨k, h⟩ := host.run_op hs hidle
  obtain ⟨k', h'⟩ := (host.transfer hs hidle hs' hidle').run_op hs' hidle'
  have hiff : (run Core.step env s k).dataOut = (run Core.step env s' k').dataOut ↔
      (env 0).msgTotalLen ≠ 0 ∨ s.dataOut = s'.dataOut := by
    rw [h.dataOut, h'.dataOut]
    have hnil := reference_eq_nil env adBlock msgBlock
    cases houts : (Host.reference env adBlock msgBlock).1 with
    | nil => exact ⟨.inr, fun hcond => hcond.resolve_left fun hne => hne (hnil.1 houts)⟩
    | cons B Bs =>
        rw [houts] at hnil
        exact ⟨fun _ => .inl fun hzero => List.cons_ne_nil B Bs (hnil.2 hzero), fun _ => by
          rw [List.map_cons, List.getLastD_cons, List.getLastD_cons]⟩
  constructor
  · intro hres
    exact hiff.1 (hres k k' h.firstDone h'.firstDone).1
  · intro hcond m m' hm hm'
    obtain rfl := hm.unique h.firstDone
    obtain rfl := hm'.unique h'.firstDone
    exact ⟨hiff.2 hcond, by rw [h.tagOut, h'.tagOut], by rw [h.valid, h'.valid]⟩

/-- For all histories: there is a message. -/
theorem sameResults_all_iff {env : ℕ → CoreIn} {s₀ : Core} {adBlock msgBlock : ℕ → BitVec 128}
    (host : Host env s₀ adBlock msgBlock) (hs₀ : s₀.FromReset) (hidle₀ : s₀.state = .idle) :
    (∀ s s' : Core, s.FromReset → s.state = .idle → s'.FromReset → s'.state = .idle →
      SameResults env s s') ↔ (env 0).msgTotalLen ≠ 0 := by
  constructor
  · intro h
    obtain ⟨s, s', hs, hidle, hs', hidle', hne⟩ := exists_leftover
    exact ((sameResults_iff (host.transfer hs₀ hidle₀ hs hidle) hs hidle hs' hidle').1
      (h s s' hs hidle hs' hidle')).resolve_right hne
  · intro h s s' hs hidle hs' hidle'
    exact (sameResults_iff (host.transfer hs₀ hidle₀ hs hidle) hs hidle hs' hidle').2 (.inl h)

end GiftCofb

/-! ## Both cores -/

/-- No history shows in the results of an operation exactly when, in the Xoodyak core, it is a hash
    or its data reach into the fourth word, and, in the GIFT-COFB core, its message is not empty. -/
theorem no_leftover_iff {n : ℕ} (hn : n ∣ 12) {xdEnv : ℕ → Xoodyak.CoreIn}
    (henv : ∀ t, Xoodyak.NoRestart (xdEnv t)) (hena : (xdEnv 0).ena = true)
    {gcEnv : ℕ → GiftCofb.CoreIn} {s₀ : GiftCofb.Core} {adBlock msgBlock : ℕ → BitVec 128}
    (host : GiftCofb.Host gcEnv s₀ adBlock msgBlock) (hs₀ : s₀.FromReset)
    (hidle₀ : s₀.state = .idle) :
    ((∀ s s' : Xoodyak.Core, s.FromReset n → s.stateR = .idle → s'.FromReset n →
        s'.stateR = .idle → Xoodyak.SameResults n xdEnv s s') ↔
      (xdEnv 0).selType = Xoodyak.modeHash ∨ 13 ≤ (xdEnv 0).dataLength.toNat) ∧
    ((∀ s s' : GiftCofb.Core, s.FromReset → s.state = .idle → s'.FromReset → s'.state = .idle →
        GiftCofb.SameResults gcEnv s s') ↔ (gcEnv 0).msgTotalLen ≠ 0) :=
  ⟨Xoodyak.sameResults_all_iff hn henv hena, GiftCofb.sameResults_all_iff host hs₀ hidle₀⟩

/-- Full blocks leave nothing. -/
theorem no_leftover_iff_fill :
    ((∀ s s' : Xoodyak.Core, s.FromReset 1 → s.stateR = .idle → s'.FromReset 1 →
        s'.stateR = .idle → Xoodyak.SameResults 1 (fun _ => Xoodyak.fillOp 0) s s') ↔
      (Xoodyak.fillOp 0).selType = Xoodyak.modeHash ∨ 13 ≤ (Xoodyak.fillOp 0).dataLength.toNat) ∧
    ((∀ s s' : GiftCofb.Core, s.FromReset → s.state = .idle → s'.FromReset → s'.state = .idle →
        GiftCofb.SameResults (GiftCofb.fillOp 0) s s') ↔ (GiftCofb.fillOp 0 0).msgTotalLen ≠ 0) :=
  @no_leftover_iff 1 (by decide) (fun _ => Xoodyak.fillOp 0) (fun _ => rfl) rfl
    (GiftCofb.fillOp 0) (default : GiftCofb.Core).reset (fun _ => 0) (fun _ => 0)
    (GiftCofb.Host.constant (GiftCofb.fillOp 0 0) (fun t => decide (t = 0)) rfl (by decide)
      (by decide) rfl rfl (.reset default)) (.init ⟨default, rfl⟩) rfl

/-- The encryption of an empty message, with one block of associated data. -/
def Xoodyak.emptyOp : Xoodyak.CoreIn :=
  { Xoodyak.fillOp 0 with adLength := 16, dataLength := 0 }

def GiftCofb.emptyOp : GiftCofb.CoreIn :=
  { GiftCofb.fillOp 0 0 with adTotalLen := 16, msgTotalLen := 0 }

/-- Empty messages leave the block of the operation before. -/
theorem leftover_of_empty_message :
    ¬ (∀ s s' : Xoodyak.Core, s.FromReset 1 → s.stateR = .idle → s'.FromReset 1 →
        s'.stateR = .idle → Xoodyak.SameResults 1 (fun _ => Xoodyak.emptyOp) s s') ∧
    ¬ (∀ s s' : GiftCofb.Core, s.FromReset → s.state = .idle → s'.FromReset → s'.state = .idle →
        GiftCofb.SameResults (fun _ => GiftCofb.emptyOp) s s') := by
  constructor
  · intro h
    have hcond := (@Xoodyak.sameResults_all_iff 1 (by decide) (fun _ => Xoodyak.emptyOp)
      (fun _ => rfl) rfl).1 h
    exact absurd hcond (by decide)
  · intro h
    have host : GiftCofb.Host (fun _ => GiftCofb.emptyOp) (default : GiftCofb.Core).reset _ _ :=
      GiftCofb.Host.constant GiftCofb.emptyOp (fun _ => true) rfl (by decide) (by decide) rfl rfl
        (.reset default)
    exact (GiftCofb.sameResults_all_iff host (.init ⟨default, rfl⟩) rfl).1 h rfl

end PicoSoc
