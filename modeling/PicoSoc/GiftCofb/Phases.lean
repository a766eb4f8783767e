import PicoSoc.Library.Handshake
import PicoSoc.GiftCofb.Cipher
import PicoSoc.GiftCofb.Core

set_option autoImplicit false

/-! # The phases of an operation

A cipher call keeps the machine in its wait state for 42 cycles and hands over the block. Between
two calls the machine processes one block, or asks the host for the next one and waits. -/

namespace PicoSoc.GiftCofb

open Clocked

/-! ## Idle and busy states -/

/-- The states that wait for the cipher. -/
def FsmState.isWait : FsmState → Bool
  | .waitNonce | .waitAd | .waitMsg => true
  | _ => false

/-- Between two calls the engine is at rest; a wait state is left when its call has finished. -/
structure Core.Inv (s : Core) : Prop where
  busy : s.gift.busy = true →
    s.state.isWait = true ∧ s.giftStart = false ∧ s.gift.done = false
  start : s.giftStart = true → s.state.isWait = true ∧ s.gift.done = false
  done : s.gift.done = true → s.state.isWait = true

theorem Core.Inv.reset (s : Core) : s.reset.Inv := by
  constructor <;> simp [Core.reset, Gift.reset]

/-- A wait state with its call unfinished stays. -/
theorem step_waiting {s : Core} (hq : s.state.isWait = true) (hdone : s.gift.done = false)
    (i : CoreIn) :
    Core.step i s = { s.clear with gift := s.gift.step (s.giftInputs i) } := by
  unfold Core.step Core.fsmStep
  cases hs : s.state <;> rw [hs] at hq <;>
    first | exact absurd hq (by decide) | simp [hdone]

theorem gift_step_rest {g : Gift} (hbusy : g.busy = false) {i : GiftIn} (hstart : i.start = false) :
    g.step i = { g with done := false } := by
  simp [Gift.step, hbusy, hstart]

theorem gift_done_of_busy {g : Gift} {i : GiftIn} (h : (g.step i).busy = true) :
    (g.step i).done = false := by
  unfold Gift.step at h ⊢
  split
  · rfl
  · split
    · next hstart hbusy =>
      rw [if_neg hstart, if_pos hbusy] at h
      by_cases hlast : g.round = 39
      · simp [hlast] at h
      · exact if_neg hlast
    · rfl

/-- A state that starts a call goes to a wait state. -/
theorem fsmStep_giftStart {s : Core} (hq : s.state.isWait = false) (i : CoreIn) :
    (s.fsmStep i).giftStart = true → (s.fsmStep i).state.isWait = true := by
  unfold Core.fsmStep
  cases hs : s.state <;> rw [hs] at hq <;> intro h
  case waitNonce => exact absurd hq (by decide)
  case waitAd => exact absurd hq (by decide)
  case waitMsg => exact absurd hq (by decide)
  case idle =>
    dsimp only at h ⊢
    split at h
    · next hstart => rw [if_pos hstart]; rfl
    · exact absurd h (by simp [Core.clear])
  case procAd => rfl
  case procMsg => rfl
  case reqAd =>
    dsimp only at h
    split at h <;> exact absurd h (by simp [Core.clear])
  case reqMsg =>
    dsimp only at h
    split at h <;> exact absurd h (by simp [Core.clear])
  case done =>
    dsimp only at h
    split at h <;> exact absurd h (by simp [Core.clear])

theorem fsmStep_wait_giftStart {s : Core} (hq : s.state.isWait = true) (i : CoreIn) :
    (s.fsmStep i).giftStart = false := by
  unfold Core.fsmStep
  cases hs : s.state <;> rw [hs] at hq <;> first | exact absurd hq (by decide) | skip
  all_goals
    dsimp only
    repeat' split
    all_goals rfl

theorem Core.Inv.step {s : Core} (hs : s.Inv) (i : CoreIn) : (Core.step i s).Inv := by
  by_cases hq : s.state.isWait = true
  · by_cases hdone : s.gift.done = true
    · have hbusy : s.gift.busy = false := by
        by_contra h
        have := (hs.busy (by simpa using h)).2.2
        rw [hdone] at this
        cases this
      have hstart : s.giftStart = false := by
        by_contra h
        have := (hs.start (by simpa using h)).2
        rw [hdone] at this
        cases this
      have hgift : (Core.step i s).gift = { s.gift with done := false } :=
        gift_step_rest hbusy hstart
      have hnext : (Core.step i s).giftStart = false := fsmStep_wait_giftStart hq i
      constructor <;> simp [hgift, hbusy, hnext]
    · rw [step_waiting hq (by simpa using hdone)]
      constructor
      · intro _
        exact ⟨hq, rfl, gift_done_of_busy ‹_›⟩
      · intro h
        cases h
      · intro _
        exact hq
  · have hq' : s.state.isWait = false := by simpa using hq
    have hbusy : s.gift.busy = false := by
      by_contra h
      exact hq (hs.busy (by simpa using h)).1
    have hstart : s.giftStart = false := by
      by_contra h
      exact hq (hs.start (by simpa using h)).1
    have hgift : (Core.step i s).gift = { s.gift with done := false } :=
      gift_step_rest hbusy hstart
    constructor
    · rw [hgift]
      simp [hbusy]
    · intro h
      rw [hgift]
      exact ⟨fsmStep_giftStart hq' i h, rfl⟩
    · rw [hgift]
      simp

/-- The idle machine signals nothing. -/
def Core.Silent (s : Core) : Prop :=
  s.state = .idle → s.adReq = false ∧ s.msgReq = false ∧ s.dataOutValid = false

theorem Core.Silent.step (i : CoreIn) (s : Core) : (Core.step i s).Silent := by
  unfold Core.Silent Core.step Core.fsmStep
  cases hs : s.state <;> intro h
  case idle =>
    dsimp only
    split <;> exact ⟨rfl, rfl, rfl⟩
  case done =>
    dsimp only
    split <;> exact ⟨rfl, rfl, rfl⟩
  all_goals
    dsimp only at h
    repeat' split at h
    all_goals first | cases h | exact FsmState.noConfusion (hs.symm.trans h)

/-- The states of the core from a reset on. -/
def Core.FromReset : Core → Prop :=
  Reachable Core.step (fun s => ∃ t : Core, s = t.reset) (fun _ => True)

theorem Core.FromReset.inv {s : Core} (h : s.FromReset) : s.Inv :=
  h.invariant (fun _ ⟨t, ht⟩ => ht ▸ Core.Inv.reset t) (fun _ i _ hs => hs.step i)

theorem Core.FromReset.silent {s : Core} (h : s.FromReset) : s.Silent :=
  h.invariant (fun _ ⟨_, ht⟩ => ht ▸ fun _ => ⟨rfl, rfl, rfl⟩) (fun s i _ _ => .step i s)

/-! ## A cipher call -/

/-- Nothing is signalled to the host in state `q`. -/
structure Core.Quiet (q : FsmState) (s : Core) : Prop where
  state : s.state = q
  done : s.done = false
  adReq : s.adReq = false
  msgReq : s.msgReq = false
  dataOutValid : s.dataOutValid = false

/-- The call is about to start. -/
structure Core.Calling (q : FsmState) (s : Core) : Prop where
  state : s.state = q
  wait : q.isWait = true
  start : s.giftStart = true
  busy : s.gift.busy = false
  giftDone : s.gift.done = false
  done : s.done = false
  adReq : s.adReq = false
  msgReq : s.msgReq = false

/-- The input of the cipher. -/
def Core.cipherIn (s : Core) : BitVec 128 := xorTopbarBlock s.giftIn s.l

/-- The waiting machine with the engine in state `g`. -/
def Core.waiting (s : Core) (g : Gift) : Core := { s.clear with gift := g }

theorem waiting_quiet {q : FsmState} {s : Core} (h : s.Calling q) (g : Gift) :
    (s.waiting g).Quiet q :=
  ⟨h.state, h.done, rfl, rfl, rfl⟩

/-- The engine after the call. -/
def Core.finished (key : BitVec 128) (s : Core) : Gift :=
  engineAfter key s.cipherIn s.gift.ciphertext 40

/-- The engine reads its inputs at the first edge only. -/
theorem path_call {q : FsmState} {s : Core} (h : s.Calling q) (key : BitVec 128) :
    Path Core.step (fun _ => True) (Core.Quiet q) 40
      (s.waiting (engineAfter key s.cipherIn s.gift.ciphertext 0))
      (s.waiting (s.finished key)) := by
  refine Path.loop (fun n => s.waiting (engineAfter key s.cipherIn s.gift.ciphertext n)) 40
    (fun n hn i _ => ?_) (fun n _ => waiting_quiet h _)
  obtain ⟨-, -, -, hbusy, hdone⟩ := engineAfter_rounds key s.cipherIn s.gift.ciphertext
    (show n ≤ 40 by omega)
  rw [decide_eq_true hn] at hbusy
  rw [decide_eq_false (show n ≠ 40 by omega)] at hdone
  have hwait : (s.waiting (engineAfter key s.cipherIn s.gift.ciphertext n)).state.isWait = true :=
    h.state ▸ h.wait
  rw [step_waiting hwait hdone, engineAfter]
  generalize engineAfter key s.cipherIn s.gift.ciphertext n = g at hbusy ⊢
  have hstep := Gift.step_busy hbusy ((s.waiting g).giftInputs i) ⟨false, 0, 0⟩
  rw [← hstep]
  rfl

theorem step_calling {q : FsmState} {s : Core} (h : s.Calling q) (i : CoreIn) :
    Core.step i s = s.waiting (engineAfter i.key s.cipherIn s.gift.ciphertext 0) := by
  rw [step_waiting (h.state ▸ h.wait) h.giftDone]
  simp [Gift.step, Core.giftInputs, h.start, h.busy, engineAfter, Core.cipherIn, Core.waiting]

/-- What the host sees between the edge that starts a call and the one that takes its result. -/
structure DuringCall (q : FsmState) (s₁ : Core) (r : ℕ → Core) : Prop where
  first : r 1 = s₁
  state : ∀ k, 1 ≤ k → k ≤ 42 → (r k).state = q
  done : ∀ k, 1 ≤ k → k ≤ 42 → (r k).done = false
  adReq : ∀ k, 1 ≤ k → k ≤ 42 → (r k).adReq = false
  msgReq : ∀ k, 1 ≤ k → k ≤ 42 → (r k).msgReq = false
  dataOutValid : ∀ k, 2 ≤ k → k ≤ 42 → (r k).dataOutValid = false

/-- An edge into a wait state, the call, and the edge that takes its result. -/
theorem run_call {q : FsmState} {s s₁ : Core} {env : ℕ → CoreIn}
    (hstep : Core.step (env 0) s = s₁) (h : s₁.Calling q) :
    run Core.step env s 43 = Core.step (env 42) (s₁.waiting (s₁.finished (env 1).key)) ∧
      DuringCall q s₁ (run Core.step env s) := by
  obtain ⟨hend, hquiet⟩ := (path_call h (env 1).key).run (fun k => env (2 + k)) fun _ _ => trivial
  have hshift : ∀ k, run Core.step env s (2 + k) = run Core.step (fun k => env (2 + k))
      (s₁.waiting (engineAfter (env 1).key s₁.cipherIn s₁.gift.ciphertext 0)) k := by
    intro k
    rw [run_add, ← step_calling h, ← hstep]
    rfl
  have hquiet' : ∀ k, 2 ≤ k → k ≤ 42 → (run Core.step env s k).Quiet q := by
    intro k hk hk42
    obtain ⟨j, rfl⟩ : ∃ j, k = 2 + j := ⟨k - 2, by omega⟩
    rw [hshift]
    rcases Nat.eq_zero_or_pos j with rfl | hj
    · exact waiting_quiet h _
    · exact hquiet j hj (by omega)
  have hfirst : run Core.step env s 1 = s₁ := hstep
  refine ⟨by rw [run_succ, hshift 40, hend], hfirst, ?_, ?_, ?_, ?_, fun k hk hk42 =>
    (hquiet' k hk hk42).dataOutValid⟩
  all_goals
    intro k hk hk42
    rcases Nat.eq_or_lt_of_le hk with rfl | hlt
  · rw [hfirst]; exact h.state
  · exact (hquiet' k hlt hk42).state
  · rw [hfirst]; exact h.done
  · exact (hquiet' k hlt hk42).done
  · rw [hfirst]; exact h.adReq
  · exact (hquiet' k hlt hk42).adReq
  · rw [hfirst]; exact h.msgReq
  · exact (hquiet' k hlt hk42).msgReq

/-! ## Between two calls -/

/-- The machine in state `q` with the chain `(y, l)` and the engine at rest. -/
structure Core.At (q : FsmState) (y : BitVec 128) (l : BitVec 64) (remainingAd remainingMsg : BitVec 8)
    (s : Core) : Prop where
  state : s.state = q
  y : s.yPrev = y
  l : s.l = l
  remainingAd : s.remainingAd = remainingAd
  remainingMsg : s.remainingMsg = remainingMsg
  giftStart : s.giftStart = false
  busy : s.gift.busy = false
  giftDone : s.gift.done = false
  done : s.done = false

theorem gift_step_at {q : FsmState} {y : BitVec 128} {l : BitVec 64} {ra rm : BitVec 8} {s : Core}
    (h : s.At q y l ra rm) (i : CoreIn) : s.gift.step (s.giftInputs i) = s.gift := by
  rw [gift_step_rest h.busy h.giftStart, ← h.giftDone]

/-- The next chain value. -/
def chainNext (key x : BitVec 128) (l : BitVec 64) : BitVec 128 :=
  Spec.gift128 key (xorTopbarBlock x l)

/-- The engine at the end of a call. -/
theorem finished_spec (key : BitVec 128) (s : Core) :
    (s.finished key).busy = false ∧ (s.finished key).done = true ∧
      (s.finished key).ciphertext = chainNext key s.giftIn s.l := by
  obtain ⟨-, -, -, hbusy, hdone⟩ := engineAfter_rounds key s.cipherIn s.gift.ciphertext
    (le_refl 40)
  exact ⟨hbusy, hdone, engineAfter_done key s.cipherIn s.gift.ciphertext⟩

/-- The edge that takes the result leaves the engine at rest. -/
theorem gift_step_finished {s : Core} {g : Gift} (hbusy : g.busy = false) (i : CoreIn) :
    (s.waiting g).gift.step ((s.waiting g).giftInputs i) = { g with done := false } :=
  gift_step_rest hbusy rfl

theorem Core.Inv.rest {s : Core} (hs : s.Inv) (hq : s.state.isWait = false) :
    s.giftStart = false ∧ s.gift.busy = false ∧ s.gift.done = false := by
  refine ⟨?_, ?_, ?_⟩
  · by_contra h
    rw [(hs.start (by simpa using h)).1] at hq
    cases hq
  · by_contra h
    rw [(hs.busy (by simpa using h)).1] at hq
    cases hq
  · by_contra h
    rw [hs.done (by simpa using h)] at hq
    cases hq

/-- The start of an operation. -/
def Core.started (i : CoreIn) (s : Core) : Core :=
  { s.clear with
    done := false
    valid := false
    giftIn := i.nonce
    l := 0
    giftStart := true
    remainingAd := i.adTotalLen
    remainingMsg := i.msgTotalLen
    state := .waitNonce }

theorem xorTopbarBlock_zero (x : BitVec 128) : xorTopbarBlock x 0 = x := by
  have htop : x.extractLsb' 64 64 ^^^ (0 : BitVec 64) = x.extractLsb' 64 64 := BitVec.xor_zero
  rw [xorTopbarBlock, htop, BitVec.extractLsb'_append_extractLsb'_eq_extractLsb' (by rfl)]
  exact BitVec.extractLsb'_eq_self

/-- The machine after a cipher call: the tag register follows when it ends the operation. -/
structure Core.After (q : FsmState) (y : BitVec 128) (l : BitVec 64)
    (remainingAd remainingMsg : BitVec 8) (dataOut : BitVec 128) (s : Core) : Prop where
  at_ : s.At q y l remainingAd remainingMsg
  quiet : s.Quiet q
  dataOut : s.dataOut = dataOut
  tagOut : q = .done → s.tagOut = y

/-- The nonce. -/
theorem run_nonce {s : Core} (hs : s.Inv) (hidle : s.state = .idle) {env : ℕ → CoreIn}
    (hstart : (env 0).start = true) {key : BitVec 128} (hkey : (env 1).key = key) :
    (run Core.step env s 43).After .procAd (Spec.gift128 key (env 0).nonce)
        ((Spec.gift128 key (env 0).nonce).extractLsb' 64 64) (env 0).adTotalLen
        (env 0).msgTotalLen s.dataOut ∧
      DuringCall .waitNonce (s.started (env 0)) (run Core.step env s) := by
  obtain ⟨hgs, hbusy, hgd⟩ := hs.rest (by rw [hidle]; rfl)
  have hstep : Core.step (env 0) s = s.started (env 0) := by
    unfold Core.step Core.fsmStep
    have hgift : { s.gift with done := false } = s.gift := by rw [← hgd]
    rw [gift_step_rest hbusy hgs, hgift]
    simp [hidle, hstart, Core.started, Core.clear]
  have hcalling : (s.started (env 0)).Calling .waitNonce :=
    ⟨rfl, rfl, rfl, hbusy, hgd, rfl, rfl, rfl⟩
  obtain ⟨hrun, hduring⟩ := run_call hstep hcalling
  obtain ⟨hb, hd, hct⟩ := finished_spec key (s.started (env 0))
  have hin : chainNext key (s.started (env 0)).giftIn (s.started (env 0)).l =
      Spec.gift128 key (env 0).nonce := by
    rw [chainNext]
    exact congrArg (Spec.gift128 key) (xorTopbarBlock_zero (env 0).nonce)
  rw [hin] at hct
  rw [hrun, hkey]
  generalize (s.started (env 0)).finished key = g at hb hd hct
  have hlast : Core.step (env 42) ((s.started (env 0)).waiting g) =
      { (s.started (env 0)).clear with
        yPrev := g.ciphertext
        l := g.ciphertext.extractLsb' 64 64
        state := .procAd
        gift := { g with done := false } } := by
    unfold Core.step
    rw [gift_step_finished hb]
    simp [Core.fsmStep, Core.waiting, Core.started, Core.clear, hd]
  rw [hlast, ← hct]
  exact ⟨⟨⟨rfl, rfl, rfl, rfl, rfl, rfl, hb, rfl, rfl⟩, ⟨rfl, rfl, rfl, rfl, rfl⟩, rfl,
    fun h => by cases h⟩, hduring⟩

/-! ## One block -/

/-- Where the machine goes after an AD block. -/
def adExit (remaining : BitVec 8) (emptyM : Bool) : FsmState :=
  if lastNow remaining then (if emptyM then .done else .procMsg) else .reqAd

/-- Where the machine goes after a message block. -/
def msgExit (remaining : BitVec 8) : FsmState := if lastNow remaining then .done else .reqMsg

/-- The length that is left after a block. -/
def remainingNext (remaining : BitVec 8) : BitVec 8 :=
  if lastNow remaining then remaining else remaining - 16

/-- An AD block. -/
theorem run_procAd {s : Core} {y : BitVec 128} {l : BitVec 64} {ra rm : BitVec 8}
    (hs : s.At .procAd y l ra rm) (env : ℕ → CoreIn) {key : BitVec 128}
    (hkey : (env 1).key = key) :
    ∃ s₁ : Core, s₁.dataOutValid = false ∧ DuringCall .waitAd s₁ (run Core.step env s) ∧
      ((env 42).msgTotalLen = (env 0).msgTotalLen →
        (run Core.step env s 43).After (adExit ra (env 0).emptyM)
          (chainNext key (pho1 y (env 0).adData (blockBytes ra)) (adMask ra (env 0).emptyM l))
          (adMask ra (env 0).emptyM l) (remainingNext ra) rm s.dataOut) := by
  have hstep : Core.step (env 0) s =
      { s.clear with
        isLastAd := lastNow ra
        l := adMask ra (env 0).emptyM l
        giftIn := pho1 y (env 0).adData (blockBytes ra)
        giftStart := true
        state := .waitAd } := by
    unfold Core.step
    rw [gift_step_at hs]
    simp [Core.fsmStep, Core.clear, hs.state, hs.remainingAd, hs.l, hs.y]
  generalize hs₁ : Core.step (env 0) s = s₁ at hstep
  have hcalling : s₁.Calling .waitAd := by
    rw [hstep]
    exact ⟨rfl, rfl, rfl, hs.busy, hs.giftDone, hs.done, rfl, rfl⟩
  obtain ⟨hrun, hduring⟩ := run_call hs₁ hcalling
  refine ⟨s₁, by rw [hstep]; rfl, hduring, fun hlen => ?_⟩
  obtain ⟨hb, hd, hct⟩ := finished_spec key s₁
  have hin : chainNext key s₁.giftIn s₁.l =
      chainNext key (pho1 y (env 0).adData (blockBytes ra)) (adMask ra (env 0).emptyM l) := by
    rw [hstep]
  -- the machine reads the live `msg_total_len` again at the end of the call
  have hempty : (env 42).emptyM = (env 0).emptyM := by
    rw [CoreIn.emptyM, hlen]
    rfl
  rw [hin] at hct
  rw [hrun, hkey]
  generalize s₁.finished key = g at hb hd hct
  rw [← hct]
  have hra := hs.remainingAd
  have hdone := hs.done
  have hlast : Core.step (env 42) (s₁.waiting g) =
      { s₁.clear with
        yPrev := g.ciphertext
        tagOut := if adExit ra (env 0).emptyM = .done then g.ciphertext else s₁.tagOut
        remainingAd := remainingNext ra
        state := adExit ra (env 0).emptyM
        gift := { g with done := false } } := by
    unfold Core.step
    rw [gift_step_finished hb]
    have hlastAd : s₁.isLastAd = lastNow ra := by rw [hstep]
    have hstate : s₁.state = .waitAd := hcalling.state
    have hrem : s₁.remainingAd = ra := by rw [hstep]; exact hra
    unfold adExit remainingNext
    cases hl : lastNow ra <;> cases he : (env 0).emptyM <;>
      simp [Core.fsmStep, Core.waiting, Core.clear, hstate, hlastAd, hd, hl, he, hempty, hrem]
  rw [hlast]
  refine ⟨⟨rfl, rfl, ?_, rfl, ?_, rfl, hb, rfl, ?_⟩, ⟨rfl, ?_, rfl, rfl, rfl⟩, ?_, fun h => ?_⟩
  · rw [hstep]; rfl
  · rw [hstep]; exact hs.remainingMsg
  · rw [hstep]; exact hdone
  · rw [hstep]; exact hdone
  · rw [hstep]; rfl
  · exact if_pos h

/-- A message block; its output is shown in the first cycle of the call. -/
theorem run_procMsg {s : Core} {y : BitVec 128} {l : BitVec 64} {ra rm : BitVec 8}
    (hs : s.At .procMsg y l ra rm) (env : ℕ → CoreIn) {key : BitVec 128}
    (hkey : (env 1).key = key) {p : BitVec 128 × BitVec 128}
    (hp : phoMsg (env 0).decryptMode y (env 0).msgData (blockBytes rm) = p) :
    ∃ s₁ : Core, s₁.dataOutValid = true ∧ s₁.dataOut = p.1 ∧
      DuringCall .waitMsg s₁ (run Core.step env s) ∧
      (run Core.step env s 43).After (msgExit rm) (chainNext key p.2 (msgMask rm l))
        (msgMask rm l) ra (remainingNext rm) p.1 := by
  have hstep : Core.step (env 0) s =
      { s.clear with
        isLastMsg := lastNow rm
        l := msgMask rm l
        dataOut := p.1
        dataOutValid := true
        giftIn := p.2
        giftStart := true
        state := .waitMsg } := by
    unfold Core.step
    rw [gift_step_at hs]
    simp [Core.fsmStep, Core.clear, hs.state, hs.remainingMsg, hs.l, hs.y, hp]
  generalize hs₁ : Core.step (env 0) s = s₁ at hstep
  have hcalling : s₁.Calling .waitMsg := by
    rw [hstep]
    exact ⟨rfl, rfl, rfl, hs.busy, hs.giftDone, hs.done, rfl, rfl⟩
  obtain ⟨hrun, hduring⟩ := run_call hs₁ hcalling
  refine ⟨s₁, by rw [hstep], by rw [hstep], hduring, ?_⟩
  obtain ⟨hb, hd, hct⟩ := finished_spec key s₁
  have hin : chainNext key s₁.giftIn s₁.l = chainNext key p.2 (msgMask rm l) := by
    rw [hstep]
  rw [hin] at hct
  rw [hrun, hkey]
  generalize s₁.finished key = g at hb hd hct
  rw [← hct]
  have hrm := hs.remainingMsg
  have hdone := hs.done
  -- the tag follows the chain value only when the operation ends here
  have hlast : Core.step (env 42) (s₁.waiting g) =
      { s₁.clear with
        yPrev := g.ciphertext
        tagOut := if msgExit rm = .done then g.ciphertext else s₁.tagOut
        remainingMsg := remainingNext rm
        state := msgExit rm
        gift := { g with done := false } } := by
    unfold Core.step
    rw [gift_step_finished hb]
    have hlastMsg : s₁.isLastMsg = lastNow rm := by rw [hstep]
    have hstate : s₁.state = .waitMsg := hcalling.state
    have hrem : s₁.remainingMsg = rm := by rw [hstep]; exact hrm
    unfold msgExit remainingNext
    cases hl : lastNow rm <;>
      simp [Core.fsmStep, Core.waiting, Core.clear, hstate, hlastMsg, hd, hl, hrem]
  rw [hlast]
  refine ⟨⟨rfl, rfl, ?_, ?_, rfl, rfl, hb, rfl, ?_⟩, ⟨rfl, ?_, rfl, rfl, rfl⟩, ?_, fun h => ?_⟩
  · rw [hstep]; rfl
  · rw [hstep]; exact hs.remainingAd
  · rw [hstep]; exact hdone
  · rw [hstep]; exact hdone
  · rw [hstep]; rfl
  · exact if_pos h

/-! ## The requests -/

section Request

variable {q : FsmState} {s : Core} {y : BitVec 128} {l : BitVec 64} {ra rm : BitVec 8}

theorem clear_quiet (hs : s.At q y l ra rm) (hq : s.Quiet q) : s.clear = s := by
  have hstart := hs.giftStart
  have hadReq := hq.adReq
  have hmsgReq := hq.msgReq
  have hvalid := hq.dataOutValid
  cases s
  simp only at hstart hadReq hmsgReq hvalid
  subst hstart hadReq hmsgReq hvalid
  rfl

theorem step_reqAd (hs : s.At .reqAd y l ra rm) (hq : s.Quiet .reqAd) (b : Bool) (i : CoreIn) :
    Core.step i { s with adReq := b } =
      if i.adAck then { s with adReq := true, state := .procAd } else { s with adReq := true } := by
  have hclear : ({ s with adReq := b } : Core).clear = s := clear_quiet hs hq
  have hgift : ({ s with adReq := b } : Core).gift.step (({ s with adReq := b } : Core).giftInputs i)
      = s.gift := gift_step_at hs i
  unfold Core.step Core.fsmStep
  rw [hgift, hclear]
  simp only [hs.state]
  split <;> rfl

theorem step_reqMsg (hs : s.At .reqMsg y l ra rm) (hq : s.Quiet .reqMsg) (b : Bool) (i : CoreIn) :
    Core.step i { s with msgReq := b } =
      if i.msgAck then { s with msgReq := true, state := .procMsg }
      else { s with msgReq := true } := by
  have hclear : ({ s with msgReq := b } : Core).clear = s := clear_quiet hs hq
  have hgift :
      ({ s with msgReq := b } : Core).gift.step (({ s with msgReq := b } : Core).giftInputs i)
        = s.gift := gift_step_at hs i
  unfold Core.step Core.fsmStep
  rw [hgift, hclear]
  simp only [hs.state]
  split <;> rfl

/-- `done` stays low until the last edge. -/
theorem step_done_low {s : Core} (hq : s.state ≠ .done) (hlow : s.state = .idle ∨ s.done = false)
    (i : CoreIn) : (Core.step i s).done = false := by
  unfold Core.step Core.fsmStep
  cases hs : s.state
  case done => exact absurd hs hq
  case idle =>
    dsimp only
    split <;> rfl
  all_goals
    have hdone : s.done = false := hlow.resolve_left (by rw [hs]; exact FsmState.noConfusion)
    dsimp only
    repeat' split
    all_goals exact hdone

/-- The last edge. -/
theorem step_done (hs : s.At .done y l ra rm) (i : CoreIn) :
    (Core.step i s).done = true ∧ (Core.step i s).tagOut = s.tagOut ∧
      (Core.step i s).dataOut = s.dataOut ∧ (Core.step i s).adReq = false ∧
      (Core.step i s).msgReq = false ∧ (Core.step i s).dataOutValid = false ∧
      ((Core.step i s).valid = if i.decryptMode then s.tagOut == i.tagIn else true) ∧
      (i.start = false → (Core.step i s).state = .idle) := by
  unfold Core.step Core.fsmStep
  simp only [hs.state]
  split
  · exact ⟨rfl, rfl, rfl, rfl, rfl, rfl, rfl, fun _ => rfl⟩
  · next hstart => exact ⟨rfl, rfl, rfl, rfl, rfl, rfl, rfl, fun h => absurd h (by simpa using hstart)⟩

end Request

end PicoSoc.GiftCofb
