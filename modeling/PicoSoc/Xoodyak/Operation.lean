import PicoSoc.Xoodyak.Phases

set_option autoImplicit false

/-! # A whole operation of the core

The invariant of the reachable states puts the engine at rest whenever the machine is idle. From
there the phases follow each other; what an accepted start leaves in the output registers is a
function of the inputs in its cycle, written with `keyState`, `adState` and `dataState`. -/

namespace PicoSoc.Xoodyak

open Clocked

variable {n : ℕ}

/-! ## Reachable states -/

/-- Between operations and phases the engine is parked; in a permutation state it is at the
    start pulse or some rounds after it. -/
structure Core.Inv (n : ℕ) (s : Core) : Prop where
  parked : s.stateR.isPerm = false →
    s.xoodooStartR = false ∧ s.xoodoo.running = false ∧ s.xoodoo.rcStateIn = rcInit
  valid : s.stateR.isPerm = false → s.stateR ≠ .idle → n = 12 → s.xoodoo.stateValidO = true
  perm : s.stateR.isPerm = true →
    (s.xoodooStartR = true ∧ s.xoodoo.Rest n) ∨
      (s.xoodooStartR = false ∧
        ∃ k r, 0 < k ∧ n * k ≤ 12 ∧ s.xoodoo = engineAfter n k r)

theorem Core.Inv.reset (n : ℕ) : Core.reset.Inv n where
  parked := fun _ => ⟨rfl, rfl, rfl⟩
  valid := fun _ h => absurd rfl h
  perm := fun h => absurd h (by decide)

/-- The request to start a permutation comes from the padding states only. -/
theorem startNext_eq_isPad (s : Core) (i : CoreIn) :
    (s.xoodooCtl i).startNext = s.stateR.isPad := by
  unfold Core.xoodooCtl
  cases s.stateR <;> rfl

/-- Exactly the padding states lead into a permutation. -/
theorem stateNext_not_perm {s : Core} (hq : s.stateR.isPerm = false) (i : CoreIn) :
    (s.stateNext i).isPerm = s.stateR.isPad := by
  unfold Core.stateNext
  cases h : s.stateR <;> first
    | rfl
    | (rw [h] at hq; exact absurd hq (by decide))
    | (dsimp only; split <;> first | rfl | (split <;> rfl))

theorem permExit_not_perm (s : Core) {q : FsmState} (hq : q.isPerm = true) :
    (s.permExit q).isPerm = false := by
  unfold Core.permExit
  cases q <;> first
    | exact absurd hq (by decide)
    | rfl
    | (dsimp only; split <;> rfl)

/-- The registers of the invariant after an edge without restart. -/
theorem step_regs {s : Core} {i : CoreIn} (hi : NoRestart i) :
    (Core.step n i s).stateR = s.stateNext i ∧
      (Core.step n i s).xoodooStartR = s.stateR.isPad ∧
      (Core.step n i s).xoodoo = s.xoodoo.step n (s.xoodooIn i) := by
  have hi' : i.restart = false := hi
  simp only [Core.step, hi', Bool.false_eq_true, if_false, Core.advance, startNext_eq_isPad,
    and_self]

/-- Outside the permutation states the engine comes to rest in every cycle. -/
theorem Core.Inv.step_parked (hn : n ∣ 12) {s : Core} {i : CoreIn} (hi : NoRestart i)
    (hs : s.Inv n) (hq : s.stateR.isPerm = false) : (Core.step n i s).Inv n := by
  obtain ⟨hstate, hstart, hengine⟩ := step_regs (n := n) (s := s) hi
  obtain ⟨hstartR, hrun, hrc⟩ := hs.parked hq
  have hrest : ((Core.step n i s).xoodoo).Rest n := by
    rw [hengine]
    exact Xoodoo.rest_of_parked hn hrun hrc hstartR
  have hnext : (Core.step n i s).stateR.isPerm = (Core.step n i s).xoodooStartR := by
    rw [hstate, hstart, stateNext_not_perm hq]
  refine ⟨fun h => ⟨?_, hrest.running, hrest.rc⟩, fun _ _ => hrest.valid, fun h => .inl ⟨?_, hrest⟩⟩
  · rw [← hnext, h]
  · rw [← hnext, h]

/-- In a permutation state the engine starts, goes on, or has finished and is left at rest. -/
theorem Core.Inv.step_perm (hn : n ∣ 12) {s : Core} {i : CoreIn} (hi : NoRestart i)
    (hs : s.Inv n) (hq : s.stateR.isPerm = true) : (Core.step n i s).Inv n := by
  obtain ⟨hstate, hstart, hengine⟩ := step_regs (n := n) (s := s) hi
  have hpos : 0 < n := Nat.pos_of_dvd_of_pos hn (by decide)
  have hpad : s.stateR.isPad = false := by
    revert hq
    cases s.stateR <;> decide
  rw [hpad] at hstart
  rw [stateNext_isPerm hq] at hstate
  have hin : (s.xoodooIn i).Silent ∧ (s.xoodooIn i).startI = s.xoodooStartR := by
    refine ⟨?_, rfl⟩
    have hctl : s.xoodooCtl i = { wordIdx := s.wordCntR } := by
      unfold Core.xoodooCtl
      revert hq
      cases s.stateR <;> first | exact fun _ => rfl | exact fun h => absurd h (by decide)
    constructor <;> simp only [Core.xoodooIn, hctl]
  obtain ⟨hsilent, hstartI⟩ := hin
  -- the engine is busy after this edge
  have hbusy : ∀ k r, 0 < k → n * k ≤ 12 → s.permDone = false →
      (Core.step n i s).xoodoo = engineAfter n k r → (Core.step n i s).Inv n := by
    intro k r hk hle hdone he
    have hperm : (Core.step n i s).stateR.isPerm = true := by
      rw [hstate, hdone]
      exact hq
    refine ⟨fun h => ?_, fun h => ?_, fun _ => .inr ⟨hstart, k, r, hk, hle, he⟩⟩
    · exact absurd h (by simp [hperm])
    · exact absurd h (by simp [hperm])
  rcases hs.perm hq with ⟨hon, hrest⟩ | ⟨hoff, k, r, hk, hle, he⟩
  · have hdone : s.permDone = false := by simp [Core.permDone, hon]
    refine hbusy 1 s.xoodoo.regValue (by decide) ?_ hdone ?_
    · simpa using Nat.le_of_dvd (by decide) hn
    · rw [hengine, step_start hn hrest hsilent (by rw [hstartI, hon])]
  · by_cases h12 : n * k = 12
    · have hrest : s.xoodoo.Rest n := he ▸ engineAfter_rest h12 r
      have hdone : s.permDone = true := by
        rw [Core.permDone, he, engineAfter_last h12, hoff]
        rfl
      rw [Xoodoo.step_rest hn hrest (by rw [hstartI, hoff]) hsilent.init,
        stateWithXor_silent hsilent] at hengine
      rw [hdone] at hstate
      have hnp : (Core.step n i s).stateR.isPerm = false := by
        rw [hstate]
        exact permExit_not_perm s hq
      refine ⟨fun _ => ⟨hstart, ?_, ?_⟩, fun _ _ => ?_, fun h => absurd h (by simp [hnp])⟩
      · rw [hengine]; exact hrest.running
      · rw [hengine]; exact hrest.rc
      · rw [hengine]; exact hrest.valid
    · have hdone : s.permDone = false := by simp [Core.permDone, he, engineAfter, h12]
      have hle' : n * (k + 1) ≤ 12 := by
        obtain ⟨c, hc⟩ := hn
        have hkc : k < c := by
          rcases Nat.lt_or_ge k c with h | h
          · exact h
          · have := Nat.mul_le_mul_left n h
            omega
        calc n * (k + 1) ≤ n * c := Nat.mul_le_mul_left n hkc
          _ = 12 := hc.symm
      refine hbusy (k + 1) r (by omega) hle' hdone ?_
      rw [hengine, he, step_engineAfter hle' hpos r hsilent]

theorem Core.Inv.step (hn : n ∣ 12) {s : Core} {i : CoreIn} (hi : NoRestart i) (hs : s.Inv n) :
    (Core.step n i s).Inv n := by
  cases hq : s.stateR.isPerm with
  | false => exact hs.step_parked hn hi hq
  | true => exact hs.step_perm hn hi hq

theorem reachable_inv (hn : n ∣ 12) {s : Core}
    (h : Reachable (Core.step n) (· = Core.reset) NoRestart s) : s.Inv n :=
  h.invariant (fun _ hs => hs ▸ Core.Inv.reset n) (fun _ _ hi hs => hs.step hn hi)

/-! ## The start of an operation -/

/-- What an accepted start leaves: the inputs of its cycle in the latches, an empty sponge. -/
structure Core.Started (n : ℕ) (op : CoreIn) (s : Core) : Prop where
  ready : s.Ready n
  state : s.stateR = if op.selType = modeHash then .hashLoad else .loadKey
  cnt : s.wordCntR = 0
  reg : s.xoodoo.regValue = Vector.replicate 12 0
  key : s.keyR = op.key
  nonce : s.nonceR = op.nonce
  ad : s.adR = op.ad
  dataIn : s.dataInR = op.dataIn
  tagIn : s.tagInR = op.tagIn
  adLength : s.adLengthR = op.adLength
  dataLength : s.dataLengthR = op.dataLength
  selType : s.selTypeR = op.selType
  domain : s.domainR = if op.selType = modeHash then domainAbsorbHash else domainAbsorbKey
  valid : s.validR = true

/-- An accepted start that leaves the engine at rest. -/
theorem step_start_rest {s : Core} (hidle : s.stateR = .idle) {i : CoreIn} (hi : NoRestart i)
    (hena : i.ena = true) (hrest : ((Core.step n i s).xoodoo).Rest n) :
    (Core.step n i s).Started n i := by
  have hi' : i.restart = false := hi
  have hinit : (s.xoodooIn i).initReg = true := by
    simp only [Core.xoodooIn, Core.xoodooCtl, hidle, hena]
  have hengine : (Core.step n i s).xoodoo = s.xoodoo.step n (s.xoodooIn i) := (step_regs hi).2.2
  constructor
  case ready =>
    refine ⟨?_, hrest, ?_⟩
    · rw [(step_regs hi).2.1, hidle]; rfl
    · simp [Core.step, hi', Core.advance, hidle]
  case reg =>
    rw [hengine]
    exact Xoodoo.step_init s.xoodoo hinit
  all_goals
    simp [Core.step, hi', Core.advance, Core.stateNext, Core.wordCntNext, Core.validNext, hidle,
      hena]

theorem step_start_op (hn : n ∣ 12) {s : Core} (hs : s.Inv n) (hidle : s.stateR = .idle)
    {i : CoreIn} (hi : NoRestart i) (hena : i.ena = true) :
    (Core.step n i s).Started n i := by
  obtain ⟨hstart, hrun, hrc⟩ := hs.parked (by rw [hidle]; rfl)
  refine step_start_rest hidle hi hena ?_
  rw [(step_regs hi).2.2]
  exact Xoodoo.rest_of_parked hn hrun hrc hstart

theorem Core.Started.eq_phase {op : CoreIn} {s : Core} (hs : s.Started n op) :
    s = s.phase s.stateR 0 (Vector.replicate 12 0) := by
  have hcnt : BitVec.ofNat 4 0 = s.wordCntR := hs.cnt.symm
  rw [Core.phase, hcnt, ← hs.reg]

/-! ## The sponge states of an operation -/

/-- After the permutation that follows key, nonce and their padding. -/
def keyState (key nonce : BitVec 128) : XState :=
  xoodoo12 (stateWithXor (padIn 8 padd01KeyNonce domainAbsorbKey true)
    (loadWords (inputWord nonce) 4 4
      (loadWords (inputWord key) 0 4 (Vector.replicate 12 0))))

/-- The engine inputs of the padding state after `len` bytes of data. -/
def padAfter (len : BitVec 5) (domain : BitVec 32) : XoodooIn :=
  padIn ((len >>> 2).setWidth 4) (padWord len) domain true

/-- After the associated data. -/
def adState (ad : BitVec 128) (len : BitVec 5) (r : XState) : XState :=
  xoodoo12 (stateWithXor (padAfter len (domainAbsorb ^^^ domainCrypt))
    (loadWords (inputWord ad) 0 (words len) r))

/-- After the data. -/
def dataState (selType : BitVec 3) (data : BitVec 128) (len : BitVec 5) (r : XState) : XState :=
  xoodoo12 (stateWithXor (padAfter len domainSqueeze)
    (loadWords (dataWord selType data r) 0 (words len) r))

/-- After the message of a hash. -/
def hashState (data : BitVec 128) (len : BitVec 5) : XState :=
  xoodoo12 (stateWithXor (padAfter len domainAbsorbHash)
    (loadWords (inputWord data) 0 (words len) (Vector.replicate 12 0)))

/-- Before the second half of the hash is read. -/
def hashState2 (r : XState) : XState :=
  xoodoo12 (stateWithXor (padIn 0 padd01 0 false) r)

/-! ## The paths of an operation -/

theorem path_ad (hn : n ∣ 12) {s : Core} (hs : s.Ready n) (r : XState) :
    CorePath n (words s.adLengthR) (s.phase (if 0 < s.adLengthR then .loadAd else .padAd) 0 r)
      (s.phase .padAd (words s.adLengthR)
        (loadWords (inputWord s.adR) 0 (words s.adLengthR) r)) := by
  split
  · next hlen => exact path_loadAd hn hs hlen r
  · next hlen =>
    have hzero : s.adLengthR = 0 := by simpa using hlen
    rw [hzero, show words 0 = 0 from rfl, loadWords_zero]
    exact .refl _

/-- The core with nothing to stream is left as it is. -/
theorem path_data (hn : n ∣ 12) {s : Core} (hs : s.Ready n) (r : XState) :
    CorePath n (words s.dataLengthR)
      (s.phase (if 0 < s.dataLengthR then .loadData else .padData) 0 r)
      ((s.withData (streamOut s r (words s.dataLengthR))).phase .padData (words s.dataLengthR)
        (loadWords (dataWord s.selTypeR s.dataInR r) 0 (words s.dataLengthR) r)) := by
  split
  · next hlen => exact path_loadData hn hs hlen r
  · next hlen =>
    have hzero : s.dataLengthR = 0 := by simpa using hlen
    rw [hzero, show words 0 = 0 from rfl, loadWords_zero]
    exact .refl _

/-- Key, nonce and their padding. -/
theorem path_key (hn : n ∣ 12) {op : CoreIn} {s : Core} (hs : s.Started n op)
    (hmode : op.selType ≠ modeHash) :
    ∃ t : Core, CorePath n (8 + (12 / n + 2)) s
        (t.phase (if 0 < t.adLengthR then .loadAd else .padAd) 0 (keyState op.key op.nonce)) ∧
      t.Ready n ∧ t = { s with domainR := domainAbsorb, xoodoo := t.xoodoo } := by
  have hstate : s.stateR = .loadKey := by rw [hs.state, if_neg hmode]
  have hdomain : s.domainR = domainAbsorbKey := by rw [hs.domain, if_neg hmode]
  have hload := path_loadKey hn hs.ready (Vector.replicate 12 0)
  rw [← hstate, ← hs.eq_phase] at hload
  have hnonce := path_loadNonce hn hs.ready
    (loadWords (inputWord s.keyR) 0 4 (Vector.replicate 12 0))
  have hpad := path_pad hn hs.ready (q := .padNonce) rfl 8
    (loadWords (inputWord s.nonceR) 4 4
      (loadWords (inputWord s.keyR) 0 4 (Vector.replicate 12 0)))
    (padIn 8 padd01KeyNonce domainAbsorbKey true)
    (fun i => by
      have hstart : s.xoodooStartR = false := hs.ready.start
      simp [Core.xoodooIn, Core.xoodooCtl, Core.phase, padIn, hstart, hdomain])
  rw [hs.key, hs.nonce] at hpad
  rw [hs.key] at hload
  rw [hs.key, hs.nonce] at hnonce
  have hpath := (hload.trans hnonce).trans hpad
  exact ⟨s.permuted domainAbsorb _, hpath, hs.ready.permuted _ _, rfl⟩

/-- The associated data and its padding. -/
theorem path_adPad (hn : n ∣ 12) {s : Core} (hs : s.Ready n) (hdomain : s.domainR = domainAbsorb)
    (r : XState) :
    ∃ t : Core, CorePath n (words s.adLengthR + (12 / n + 2))
        (s.phase (if 0 < s.adLengthR then .loadAd else .padAd) 0 r)
        (t.phase (if 0 < t.dataLengthR then .loadData else .padData) 0
          (adState s.adR s.adLengthR r)) ∧
      t.Ready n ∧ t = { s with domainR := domainZero, xoodoo := t.xoodoo } := by
  have hload := path_ad hn hs r
  have hpad := path_pad hn hs (q := .padAd) rfl (words s.adLengthR)
    (loadWords (inputWord s.adR) 0 (words s.adLengthR) r)
    (padAfter s.adLengthR (domainAbsorb ^^^ domainCrypt))
    (fun i => by
      have hstart : s.xoodooStartR = false := hs.start
      simp [Core.xoodooIn, Core.xoodooCtl, Core.phase, padAfter, padIn, hstart, hdomain])
  exact ⟨s.permuted domainZero _, hload.trans hpad, hs.permuted _ _, rfl⟩

/-- The data and its padding. -/
theorem path_dataPad (hn : n ∣ 12) {s : Core} (hs : s.Ready n) (r : XState) :
    ∃ t : Core, CorePath n (words s.dataLengthR + (12 / n + 2))
        (s.phase (if 0 < s.dataLengthR then .loadData else .padData) 0 r)
        (t.phase (if t.selTypeR = modeAeadEnc then .extractTag else .verifyTag) 0
          (dataState s.selTypeR s.dataInR s.dataLengthR r)) ∧
      t.Ready n ∧
      t = { s with dataOutR := streamOut s r (words s.dataLengthR), xoodoo := t.xoodoo } := by
  have hload := path_data hn hs r
  have hready : (s.withData (streamOut s r (words s.dataLengthR))).Ready n :=
    ⟨hs.start, hs.engine, hs.done⟩
  have hpad := path_pad hn hready (q := .padData) rfl (words s.dataLengthR)
    (loadWords (dataWord s.selTypeR s.dataInR r) 0 (words s.dataLengthR) r)
    (padAfter s.dataLengthR domainSqueeze)
    (fun i => by
      have hstart : s.xoodooStartR = false := hs.start
      simp [Core.xoodooIn, Core.xoodooCtl, Core.phase, Core.withData, padAfter, padIn, hstart])
  exact ⟨(s.withData (streamOut s r (words s.dataLengthR))).permuted s.domainR _,
    hload.trans hpad, hready.permuted _ _, rfl⟩

/-- The cycles of an AEAD operation between the start and the last state. -/
def aeadCycles (n : ℕ) (adLength dataLength : BitVec 5) : ℕ :=
  8 + (12 / n + 2) + (words adLength + (12 / n + 2)) + (words dataLength + (12 / n + 2)) + 4

/-- The final sponge state of an AEAD operation. -/
def aeadState (op : CoreIn) : XState :=
  dataState op.selType op.dataIn op.dataLength
    (adState op.ad op.adLength (keyState op.key op.nonce))

theorem path_aead (hn : n ∣ 12) {op : CoreIn} {s : Core} (hs : s.Started n op)
    (hmode : op.selType ≠ modeHash) :
    ∃ t : Core, CorePath n (aeadCycles n op.adLength op.dataLength) s t ∧ t.stateR = .done ∧
      t.selTypeR = op.selType ∧
      t.dataOutR = collectWords (fun j => byteSwap (streamWord op.dataIn
        (adState op.ad op.adLength (keyState op.key op.nonce)) j)) (words op.dataLength)
        s.dataOutR ∧
      t.tagR = squeezed (aeadState op) 4 s.tagR ∧
      t.validR = (op.selType == modeAeadEnc || tagMatches op.tagIn (aeadState op) 4) := by
  obtain ⟨s₁, hkey, hready₁, hs₁⟩ := path_key hn hs hmode
  obtain ⟨s₂, had, hready₂, hs₂⟩ :=
    path_adPad hn hready₁ (by rw [hs₁]) (keyState op.key op.nonce)
  obtain ⟨s₃, hdata, hready₃, hs₃⟩ :=
    path_dataPad hn hready₂ (adState s₁.adR s₁.adLengthR (keyState op.key op.nonce))
  have had₁ : s₁.adR = op.ad ∧ s₁.adLengthR = op.adLength := by
    rw [hs₁]
    exact ⟨hs.ad, hs.adLength⟩
  have hdata₂ : s₂.dataInR = op.dataIn ∧ s₂.dataLengthR = op.dataLength ∧
      s₂.selTypeR = op.selType ∧ s₂.dataOutR = s.dataOutR := by
    rw [hs₂, hs₁]
    exact ⟨hs.dataIn, hs.dataLength, hs.selType, rfl⟩
  have hlast₃ : s₃.selTypeR = op.selType ∧ s₃.tagInR = op.tagIn ∧ s₃.tagR = s.tagR ∧
      s₃.validR = true := by
    rw [hs₃, hs₂, hs₁]
    exact ⟨hs.selType, hs.tagIn, rfl, hs.valid⟩
  -- the three permutations before the tag
  have hpath := (hkey.trans had).trans hdata
  rw [had₁.1, had₁.2, hdata₂.1, hdata₂.2.1, hdata₂.2.2.1, hlast₃.1] at hpath
  have hout : s₃.dataOutR = collectWords (fun j => byteSwap (streamWord op.dataIn
      (adState op.ad op.adLength (keyState op.key op.nonce)) j)) (words op.dataLength)
      s.dataOutR := by
    rw [hs₃, ← hdata₂.2.2.2, ← hdata₂.1, ← hdata₂.2.1, ← had₁.1, ← had₁.2]
    rfl
  have hsqueeze : (if op.selType = modeAeadEnc then FsmState.extractTag
      else .verifyTag).isSqueeze = true := by
    split <;> rfl
  have hexit : (if op.selType = modeAeadEnc then FsmState.extractTag
      else .verifyTag).squeezeExit = .done := by
    split <;> rfl
  have htag := path_squeeze hn hready₃ hsqueeze (aeadState op)
  refine ⟨_, hpath.trans htag, hexit, hlast₃.1, ?_, ?_, ?_⟩
  · rw [← hout]
    by_cases henc : op.selType = modeAeadEnc
    · simp [Core.phase, Core.squeezing, henc]
    · simp [Core.phase, Core.squeezing, henc]
  · rw [← hlast₃.2.2.1]
    by_cases henc : op.selType = modeAeadEnc
    · simp [Core.phase, Core.squeezing, henc]
    · simp [Core.phase, Core.squeezing, henc]
  · by_cases henc : op.selType = modeAeadEnc
    · simp [Core.phase, Core.squeezing, henc, hlast₃.2.2.2]
    · simp [Core.phase, Core.squeezing, henc, hlast₃.2.2.2, hlast₃.2.1]

/-! ## The path of a hash -/

/-- The cycles of a hash between the start and the last state. -/
def hashTime (n : ℕ) (dataLength : BitVec 5) : ℕ :=
  hashCycles dataLength + (12 / n + 2) + 4 + (12 / n + 2) + 4

/-- The message, its padding and the first permutation. -/
theorem path_hashMsg (hn : n ∣ 12) {op : CoreIn} {s : Core} (hs : s.Started n op)
    (hmode : op.selType = modeHash) :
    ∃ t : Core, CorePath n (hashCycles op.dataLength + (12 / n + 2)) s
        (t.phase .hashSqueeze1 0 (hashState op.dataIn op.dataLength)) ∧
      t.Ready n ∧ t = { s with domainR := t.domainR, xoodoo := t.xoodoo } := by
  have hstate : s.stateR = .hashLoad := by rw [hs.state, if_pos hmode]
  have hdomain : s.domainR = domainAbsorbHash := by rw [hs.domain, if_pos hmode]
  have hstart : s.xoodooStartR = false := hs.ready.start
  have hload := path_hashLoad hn hs.ready (Vector.replicate 12 0)
  rw [← hstate, ← hs.eq_phase] at hload
  have hpad := path_pad hn hs.ready (q := .hashPad) rfl (hashCycles s.dataLengthR)
    (loadWords (inputWord s.dataInR) 0 (words s.dataLengthR) (Vector.replicate 12 0))
    (padAfter s.dataLengthR domainAbsorbHash)
    (fun i => by
      simp [Core.xoodooIn, Core.xoodooCtl, Core.phase, padAfter, padIn, hstart, hdomain])
  rw [hs.dataIn, hs.dataLength] at hload hpad
  exact ⟨s.permuted (s.domainAfter .hashPad) _, hload.trans hpad, hs.ready.permuted _ _, rfl⟩

/-- The first half of the hash, read into `tag_r`, and the second permutation. -/
theorem path_hashTag (hn : n ∣ 12) {s : Core} (hs : s.Ready n) (r : XState) :
    ∃ t : Core, CorePath n (4 + (12 / n + 2)) (s.phase .hashSqueeze1 0 r)
        (t.phase .hashSqueeze2 0 (hashState2 r)) ∧
      t.Ready n ∧
      t = { s with tagR := squeezed r 4 s.tagR, domainR := t.domainR, xoodoo := t.xoodoo } := by
  have hfirst := path_squeeze hn hs (q := .hashSqueeze1) rfl r
  have hready : (s.squeezing .hashSqueeze1 r 4).Ready n := ⟨hs.start, hs.engine, hs.done⟩
  have hpad := path_pad hn hready (q := .hashPad2) rfl 4 r (padIn 0 padd01 0 false)
    (fun i => by simp [Core.xoodooIn, Core.xoodooCtl, Core.phase, padIn, hready.start])
  exact ⟨(s.squeezing .hashSqueeze1 r 4).permuted _ _, hfirst.trans hpad, hready.permuted _ _,
    rfl⟩

theorem path_hash (hn : n ∣ 12) {op : CoreIn} {s : Core} (hs : s.Started n op)
    (hmode : op.selType = modeHash) :
    ∃ t : Core, CorePath n (hashTime n op.dataLength) s t ∧ t.stateR = .done ∧
      t.selTypeR = op.selType ∧
      t.tagR = squeezed (hashState op.dataIn op.dataLength) 4 s.tagR ∧
      t.dataOutR = squeezed (hashState2 (hashState op.dataIn op.dataLength)) 4 s.dataOutR ∧
      t.validR = true := by
  obtain ⟨s₁, hmsg, hready₁, hs₁⟩ := path_hashMsg hn hs hmode
  obtain ⟨s₂, htag, hready₂, hs₂⟩ := path_hashTag hn hready₁ (hashState op.dataIn op.dataLength)
  have hlast := path_squeeze hn hready₂ (q := .hashSqueeze2) rfl
    (hashState2 (hashState op.dataIn op.dataLength))
  have hregs : s₂.selTypeR = op.selType ∧
      s₂.tagR = squeezed (hashState op.dataIn op.dataLength) 4 s.tagR ∧
      s₂.dataOutR = s.dataOutR ∧ s₂.validR = true := by
    rw [hs₂, hs₁]
    exact ⟨hs.selType, rfl, rfl, hs.valid⟩
  obtain ⟨hsel, htagR, hout, hvalid⟩ := hregs
  refine ⟨_, ((hmsg.trans htag).trans hlast).cast ?_, rfl, hsel, htagR, ?_, hvalid⟩
  · unfold hashTime
    omega
  · rw [← hout]
    rfl

/-! ## Completion -/

/-- The last edge shows the result and returns to idle. -/
theorem step_done {s : Core} (hs : s.stateR = .done) {i : CoreIn} (hi : NoRestart i) :
    (Core.step n i s).done = true ∧ (Core.step n i s).stateR = .idle ∧
      (Core.step n i s).dataOut = s.dataOutR ∧ (Core.step n i s).tag = s.tagR ∧
      (Core.step n i s).valid = (if s.selTypeR = modeAeadDec then s.validR else true) := by
  have hi' : i.restart = false := hi
  simp [Core.step, hi', Core.advance, Core.stateNext, hs]

/-- An accepted start followed by the path of its operation: `done` rises one edge after the last
    state is reached, and the output registers hold what the path has collected. -/
theorem run_path {s : Core} {env : ℕ → CoreIn} (henv : ∀ k, NoRestart (env k))
    (hlow : (Core.step n (env 0) s).done = false) {k : ℕ} {t : Core}
    (hpath : CorePath n k (Core.step n (env 0) s) t) (ht : t.stateR = .done) :
    FirstDone (Core.step n) env s Core.done (k + 2) ∧
      (run (Core.step n) env s (k + 2)).stateR = .idle ∧
      (run (Core.step n) env s (k + 2)).dataOut = t.dataOutR ∧
      (run (Core.step n) env s (k + 2)).tag = t.tagR ∧
      (run (Core.step n) env s (k + 2)).valid =
        (if t.selTypeR = modeAeadDec then t.validR else true) := by
  have hlast := step_done (n := n) ht (henv (1 + k))
  obtain ⟨hrun, hdone⟩ := @Path.firstDone _ _ _ _ _ _ _ _ (fun j => env (1 + j)) hpath
    (fun j _ => henv (1 + j)) hlast.1
  have hdelay : FirstDone (Core.step n) env s Core.done (1 + (k + 1)) :=
    .delay (fun j hj hj1 => by obtain rfl : j = 1 := by omega
                               exact hlow) hdone
  have hcount : k + 2 = 1 + (k + 1) := by omega
  rw [hcount]
  refine ⟨hdelay, ?_⟩
  rw [run_add]
  exact hrun ▸ hlast.2

/-- The same from an idle state of the invariant. -/
theorem run_op (hn : n ∣ 12) {s : Core} (hs : s.Inv n) (hidle : s.stateR = .idle)
    {env : ℕ → CoreIn} (henv : ∀ k, NoRestart (env k)) (hena : (env 0).ena = true) {k : ℕ} {t : Core}
    (hpath : CorePath n k (Core.step n (env 0) s) t) (ht : t.stateR = .done) :
    FirstDone (Core.step n) env s Core.done (k + 2) ∧
      (run (Core.step n) env s (k + 2)).stateR = .idle ∧
      (run (Core.step n) env s (k + 2)).dataOut = t.dataOutR ∧
      (run (Core.step n) env s (k + 2)).tag = t.tagR ∧
      (run (Core.step n) env s (k + 2)).valid =
        (if t.selTypeR = modeAeadDec then t.validR else true) :=
  run_path henv (step_start_op hn hs hidle (henv 0) hena).ready.done hpath ht

end PicoSoc.Xoodyak
