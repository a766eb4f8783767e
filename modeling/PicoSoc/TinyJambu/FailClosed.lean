import PicoSoc.TinyJambu.ByteView
import PicoSoc.TinyJambu.Phases

set_option autoImplicit false

/-! # When the tag is checked

`S_MSG_XOR` absorbs the recovered word in every mode but `001`, the data path compares the tag in
mode `010` only. -/

namespace PicoSoc.TinyJambu

open Bytes Clocked

/-! ## The statement -/

/-- The recovered word goes into the state. -/
def Core.AbsorbsRecovered (c : Core) : Prop := c.fsm.fsm = .msgXor ∧ c.dp.modeR ≠ modeEnc

/-- An operation that has absorbed a recovered word ends with `valid` only when the tag it has
    computed is `tag_in`. -/
def FailsClosed (env : ℕ → CoreIn) (s : Core) : Prop :=
  ∀ n, FirstDone Core.step env s Core.done n → (∃ k < n, (run Core.step env s k).AbsorbsRecovered) →
    (run Core.step env s n).dp.valid = true → (run Core.step env s n).dp.tag = (env 0).tagIn

/-- No word of data is processed: `calc_words` has three bits, so the lengths from 29 on wrap. -/
theorem calcWords_eq_zero (len : BitVec 5) : calcWords len = 0 ↔ len = 0 ∨ 28 < len := by
  revert len
  decide

/-! ## States of a running operation -/

/-- The machine is neither in the data phase nor about to return to it. -/
def Fsm.NoData (f : Fsm) : Prop :=
  f.fsm ≠ .msgFrame ∧ f.fsm ≠ .msgXor ∧ (f.fsm = .perm → f.permRet ≠ .msgFrame ∧ f.permRet ≠ .msgXor)

/-- The machine between the start and the end of the operation `op`. -/
structure Core.Running (op : CoreIn) (c : Core) : Prop where
  busy : c.fsm.fsm ≠ .idle
  ret : c.fsm.fsm = .perm → c.fsm.permRet ≠ .idle
  mode : c.dp.modeR = op.selType
  words : c.dp.dataWordsR = calcWords op.dataLength
  noData : calcWords op.dataLength = 0 → c.fsm.NoData

theorem step_latches {c : Core} (h : c.fsm.fsm ≠ .idle) (i : CoreIn) :
    (c.step i).dp.modeR = c.dp.modeR ∧ (c.step i).dp.dataWordsR = c.dp.dataWordsR := by
  have hlatch : (c.datapathCtl i).latch = false := by
    unfold Core.datapathCtl
    cases hf : c.fsm.fsm <;> first | exact absurd hf h | rfl
  constructor
  · show (if (c.datapathCtl i).latch then i.selType else c.dp.modeR) = _
    rw [hlatch]
    rfl
  · show (if (c.datapathCtl i).latch then calcWords i.dataLength else c.dp.dataWordsR) = _
    rw [hlatch]
    rfl

/-- A busy machine stays busy until `S_DONE`. -/
theorem fsm_step_busy (ena : Bool) (d : Datapath) (w2 : BitVec 32) {f : Fsm} (hbusy : f.fsm ≠ .idle)
    (hdone : f.fsm ≠ .done) (hret : f.Returns) :
    (f.step ena d w2).fsm ≠ .idle ∧ (f.step ena d w2).Returns := by
  obtain ⟨hnext, hidle, -⟩ := Fsm.Returns.step hret ena d w2
  refine ⟨fun h => ?_, hnext⟩
  rcases hidle.1 h with h | h
  · exact hbusy h.1
  · exact hdone h

theorem fsm_step_noData (ena : Bool) {d : Datapath} (hd : d.dataWordsR = 0) (w2 : BitVec 32) {f : Fsm}
    (h : f.NoData) : (f.step ena d w2).NoData := by
  obtain ⟨hframe, hxor, hret⟩ := h
  unfold Fsm.step
  rw [hd]
  cases h : f.fsm
  case msgFrame => exact absurd h hframe
  case msgXor => exact absurd h hxor
  case perm =>
    obtain ⟨hretFrame, hretXor⟩ := hret h
    dsimp only
    split
    · exact ⟨hretFrame, hretXor, fun _ => ⟨hretFrame, hretXor⟩⟩
    · exact ⟨by simp, by simp, fun _ => ⟨hretFrame, hretXor⟩⟩
  all_goals
    dsimp only [Fsm.permute, Fsm.NoData]
    try repeat' split
    all_goals simp_all

theorem Core.Running.step {op : CoreIn} {c : Core} (h : c.Running op) (i : CoreIn)
    (hlow : (c.step i).done = false) : (c.step i).Running op := by
  obtain ⟨hmode, hwords⟩ := step_latches h.busy i
  have hdone : c.fsm.fsm ≠ .done := by
    intro heq
    have hhigh : (c.fsm.step i.ena c.dp c.nlfsr.w2).done = true := by
      rw [Fsm.step, heq]
    exact absurd (hhigh.symm.trans hlow) (by decide)
  obtain ⟨hbusy, hret⟩ := fsm_step_busy i.ena c.dp c.nlfsr.w2 h.busy hdone h.ret
  refine ⟨hbusy, hret, hmode.trans h.mode, hwords.trans h.words, fun hzero => ?_⟩
  exact fsm_step_noData i.ena (h.words.trans hzero) c.nlfsr.w2 (h.noData hzero)

theorem Core.Running.start {s : Core} (hs : s.fsm.fsm = .idle) {i : CoreIn} (hena : i.ena = true) :
    (s.step i).Running i := by
  obtain ⟨f, hstep, hf⟩ := step_idle hs hena
  rw [hstep]
  have hperm : f.fsm ≠ .perm := by
    rw [hf.state]
    decide
  refine ⟨?_, fun h => absurd h hperm, rfl, rfl, fun _ => ⟨?_, ?_, fun h => absurd h hperm⟩⟩
  all_goals
    rw [hf.state]
    decide

theorem run_running {s : Core} (hs : s.fsm.fsm = .idle) {env : ℕ → CoreIn}
    (hena : (env 0).ena = true) {n : ℕ} (hn : FirstDone Core.step env s Core.done n) {k : ℕ}
    (hk : k + 1 < n) : (run Core.step env s (k + 1)).Running (env 0) := by
  induction k with
  | zero => exact .start hs hena
  | succ k ih =>
      have hlow := hn.low (k + 1 + 1) (by omega) hk
      rw [run_succ] at hlow ⊢
      exact (ih (by omega)).step (env (k + 1)) hlow

/-! ## The tag of an operation -/

/-- Nothing but `valid` looks at `tag_in`. -/
theorem permSteps_tagIn (d : Datapath) (t : BitVec 64) (w : Nlfsr) (j : ℕ) :
    nonceSteps { d with tagInR := t } j w = nonceSteps d j w
      ∧ adSteps { d with tagInR := t } j w = adSteps d j w
      ∧ msgSteps { d with tagInR := t } j w = msgSteps d j w := by
  induction j with
  | zero => exact ⟨rfl, rfl, rfl⟩
  | succ j ih =>
      obtain ⟨hnonce, had, hmsg⟩ := ih
      rw [nonceSteps, adSteps, msgSteps, hnonce, had, hmsg]
      exact ⟨rfl, rfl, rfl⟩

theorem finished_tag {d d' : Datapath} (h : d.keyR = d'.keyR) (w : Nlfsr) :
    (d.finished w).tag = (d'.finished w).tag := by
  show bswap64 (tagWords d w) = bswap64 (tagWords d' w)
  unfold tagWords finIn
  rw [h]

theorem adState_tagIn (op : CoreIn) (t : BitVec 64) : adState { op with tagIn := t } = adState op := by
  show adSteps { latched op with tagInR := bswap64 t } _
    (nonceSteps { latched op with tagInR := bswap64 t } 3 _) = _
  rw [(permSteps_tagIn _ _ _ _).2.1, (permSteps_tagIn _ _ _ _).1]
  rfl

theorem result_tag (op : CoreIn) (t : BitVec 64) :
    (result { op with tagIn := t }).tag = (result op).tag := by
  have hmsg : ∀ j w, msgSteps (latched { op with tagIn := t }) j w = msgSteps (latched op) j w :=
    fun j w => (permSteps_tagIn (latched op) (bswap64 t) w j).2.2
  rw [result, hmsg, adState_tagIn, result]
  apply finished_tag
  show bswap128 op.key = bswap128 op.key
  rfl

/-- An operation with data reaches the state that absorbs a word. -/
theorem reaches_msgXor {s : Core} (hs : s.fsm.fsm = .idle) {env : ℕ → CoreIn}
    (hena : (env 0).ena = true) (hheld : Held env) (hdata : calcWords (env 0).dataLength ≠ 0) :
    ∃ k, (run Core.step env s k).fsm.fsm = .msgXor ∧ (run Core.step env s k).dp = latched (env 0)
      ∧ ∀ j, 0 < j → j ≤ k → (run Core.step env s j).done = false := by
  obtain ⟨f₀, hlatch, hf₀, hlow⟩ := run_latch hs hena
  rw [latchedBy_held hheld] at hlatch
  obtain ⟨f₁, hinit, hf₁⟩ := path_perm (m := 32) (q := .nFrame) (by decide) (by decide) hf₀.done
    .zero (latched (env 0))
  rw [hf₀.ncnt, hf₀.wcnt, hf₀.tlo] at hf₁
  obtain ⟨f₂, w₂, hnonce, hdone₂, hat₂⟩ := path_nonce hf₁
    (permSteps (bswap128 (env 0).key) 32 .zero) (latched (env 0))
  obtain ⟨f₃, w₃, had, hdone₃, hat₃⟩ := path_ad hat₂ hdone₂
  have hpos : 0 < (latched (env 0)).dataWordsR := not_not.1 (mt not_pos_iff.1 hdata)
  rw [AtMsg, if_pos hpos] at hat₃
  obtain ⟨rfl, n, tlo, hf₃⟩ := hat₃
  obtain ⟨f₄, hperm, hf₄⟩ := path_permute (by decide) (by decide) hf₃.done
    (step_msgFrame hf₃ _ (latched (env 0)))
  have hpath := ((hinit.trans hnonce).trans had).trans hperm
  generalize 32 + 66 + 22 * (latched (env 0)).adWordsR.toNat + (32 + 1) = m at hpath
  obtain ⟨hend, hquiet⟩ := hpath.run (fun j => env (3 + j)) fun _ _ => trivial
  rw [← hlatch, ← run_add] at hend
  refine ⟨3 + m, ?_, ?_, fun j hj hjm => ?_⟩
  · rw [hend]
    exact hf₄.state
  · rw [hend]
  · rcases Nat.lt_trichotomy j 3 with hlt | rfl | hgt
    · exact hlow j hj hlt
    · rw [hlatch]
      exact hf₀.done
    · obtain ⟨k, rfl⟩ : ∃ k, j = 3 + k := ⟨j - 3, by omega⟩
      rw [run_add, hlatch]
      exact hquiet k (by omega) (by omega)

/-! ## The modes -/

variable {s : Core} {env : ℕ → CoreIn}

/-- An operation in mode `010` compares the tags. -/
theorem failsClosed_of_dec (hs : s.fsm.fsm = .idle) (hena : (env 0).ena = true) (hheld : Held env)
    (hmode : (env 0).selType = modeDec) : FailsClosed env s := by
  obtain ⟨hdone, -, hdp⟩ := run_op hs hena hheld
  intro n hn _ hvalid
  rw [hn.unique hdone, hdp] at hvalid ⊢
  have hvalid : (if (env 0).selType = modeDec then _ else _) = true := hvalid
  rw [if_pos hmode, beq_iff_eq] at hvalid
  show bswap64 _ = _
  rw [hvalid]
  exact bswap64_bswap64 _

/-- In mode `001`, and without data, no recovered word is absorbed. -/
theorem failsClosed_of_none (hs : s.fsm.fsm = .idle) (hena : (env 0).ena = true)
    (h : (env 0).selType = modeEnc ∨ calcWords (env 0).dataLength = 0) : FailsClosed env s := by
  rintro n hn ⟨k, hk, hxor, hmode⟩ -
  rcases Nat.eq_zero_or_pos k with rfl | hpos
  · exact absurd (hs.symm.trans hxor) (by decide)
  · obtain ⟨j, rfl⟩ : ∃ j, k = j + 1 := ⟨k - 1, by omega⟩
    have hrun := run_running hs hena hn hk
    rcases h with henc | hzero
    · exact absurd (hrun.mode.trans henc) hmode
    · exact absurd hxor (hrun.noData hzero).2.1

/-- In every other mode an operation with data accepts every tag. -/
theorem not_failsClosed (hs : s.fsm.fsm = .idle) (hena : (env 0).ena = true) (hheld : Held env)
    (henc : (env 0).selType ≠ modeEnc) (hdec : (env 0).selType ≠ modeDec)
    (hdata : calcWords (env 0).dataLength ≠ 0) (htag : (result (env 0)).tag ≠ (env 0).tagIn) :
    ¬FailsClosed env s := by
  intro h
  obtain ⟨hdone, -, hdp⟩ := run_op hs hena hheld
  obtain ⟨k, hxor, hlatched, hlow⟩ := reaches_msgXor hs hena hheld hdata
  have hk : k < opCycles (env 0) := by
    by_contra hge
    have hlow := hlow (opCycles (env 0)) hdone.pos (by omega)
    exact absurd (hdone.high.symm.trans hlow) (by decide)
  refine htag ?_
  have hresult := h (opCycles (env 0)) hdone ⟨k, hk, hxor, ?_⟩ ?_
  · rw [hdp] at hresult
    exact hresult
  · rw [hlatched]
    exact henc
  · rw [hdp]
    show (if (env 0).selType = modeDec then _ else true) = true
    rw [if_neg hdec]

/-- The operations of a mode and a data length fail closed, for every other input and every tag,
    exactly when the mode is one of the two that software uses or no word of data is processed. -/
theorem fails_closed_iff (hs : s.fsm.fsm = .idle) (op : CoreIn) (hena : op.ena = true) :
    (∀ (env : ℕ → CoreIn) (tagIn : BitVec 64), env 0 = { op with tagIn := tagIn } → Held env →
        FailsClosed env s)
      ↔ op.selType = 0b001 ∨ op.selType = 0b010 ∨ op.dataLength = 0 ∨ 28 < op.dataLength := by
  rw [← calcWords_eq_zero]
  constructor
  · intro h
    by_contra hnone
    obtain ⟨henc, hdec, hdata⟩ : op.selType ≠ modeEnc ∧ op.selType ≠ modeDec
        ∧ calcWords op.dataLength ≠ 0 :=
      ⟨fun h => hnone (.inl h), fun h => hnone (.inr (.inl h)), fun h => hnone (.inr (.inr h))⟩
    -- a tag that is not the one computed
    let bad : CoreIn := { op with tagIn := ~~~(result op).tag }
    have hne : (result bad).tag ≠ bad.tagIn := by
      rw [result_tag op]
      intro heq
      have hbit := congrArg (fun x => x.getLsbD 0) heq
      simp [bad] at hbit
    let env : ℕ → CoreIn := fun _ => bad
    have hheld : Held env := fun _ _ => congrArg (fun e => { bad with ena := e }) hena.symm
    have hnot : ¬FailsClosed env s := not_failsClosed hs hena hheld henc hdec hdata hne
    exact hnot (h env _ rfl hheld)
  · rintro hcond env tagIn henv hheld
    have hena' : (env 0).ena = true := by rw [henv]; exact hena
    rcases hcond with henc | hdec | hzero
    · exact failsClosed_of_none hs hena' (.inl (by rw [henv]; exact henc))
    · exact failsClosed_of_dec hs hena' hheld (by rw [henv]; exact hdec)
    · exact failsClosed_of_none hs hena' (.inr (by rw [henv]; exact hzero))

/-- One byte of data in mode `sel`. -/
def byteOp (sel : BitVec 3) : CoreIn where
  ena := true
  selType := sel
  key := 0
  nonce := 0
  ad := 0
  adLength := 0
  dataLength := 1
  dataIn := 0
  tagIn := 0

theorem fails_closed_iff_decryption : FailsClosed (fun _ => byteOp 0b010) .reset :=
  (fails_closed_iff (s := .reset) rfl (byteOp 0b010) rfl).2 (by decide) (fun _ => byteOp 0b010) 0 rfl
    fun _ _ => rfl

theorem not_failsClosed_mode_zero : ¬FailsClosed (fun _ => byteOp 0b000) .reset := by
  refine not_failsClosed rfl rfl (fun _ _ => rfl) (by decide) (by decide) (by decide) ?_
  show (result (byteOp 0b000)).tag ≠ 0
  decide +kernel

end PicoSoc.TinyJambu
