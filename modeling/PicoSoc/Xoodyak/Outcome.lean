import PicoSoc.Xoodyak.ByteView
import PicoSoc.Xoodyak.Lanes

set_option autoImplicit false

/-! # What an operation leaves in the output registers

As functions of the inputs in the cycle of the start and, for `data_out`, of the register before. -/

namespace PicoSoc.Xoodyak

open Bytes Clocked

variable {n : ℕ}

/-- The states of the core from a reset on, with `restart` low. -/
def Core.FromReset (n : ℕ) : Core → Prop :=
  Reachable (Core.step n) (· = Core.reset) NoRestart

/-- `data_out_r` after an operation that found `old` in it. -/
def collectedOut (op : CoreIn) (old : BitVec 128) : BitVec 128 :=
  if op.selType = modeHash then
    squeezed (hashState2 (hashState op.dataIn op.dataLength)) 4 old
  else
    collectWords (fun j => byteSwap (streamWord op.dataIn
      (adState op.ad op.adLength (keyState op.key op.nonce)) j)) (words op.dataLength) old

/-- `tag_r` after an operation. -/
def collectedTag (op : CoreIn) : BitVec 128 :=
  squeezed (if op.selType = modeHash then hashState op.dataIn op.dataLength else aeadState op) 4 0

/-- `valid` after an operation. -/
def collectedValid (op : CoreIn) : Bool :=
  if op.selType = modeAeadDec then tagMatches op.tagIn (aeadState op) 4 else true

theorem collectedTag_of_hash {op : CoreIn} (h : op.selType = modeHash) :
    collectedTag op = squeezed (hashState op.dataIn op.dataLength) 4 0 := by
  rw [collectedTag, if_pos h]

theorem collectedTag_of_aead {op : CoreIn} (h : op.selType ≠ modeHash) :
    collectedTag op = squeezed (aeadState op) 4 0 := by
  rw [collectedTag, if_neg h]

theorem collectedOut_of_hash {op : CoreIn} (h : op.selType = modeHash) (old : BitVec 128) :
    collectedOut op old = squeezed (hashState2 (hashState op.dataIn op.dataLength)) 4 old := by
  rw [collectedOut, if_pos h]

theorem collectedOut_of_aead {op : CoreIn} (h : op.selType ≠ modeHash) (old : BitVec 128) :
    collectedOut op old = collectWords (fun j => byteSwap (streamWord op.dataIn
      (adState op.ad op.adLength (keyState op.key op.nonce)) j)) (words op.dataLength) old := by
  rw [collectedOut, if_neg h]

/-- The bytes past the words of the data are those of the old value. -/
theorem byteBE_collectWords_of_le (w : ℕ → BitVec 32) (old : BitVec 128) {j : ℕ} (hj : j ≤ 4) {i : ℕ}
    (hi : 4 * j ≤ i) (hi16 : i < 16) : byteBE 16 (collectWords w j old) i = byteBE 16 old i := by
  induction j with
  | zero => rfl
  | succ j ih =>
      rw [collectWords, byteBE_putWord _ _ (by omega) hi16, if_neg (by omega),
        ih (by omega) (by omega)]

/-- Four words replace the whole register. -/
theorem collectWords_four (w : ℕ → BitVec 32) (old old' : BitVec 128) :
    collectWords (fun k => byteSwap (w k)) 4 old = collectWords (fun k => byteSwap (w k)) 4 old' := by
  apply eq_of_byteBE 16 rfl
  intro i hi
  rw [byteBE_collectWords w old (by decide) (by omega),
    byteBE_collectWords w old' (by decide) (by omega)]

theorem squeezed_four (r : XState) (old old' : BitVec 128) :
    squeezed r 4 old = squeezed r 4 old' :=
  collectWords_four _ old old'

/-- Equal tags have equal first words. -/
theorem word_of_squeezed {r r' : XState} (h : squeezed r 4 0 = squeezed r' 4 0) :
    (unpack r).a₀ = (unpack r').a₀ := by
  apply eq_of_byteLE 4 rfl
  intro b hb
  have hbyte := congrArg (fun x => byteBE 16 x b) h
  simp only [squeezed] at hbyte
  rw [byteBE_collectWords _ _ (by decide) (by omega), byteBE_collectWords _ _ (by decide) (by omega),
    show b / 4 = 0 by omega, show b % 4 = b by omega, wordOut_ofNat _ (by decide),
    wordOut_ofNat _ (by decide)] at hbyte
  exact hbyte

/-- Only the last state and the idle state lead to the idle state. -/
theorem stateNext_eq_idle {s : Core} {i : CoreIn} (h : s.stateNext i = .idle) :
    s.stateR = .idle ∨ s.stateR = .done := by
  unfold Core.stateNext at h
  cases hs : s.stateR <;> rw [hs] at h
  case idle => exact .inl rfl
  case done => exact .inr rfl
  all_goals
    dsimp only at h
    repeat' split at h
    all_goals cases h

/-- An accepted start ends with these registers. -/
theorem started_collected (hn : n ∣ 12) (op : CoreIn) :
    ∃ k : ℕ, ∀ s : Core, (Core.step n op s).Started n op →
      ∀ env : ℕ → CoreIn, (∀ t, NoRestart (env t)) → env 0 = op →
        FirstDone (Core.step n) env s Core.done k ∧
          (run (Core.step n) env s k).stateR = .idle ∧
          (run (Core.step n) env s k).dataOut = collectedOut op (Core.step n op s).dataOutR ∧
          (run (Core.step n) env s k).tag = collectedTag op ∧
          (run (Core.step n) env s k).valid = collectedValid op := by
  by_cases hmode : op.selType = modeHash
  · refine ⟨hashTime n op.dataLength + 2, ?_⟩
    rintro s hs env henv rfl
    obtain ⟨t, hpath, hstate, hsel, htag, hout, -⟩ := path_hash hn hs hmode
    obtain ⟨hdone, hend, hdataOut, htagOut, hvalid⟩ := run_path henv hs.ready.done hpath hstate
    refine ⟨hdone, hend, ?_, ?_, ?_⟩
    · rw [hdataOut, hout, collectedOut_of_hash hmode]
    · rw [htagOut, htag, collectedTag_of_hash hmode]
      exact squeezed_four _ _ _
    · rw [hvalid, hsel, collectedValid, hmode]
      rfl
  · refine ⟨aeadCycles n op.adLength op.dataLength + 2, ?_⟩
    rintro s hs env henv rfl
    obtain ⟨t, hpath, hstate, hsel, hout, htag, hvalidR⟩ := path_aead hn hs hmode
    obtain ⟨hdone, hend, hdataOut, htagOut, hvalid⟩ := run_path henv hs.ready.done hpath hstate
    refine ⟨hdone, hend, ?_, ?_, ?_⟩
    · rw [hdataOut, hout, collectedOut_of_aead hmode]
    · rw [htagOut, htag, collectedTag_of_aead hmode]
      exact squeezed_four _ _ _
    · rw [hvalid, hsel, hvalidR, collectedValid]
      split
      · next hdec =>
        have hne : ((env 0).selType == modeAeadEnc) = false := by
          rw [hdec]
          decide
        rw [hne, Bool.false_or]
      · rfl

/-- The start itself does not touch `data_out_r`. -/
theorem dataOutR_of_idle {s : Core} (hidle : s.stateR = .idle) {i : CoreIn} (hi : NoRestart i) :
    (Core.step n i s).dataOutR = s.dataOutR := by
  have hi' : i.restart = false := hi
  rw [Core.step, hi']
  show s.dataOutNext = s.dataOutR
  rw [Core.dataOutNext, hidle]

/-- From every idle state the operation ends with these registers. -/
theorem run_collected (hn : n ∣ 12) (op : CoreIn) (hena : op.ena = true) :
    ∃ k : ℕ, ∀ s : Core, s.FromReset n → s.stateR = .idle →
      ∀ env : ℕ → CoreIn, (∀ t, NoRestart (env t)) → env 0 = op →
        FirstDone (Core.step n) env s Core.done k ∧
          (run (Core.step n) env s k).stateR = .idle ∧
          (run (Core.step n) env s k).dataOut = collectedOut op s.dataOutR ∧
          (run (Core.step n) env s k).tag = collectedTag op ∧
          (run (Core.step n) env s k).valid = collectedValid op := by
  obtain ⟨k, hk⟩ := started_collected hn op
  refine ⟨k, ?_⟩
  rintro s hs hidle env henv rfl
  have hstarted := step_start_op hn (reachable_inv hn hs) hidle (henv 0) hena
  rw [← dataOutR_of_idle (n := n) hidle (henv 0)]
  exact hk s hstarted env henv rfl

end PicoSoc.Xoodyak
