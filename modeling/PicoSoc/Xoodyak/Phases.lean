import PicoSoc.Xoodyak.Core
import PicoSoc.Xoodyak.Engine

set_option autoImplicit false

/-! # The phases of an operation

Between two permutations the core walks over at most four words of an input or an output. Each
phase is a path of the core: while `restart` is low and the machine is not idle, no input matters.
The `afterX` states say what a phase leaves behind, and the `path_X` theorems that it takes the
core there. -/

namespace PicoSoc.Xoodyak

open Clocked

variable {n : ℕ}

/-! ## Paths of the core -/

def NoRestart (i : CoreIn) : Prop := i.restart = false

def NotDone (s : Core) : Prop := s.done = false

/-- A stretch of `k` cycles with `restart` and `done` low. -/
abbrev CorePath (n k : ℕ) (s t : Core) : Prop := Path (Core.step n) NoRestart NotDone k s t

/-- The core between two permutations: nothing is started and the engine is at rest. -/
structure Core.Ready (n : ℕ) (s : Core) : Prop where
  start : s.xoodooStartR = false
  engine : s.xoodoo.Rest n
  done : s.done = false

/-- The core in state `q` at word `j` with the register of the engine replaced. -/
def Core.phase (s : Core) (q : FsmState) (j : ℕ) (r : XState) : Core :=
  { s with stateR := q, wordCntR := BitVec.ofNat 4 j, xoodoo := { s.xoodoo with regValue := r } }

/-! ## Words -/

/-- Word `k` of the state is XORed with `w (k - b)` for the `m` positions from `b` on. -/
def loadWords (w : ℕ → BitVec 32) (b m : ℕ) (r : XState) : XState :=
  r.mapIdx fun k x => if b ≤ k ∧ k < b + m then x ^^^ w (k - b) else x

theorem getElem_loadWords (w : ℕ → BitVec 32) (b m : ℕ) (r : XState) {k : ℕ} (hk : k < 12) :
    (loadWords w b m r)[k] = if b ≤ k ∧ k < b + m then r[k] ^^^ w (k - b) else r[k] := by
  simp [loadWords]

@[simp] theorem loadWords_zero (w : ℕ → BitVec 32) (b : ℕ) (r : XState) :
    loadWords w b 0 r = r := by
  apply Vector.ext
  intro k hk
  rw [getElem_loadWords, if_neg (by omega)]

/-- The engine XORs one word into its register. -/
theorem stateWithXor_word {w : ℕ → BitVec 32} {b j : ℕ} {r : XState} {i : XoodooIn}
    (hen : i.wordEnableIn = true) (hidx : i.wordIndexIn.toNat = b + j) (hword : i.wordIn = w j)
    (hdom : i.domainEnableI = false) :
    stateWithXor i (loadWords w b j r) = loadWords w b (j + 1) r := by
  apply Vector.ext
  intro k hk
  simp only [stateWithXor, Vector.getElem_ofFn, getElem_loadWords, hen, hidx, hword, hdom]
  by_cases hkj : b + j = k
  · subst hkj
    simp
  · have : (b ≤ k ∧ k < b + (j + 1)) ↔ (b ≤ k ∧ k < b + j) := by omega
    simp [hkj, this]

/-- The bytes read or written so far: word `k` of the register holds `w k` for `k < m`. -/
def collectWords (w : ℕ → BitVec 32) : ℕ → BitVec 128 → BitVec 128
  | 0, data => data
  | m + 1, data => putWord (collectWords w m data) (BitVec.ofNat 2 m) (w m)

/-- The number of words that hold `len` bytes, at most four. -/
def words (len : BitVec 5) : ℕ := min 4 ((len.toNat + 3) / 4)

theorem words_pos {len : BitVec 5} (h : 0 < len) : 0 < words len := by
  have : 0 < len.toNat := h
  simp only [words]
  omega

theorem words_le (len : BitVec 5) : words len ≤ 4 := Nat.min_le_left _ _

/-! ## One edge -/

/-- While the machine is not idle, no input but `restart` matters. -/
theorem Core.step_of_not_idle {s : Core} (hs : s.stateR ≠ .idle) {i j : CoreIn}
    (hi : NoRestart i) (hj : NoRestart j) : Core.step n i s = Core.step n j s := by
  have hi' : i.restart = false := hi
  have hj' : j.restart = false := hj
  obtain ⟨q⟩ := s
  cases q <;> first | exact absurd rfl hs | skip
  all_goals
    simp only [Core.step, hi', hj', Bool.false_eq_true, if_false, Core.advance, reduceCtorEq,
      false_and, Core.stateNext, Core.xoodooCtl, Core.xoodooIn, Core.validNext]

/-- An edge with the engine at rest. -/
theorem Core.step_ready (hn : n ∣ 12) {s : Core} (hs : s.Ready n)
    (hq : s.stateR ≠ .idle ∧ s.stateR ≠ .done) {i : CoreIn} (hi : NoRestart i) :
    Core.step n i s =
      { s with
        stateR := s.stateNext i
        wordCntR := s.wordCntNext
        domainR :=
          if s.stateR = .padNonce then domainAbsorb
          else if s.stateR = .padAd then domainZero
          else s.domainR
        dataOutR := s.dataOutNext
        tagR := s.tagNext
        validR := s.validNext i
        xoodooStartR := (s.xoodooCtl i).startNext
        xoodoo :=
          { s.xoodoo with regValue := stateWithXor (s.xoodooIn i) s.xoodoo.regValue } } := by
  have hi' : i.restart = false := hi
  obtain ⟨hidle, hdone⟩ := hq
  have hinit : (s.xoodooIn i).initReg = false := by
    simp only [Core.xoodooIn, Core.xoodooCtl]
    split <;> first | rfl | exact absurd ‹s.stateR = .idle› hidle
  have hengine := Xoodoo.step_rest hn hs.engine (i := s.xoodooIn i) hs.start hinit
  simp only [Core.step, hi', Bool.false_eq_true, if_false, Core.advance, hidle, hdone, false_and,
    hengine]

/-! ## Loading words -/

theorem Core.Ready.phase {s : Core} (hs : s.Ready n) (q : FsmState) (j : ℕ) (r : XState) :
    (s.phase q j r).Ready n :=
  ⟨hs.start, ⟨hs.engine.running, hs.engine.rc, hs.engine.valid⟩, hs.done⟩

@[simp] theorem wordSel_phase (s : Core) (q : FsmState) (j : ℕ) (r : XState) :
    (s.phase q j r).wordSel = BitVec.ofNat 2 j := by
  apply BitVec.eq_of_toNat_eq
  simp [Core.wordSel, Core.phase]

/-- A loop over the words `b … b + m - 1` in state `q`, leaving it for `q'`; `S j` and `R j` are
    the registers before word `j`. -/
theorem path_words (q q' : FsmState) (b : ℕ) {m : ℕ} (hm : 0 < m) (S : ℕ → Core) (R : ℕ → XState)
    (hS : ∀ j, (S j).Ready n)
    (hstep : ∀ j < m, ∀ i, NoRestart i →
      Core.step n i ((S j).phase q (b + j) (R j)) =
        (S (j + 1)).phase (if j + 1 = m then q' else q) (b + (j + 1)) (R (j + 1))) :
    CorePath n m ((S 0).phase q b (R 0)) ((S m).phase q' (b + m) (R m)) := by
  have hloop := @Path.loop _ _ (Core.step n) NoRestart NotDone
    (fun j => (S j).phase (if j = m then q' else q) (b + j) (R j)) m
    (fun j hj i hi => by
      simp only [if_neg hj.ne]
      exact hstep j hj i hi)
    (fun j _ => (hS (j + 1)).done)
  simpa [hm.ne] using hloop

/-- The states that walk over the words of an input. -/
def FsmState.isLoad : FsmState → Bool
  | .loadKey | .loadNonce | .loadAd | .loadData | .hashLoad => true
  | _ => false

theorem step_load (hn : n ∣ 12) {s : Core} (hs : s.Ready n) {q : FsmState} (hq : q.isLoad = true)
    (j : ℕ) (r : XState) {i : CoreIn} (hi : NoRestart i) :
    Core.step n i (s.phase q j r) =
      ({ s with dataOutR := (s.phase q j r).dataOutNext } : Core).phase
        ((s.phase q j r).stateNext i) (j + 1)
        (stateWithXor ((s.phase q j r).xoodooIn i) r) := by
  have hq' : (s.phase q j r).stateR ≠ .idle ∧ (s.phase q j r).stateR ≠ .done := by
    constructor <;> rintro rfl <;> cases hq
  rw [Core.step_ready hn (hs.phase _ _ _) hq' hi]
  have hcnt : BitVec.ofNat 4 j + 1#4 = BitVec.ofNat 4 (j + 1) := by
    rw [BitVec.ofNat_add]
  have hstart := hs.start
  cases q <;> first
    | exact absurd hq (by decide)
    | simp [Core.phase, Core.wordCntNext, Core.tagNext, Core.validNext, Core.xoodooCtl, hcnt,
        hstart]

/-- One word of an input is loaded without being collected. -/
theorem step_load_word (hn : n ∣ 12) {s : Core} (hs : s.Ready n) {q q' : FsmState}
    (hq : q.isLoad = true) (hqd : q ≠ .loadData) {b j : ℕ} {w : ℕ → BitVec 32} {r : XState}
    {i : CoreIn} (hi : NoRestart i) (hj : b + j < 16)
    (hnext : (s.phase q (b + j) (loadWords w b j r)).stateNext i = q')
    (hctl : (s.phase q (b + j) (loadWords w b j r)).xoodooCtl i =
      { wordIn := w j, wordIdx := BitVec.ofNat 4 (b + j), wordEn := true }) :
    Core.step n i (s.phase q (b + j) (loadWords w b j r)) =
      s.phase q' (b + (j + 1)) (loadWords w b (j + 1) r) := by
  rw [step_load hn hs hq _ _ hi, hnext, stateWithXor_word (w := w)]
  · have hout : (s.phase q (b + j) (loadWords w b j r)).dataOutNext = s.dataOutR := by
      cases q <;> first | rfl | exact absurd rfl hqd | exact absurd hq (by decide)
    rw [hout]
    rfl
  · simp only [Core.xoodooIn, hctl]
  · simp only [Core.xoodooIn, hctl, BitVec.toNat_ofNat]
    omega
  · simp only [Core.xoodooIn, hctl]
  · simp only [Core.xoodooIn, hctl]

/-- The words of a 128-bit input. -/
def inputWord (data : BitVec 128) (j : ℕ) : BitVec 32 := getWord data (BitVec.ofNat 2 j)

theorem path_loadKey (hn : n ∣ 12) {s : Core} (hs : s.Ready n) (r : XState) :
    CorePath n 4 (s.phase .loadKey 0 r)
      (s.phase .loadNonce 4 (loadWords (inputWord s.keyR) 0 4 r)) := by
  have hpath := path_words (n := n) .loadKey .loadNonce 0 (by decide : 0 < 4) (fun _ => s)
    (fun j => loadWords (inputWord s.keyR) 0 j r) (fun _ => hs) ?_
  · simpa using hpath
  intro j hj i hi
  refine step_load_word hn hs rfl (by decide) hi (by omega) ?_ ?_
  · interval_cases j <;> rfl
  · interval_cases j <;> rfl

theorem path_loadNonce (hn : n ∣ 12) {s : Core} (hs : s.Ready n) (r : XState) :
    CorePath n 4 (s.phase .loadNonce 4 r)
      (s.phase .padNonce 8 (loadWords (inputWord s.nonceR) 4 4 r)) := by
  have hpath := path_words (n := n) .loadNonce .padNonce 4 (by decide : 0 < 4) (fun _ => s)
    (fun j => loadWords (inputWord s.nonceR) 4 j r) (fun _ => hs) ?_
  · simpa using hpath
  intro j hj i hi
  refine step_load_word hn hs rfl (by decide) hi (by omega) ?_ ?_
  · interval_cases j <;> rfl
  · -- `word_cnt_r[1:0]` starts over at word 4
    have hsel : BitVec.ofNat 2 (4 + j) = BitVec.ofNat 2 j := by
      apply BitVec.eq_of_toNat_eq
      simp
    rw [inputWord, ← hsel, ← wordSel_phase s .loadNonce (4 + j) (loadWords _ 4 j r)]
    rfl

theorem lastWord_phase (s : Core) (q : FsmState) {j : ℕ} (r : XState) {len : BitVec 5}
    (hj : j < words len) : (s.phase q j r).lastWord len = decide (j + 1 = words len) := by
  have htable : ∀ len : BitVec 5, ∀ j < 4, j < words len →
      (decide (lengthWords len - 1 ≤ (BitVec.ofNat 4 j).setWidth 32) || BitVec.ofNat 4 j == 3) =
        decide (j + 1 = words len) := by
    decide +kernel
  exact htable len j (by have := words_le len; omega) hj

theorem path_loadAd (hn : n ∣ 12) {s : Core} (hs : s.Ready n) (hlen : 0 < s.adLengthR)
    (r : XState) :
    CorePath n (words s.adLengthR) (s.phase .loadAd 0 r)
      (s.phase .padAd (words s.adLengthR)
        (loadWords (inputWord s.adR) 0 (words s.adLengthR) r)) := by
  have hpath := path_words (n := n) .loadAd .padAd 0 (words_pos hlen) (fun _ => s)
    (fun j => loadWords (inputWord s.adR) 0 j r) (fun _ => hs) ?_
  · simpa using hpath
  intro j hj i hi
  have hle := words_le s.adLengthR
  refine step_load_word hn hs rfl (by decide) hi (by omega) ?_ ?_
  · have hlast := lastWord_phase s .loadAd (loadWords (inputWord s.adR) 0 j r) hj
    rw [Nat.zero_add]
    have hnext : (s.phase .loadAd j (loadWords (inputWord s.adR) 0 j r)).stateNext i =
        if (s.phase .loadAd j (loadWords (inputWord s.adR) 0 j r)).lastWord s.adLengthR
        then .padAd else .loadAd := rfl
    rw [hnext, hlast]
    simp only [decide_eq_true_eq]
  · have : j < 4 := by omega
    interval_cases j <;> rfl

/-! ## Loading and collecting the data -/

theorem wordOut_ofNat (r : XState) {j : ℕ} (hj : j < 12) : wordOut r (BitVec.ofNat 4 j) = r[j] := by
  have hidx : (BitVec.ofNat 4 j).toNat = j := by
    simp only [BitVec.toNat_ofNat]
    omega
  simp [wordOut, hidx, Array.getD_eq_getD_getElem?, hj]

/-- The word about to be loaded still shows the old state. -/
theorem wordOut_loadWords (w : ℕ → BitVec 32) {j : ℕ} (hj : j < 12) (r : XState) :
    wordOut (loadWords w 0 j r) (BitVec.ofNat 4 j) = wordOut r (BitVec.ofNat 4 j) := by
  rw [wordOut_ofNat _ hj, wordOut_ofNat _ hj, getElem_loadWords, if_neg (by omega)]

/-- What `data_out` shows of word `j`: the data plus the state. -/
def streamWord (data : BitVec 128) (r : XState) (j : ℕ) : BitVec 32 :=
  wordOut r (BitVec.ofNat 4 j) ^^^ inputWord data j

/-- What is XORed into the state: the data, in decryption mode the data plus the state. -/
def dataWord (selType : BitVec 3) (data : BitVec 128) (r : XState) (j : ℕ) : BitVec 32 :=
  if selType = modeAeadDec then streamWord data r j else inputWord data j

/-- The core with another value collected for `data_out`. -/
def Core.withData (s : Core) (out : BitVec 128) : Core := { s with dataOutR := out }

/-- `data_out_r` after the words of the data have passed. -/
def streamOut (s : Core) (r : XState) (j : ℕ) : BitVec 128 :=
  collectWords (fun j => byteSwap (streamWord s.dataInR r j)) j s.dataOutR

theorem step_loadData (hn : n ∣ 12) {s : Core} (hs : s.Ready n) {r : XState} {j : ℕ}
    (hj : j < words s.dataLengthR) {i : CoreIn} (hi : NoRestart i) :
    Core.step n i ((s.withData (streamOut s r j)).phase .loadData j
        (loadWords (dataWord s.selTypeR s.dataInR r) 0 j r)) =
      (s.withData (streamOut s r (j + 1))).phase
        (if j + 1 = words s.dataLengthR then .padData else .loadData) (j + 1)
        (loadWords (dataWord s.selTypeR s.dataInR r) 0 (j + 1) r) := by
  have hready : (s.withData (streamOut s r j)).Ready n := ⟨hs.start, hs.engine, hs.done⟩
  have hj4 : j < 4 := by have := words_le s.dataLengthR; omega
  generalize hc : (s.withData (streamOut s r j)).phase .loadData j
    (loadWords (dataWord s.selTypeR s.dataInR r) 0 j r) = c
  have hread : c.xoodooWordOut = wordOut r (BitVec.ofNat 4 j) := by
    rw [← hc]
    exact wordOut_loadWords _ (by omega) r
  have hsel : c.wordSel = BitVec.ofNat 2 j := by rw [← hc, wordSel_phase]
  have hnext : c.stateNext i = if j + 1 = words s.dataLengthR then .padData else .loadData := by
    have hlast : c.lastWord s.dataLengthR = decide (j + 1 = words s.dataLengthR) := by
      rw [← hc, lastWord_phase _ _ _ hj]
    have hdef : c.stateNext i = if c.lastWord s.dataLengthR then .padData else .loadData := by
      rw [← hc]
      rfl
    rw [hdef, hlast]
    simp only [decide_eq_true_eq]
  have hout : c.dataOutNext = streamOut s r (j + 1) := by
    have hdef : c.dataOutNext = putWord (streamOut s r j) c.wordSel
        (byteSwap (c.xoodooWordOut ^^^ getWord s.dataInR c.wordSel)) := by
      rw [← hc]
      rfl
    rw [hdef, hread, hsel]
    rfl
  have hword : (c.xoodooIn i).wordIn = dataWord s.selTypeR s.dataInR r j := by
    have hdef : (c.xoodooIn i).wordIn =
        if s.selTypeR = modeAeadDec then c.xoodooWordOut ^^^ getWord s.dataInR c.wordSel
        else getWord s.dataInR c.wordSel := by
      rw [← hc]
      rfl
    rw [hdef, hread, hsel]
    rfl
  have hidx : (c.xoodooIn i).wordIndexIn.toNat = 0 + j := by
    rw [← hc]
    simp only [Core.xoodooIn, Core.xoodooCtl, Core.phase, BitVec.toNat_ofNat]
    omega
  have hstep := step_load hn hready (q := .loadData) rfl j
    (loadWords (dataWord s.selTypeR s.dataInR r) 0 j r) hi
  rw [hc, hnext, hout, stateWithXor_word (w := dataWord s.selTypeR s.dataInR r) (by rw [← hc]; rfl)
    hidx hword (by rw [← hc]; rfl)] at hstep
  exact hstep

theorem path_loadData (hn : n ∣ 12) {s : Core} (hs : s.Ready n) (hlen : 0 < s.dataLengthR)
    (r : XState) :
    CorePath n (words s.dataLengthR) (s.phase .loadData 0 r)
      ((s.withData (streamOut s r (words s.dataLengthR))).phase .padData (words s.dataLengthR)
        (loadWords (dataWord s.selTypeR s.dataInR r) 0 (words s.dataLengthR) r)) := by
  have hpath := path_words (n := n) .loadData .padData 0 (words_pos hlen)
    (fun j => s.withData (streamOut s r j))
    (fun j => loadWords (dataWord s.selTypeR s.dataInR r) 0 j r)
    (fun _ => ⟨hs.start, hs.engine, hs.done⟩)
    (fun j hj i hi => by
      rw [Nat.zero_add, Nat.zero_add]
      exact step_loadData hn hs hj hi)
  rw [loadWords_zero, Nat.zero_add] at hpath
  exact hpath

/-! ## Loading the message of a hash -/

/-- The hash always walks over four words, but stops at once when there is nothing to load. -/
def hashCycles (len : BitVec 5) : ℕ := if len = 0 then 1 else 4

theorem hashCycles_pos (len : BitVec 5) : 0 < hashCycles len := by
  unfold hashCycles
  split <;> decide

theorem words_le_hashCycles (len : BitVec 5) : words len ≤ hashCycles len := by
  unfold hashCycles
  split
  · next h => rw [h]; decide
  · exact words_le len

theorem step_hashLoad (hn : n ∣ 12) {s : Core} (hs : s.Ready n) (r : XState) {j : ℕ}
    (hj : j < hashCycles s.dataLengthR) {i : CoreIn} (hi : NoRestart i) :
    Core.step n i (s.phase .hashLoad j
        (loadWords (inputWord s.dataInR) 0 (min j (words s.dataLengthR)) r)) =
      s.phase (if j + 1 = hashCycles s.dataLengthR then .hashPad else .hashLoad) (j + 1)
        (loadWords (inputWord s.dataInR) 0 (min (j + 1) (words s.dataLengthR)) r) := by
  -- the counter runs to 3 for every length but 0, the words end before
  have htable : ∀ len : BitVec 5, ∀ j < 4, j < hashCycles len →
      ((len = 0 ∨ 3 ≤ BitVec.ofNat 4 j) ↔ j + 1 = hashCycles len) ∧
        ((BitVec.ofNat 4 j).setWidth 32 < lengthWords len ↔ j < words len) := by
    decide +kernel
  have hj4 : j < 4 := by
    have : hashCycles s.dataLengthR ≤ 4 := by unfold hashCycles; split <;> decide
    omega
  obtain ⟨hlast, hen⟩ := htable s.dataLengthR j hj4 hj
  generalize hc : s.phase .hashLoad j
    (loadWords (inputWord s.dataInR) 0 (min j (words s.dataLengthR)) r) = c
  have hnext : c.stateNext i =
      if j + 1 = hashCycles s.dataLengthR then .hashPad else .hashLoad := by
    have hdef : c.stateNext i =
        if s.dataLengthR = 0 ∨ 3 ≤ BitVec.ofNat 4 j then .hashPad else .hashLoad := by
      rw [← hc]
      rfl
    simp only [hdef, hlast]
  have hout : c.dataOutNext = s.dataOutR := by rw [← hc]; rfl
  have hstep := step_load hn hs (q := .hashLoad) rfl j
    (loadWords (inputWord s.dataInR) 0 (min j (words s.dataLengthR)) r) hi
  rw [hc, hnext, hout] at hstep
  rw [hstep]
  have hreg : stateWithXor (c.xoodooIn i)
      (loadWords (inputWord s.dataInR) 0 (min j (words s.dataLengthR)) r) =
      loadWords (inputWord s.dataInR) 0 (min (j + 1) (words s.dataLengthR)) r := by
    have hword : (c.xoodooIn i).wordEnableIn = decide (j < words s.dataLengthR) := by
      have hdef : (c.xoodooIn i).wordEnableIn =
          decide ((BitVec.ofNat 4 j).setWidth 32 < lengthWords s.dataLengthR) := by
        rw [← hc]
        rfl
      rw [hdef, decide_eq_decide.2 hen]
    -- behind the last word the state stays
    by_cases hjw : j < words s.dataLengthR
    · rw [Nat.min_eq_left hjw.le, Nat.min_eq_left hjw]
      refine stateWithXor_word (by rw [hword, decide_eq_true hjw]) ?_ ?_ (by rw [← hc]; rfl)
      · rw [← hc]
        simp only [Core.xoodooIn, Core.xoodooCtl, Core.phase, BitVec.toNat_ofNat]
        omega
      · rw [inputWord, ← wordSel_phase s .hashLoad j
          (loadWords (inputWord s.dataInR) 0 (min j (words s.dataLengthR)) r), hc, ← hc]
        rfl
    · rw [Nat.min_eq_right (by omega), Nat.min_eq_right (by omega)]
      refine stateWithXor_silent ⟨by rw [hword, decide_eq_false hjw], ?_, ?_⟩ _
      · rw [← hc]; rfl
      · rw [← hc]; rfl
  rw [hreg]

theorem path_hashLoad (hn : n ∣ 12) {s : Core} (hs : s.Ready n) (r : XState) :
    CorePath n (hashCycles s.dataLengthR) (s.phase .hashLoad 0 r)
      (s.phase .hashPad (hashCycles s.dataLengthR)
        (loadWords (inputWord s.dataInR) 0 (words s.dataLengthR) r)) := by
  have hpath := path_words (n := n) .hashLoad .hashPad 0 (hashCycles_pos s.dataLengthR)
    (fun _ => s)
    (fun j => loadWords (inputWord s.dataInR) 0 (min j (words s.dataLengthR)) r) (fun _ => hs)
    (fun j hj i hi => by
      rw [Nat.zero_add, Nat.zero_add]
      exact step_hashLoad hn hs r hj hi)
  rw [Nat.zero_min, loadWords_zero, Nat.zero_add,
    Nat.min_eq_right (words_le_hashCycles s.dataLengthR)] at hpath
  exact hpath

/-! ## Padding and permuting -/

def FsmState.isPad : FsmState → Bool
  | .padNonce | .padAd | .padData | .hashPad | .hashPad2 => true
  | _ => false

def FsmState.isPerm : FsmState → Bool
  | .permNonce | .permAd | .permData | .hashPerm1 | .hashPerm2 => true
  | _ => false

/-- The state a padding state leads to. -/
def FsmState.perm : FsmState → FsmState
  | .padNonce => .permNonce
  | .padAd => .permAd
  | .padData => .permData
  | .hashPad => .hashPerm1
  | .hashPad2 => .hashPerm2
  | q => q

/-- Where the machine goes when a permutation is finished. -/
def Core.permExit (s : Core) (q : FsmState) : FsmState :=
  match q with
  | .permNonce => if 0 < s.adLengthR then .loadAd else .padAd
  | .permAd => if 0 < s.dataLengthR then .loadData else .padData
  | .permData => if s.selTypeR = modeAeadEnc then .extractTag else .verifyTag
  | .hashPerm1 => .hashSqueeze1
  | .hashPerm2 => .hashSqueeze2
  | q => q

theorem stateNext_isPerm {s : Core} (hq : s.stateR.isPerm = true) (i : CoreIn) :
    s.stateNext i = if s.permDone then s.permExit s.stateR else s.stateR := by
  unfold Core.stateNext Core.permExit
  cases h : s.stateR <;> first | rfl | (rw [h] at hq; exact absurd hq (by decide))

/-- The engine inputs while a permutation runs. -/
def permIn (start : Bool) : XoodooIn :=
  { startI := start, initReg := false, wordIn := 0, wordIndexIn := 0, wordEnableIn := false,
    domainI := 0, domainEnableI := false }

/-- The core in the permutation state `q` while the engine is `e`. -/
def Core.permuting (s : Core) (q : FsmState) (start : Bool) (e : Xoodoo) : Core :=
  { s with stateR := q, wordCntR := 0, xoodooStartR := start, xoodoo := e }

theorem step_permuting {s : Core} {q : FsmState} (hq : q.isPerm = true)
    (start : Bool) (e : Xoodoo) {i : CoreIn} (hi : NoRestart i) :
    Core.step n i (s.permuting q start e) =
      s.permuting (if e.stateValidO && !start then s.permExit q else q) false
        (e.step n (permIn start)) := by
  have hi' : i.restart = false := hi
  have hnext := stateNext_isPerm (s := s.permuting q start e) hq i
  have hdone : (s.permuting q start e).permDone = (e.stateValidO && !start) := rfl
  rw [hdone] at hnext
  simp only [Core.step, hi', Bool.false_eq_true, if_false, Core.advance, hnext]
  cases q <;> first | rfl | exact absurd hq (by decide)

/-- A permutation takes its `12 / n` cycles and one more to leave the state. -/
theorem path_permuting (hn : n ∣ 12) {s : Core} (hs : s.Ready n) {q : FsmState}
    (hq : q.isPerm = true) :
    CorePath n (12 / n + 1) (s.permuting q true s.xoodoo)
      (s.permuting (s.permExit q) false (engineAfter n (12 / n) s.xoodoo.regValue)) := by
  have hpos : 0 < n := Nat.pos_of_dvd_of_pos hn (by decide)
  have hcycles : n * (12 / n) = 12 := Nat.mul_div_cancel' hn
  have hcount : 0 < 12 / n := Nat.div_pos (Nat.le_of_dvd (by decide) hn) hpos
  have hsilent : ∀ b, (permIn b).Silent := fun _ => ⟨rfl, rfl, rfl⟩
  have hfirst : CorePath n 1 (s.permuting q true s.xoodoo)
      (s.permuting q false (engineAfter n 1 s.xoodoo.regValue)) := by
    refine .single (fun i hi => ?_) hs.done
    rw [step_permuting hq _ _ hi, step_start hn hs.engine (hsilent true) rfl]
    simp
  have hloop : CorePath n (12 / n - 1) (s.permuting q false (engineAfter n 1 s.xoodoo.regValue))
      (s.permuting q false (engineAfter n (12 / n) s.xoodoo.regValue)) := by
    have hpath := @Path.loop _ _ (Core.step n) NoRestart NotDone
      (fun k => s.permuting q false (engineAfter n (k + 1) s.xoodoo.regValue)) (12 / n - 1)
      (fun k hk i hi => ?_) (fun _ _ => hs.done)
    · simpa [Nat.sub_add_cancel hcount] using hpath
    have hle : n * (k + 1 + 1) ≤ 12 := by
      calc n * (k + 1 + 1) ≤ n * (12 / n) := Nat.mul_le_mul_left n (by omega)
        _ = 12 := hcycles
    have hne : n * (k + 1) ≠ 12 := by
      rw [Nat.mul_succ n (k + 1)] at hle
      omega
    rw [step_permuting hq _ _ hi, step_engineAfter hle hpos _ (hsilent false)]
    simp [engineAfter, hne]
  have hlast : CorePath n 1 (s.permuting q false (engineAfter n (12 / n) s.xoodoo.regValue))
      (s.permuting (s.permExit q) false (engineAfter n (12 / n) s.xoodoo.regValue)) := by
    refine .single (fun i hi => ?_) hs.done
    have hrest := engineAfter_rest hcycles s.xoodoo.regValue
    rw [step_permuting hq _ _ hi, Xoodoo.step_rest hn hrest rfl rfl,
      stateWithXor_silent (hsilent false)]
    simp [engineAfter_last hcycles]
  exact ((hfirst.trans hloop).trans hlast).cast (by omega)

/-! ## A squeeze, a padding and a permutation in one step -/

/-- The engine inputs of a padding state. -/
def padIn (k : BitVec 4) (word domain : BitVec 32) (colour : Bool) : XoodooIn :=
  { startI := false, initReg := false, wordIn := word, wordIndexIn := k, wordEnableIn := true,
    domainI := domain, domainEnableI := colour }

/-- The core once the register `r` has been permuted. -/
def Core.permuted (s : Core) (domain : BitVec 32) (r : XState) : Core :=
  { s with
    domainR := domain
    xoodoo :=
      { regValue := xoodoo12 r, rcStateIn := rcInit, running := false, stateValidO := true } }

theorem Core.Ready.permuted {s : Core} (hs : s.Ready n) (domain : BitVec 32) (r : XState) :
    (s.permuted domain r).Ready n :=
  ⟨hs.start, ⟨rfl, rfl, fun _ => rfl⟩, hs.done⟩

/-- The domain register after a padding state. -/
def Core.domainAfter (s : Core) (q : FsmState) : BitVec 32 :=
  if q = .padNonce then domainAbsorb else if q = .padAd then domainZero else s.domainR

/-- A padding state and the permutation it starts. -/
theorem path_pad (hn : n ∣ 12) {s : Core} (hs : s.Ready n) {q : FsmState} (hq : q.isPad = true)
    (j : ℕ) (r : XState) (x : XoodooIn) (hx : ∀ i, (s.phase q j r).xoodooIn i = x) :
    CorePath n (12 / n + 2) (s.phase q j r)
      ((s.permuted (s.domainAfter q) (stateWithXor x r)).phase (s.permExit q.perm) 0
        (xoodoo12 (stateWithXor x r))) := by
  have hperm : q.perm.isPerm = true := by cases q <;> first | rfl | exact absurd hq (by decide)
  have hq' : q ≠ .idle ∧ q ≠ .done := by constructor <;> rintro rfl <;> exact absurd hq (by decide)
  let s' : Core :=
    { s with
      domainR := s.domainAfter q
      xoodoo := { s.xoodoo with regValue := stateWithXor x r } }
  have hs' : s'.Ready n := ⟨hs.start, ⟨hs.engine.running, hs.engine.rc, hs.engine.valid⟩, hs.done⟩
  have hfirst : CorePath n 1 (s.phase q j r) (s'.permuting q.perm true s'.xoodoo) := by
    refine .single (fun i hi => ?_) hs.done
    rw [Core.step_ready hn (hs.phase _ _ _) hq' hi, hx]
    cases q <;> first | rfl | exact absurd hq (by decide)
  have hpath := path_permuting hn hs' hperm
  rw [engineAfter_last (Nat.mul_div_cancel' hn)] at hpath
  have hexit : s'.permExit q.perm = s.permExit q.perm := by cases q <;> rfl
  have hboth := hfirst.trans hpath
  rw [Nat.add_comm, hexit] at hboth
  have hend : (s.permuted (s.domainAfter q) (stateWithXor x r)).phase (s.permExit q.perm) 0
      (xoodoo12 (stateWithXor x r)) =
      s'.permuting (s.permExit q.perm) false
        { regValue := xoodoo12 (stateWithXor x r), rcStateIn := rcInit, running := false,
          stateValidO := true } := by
    simp [Core.phase, Core.permuted, Core.permuting, hs.start, s']
  rw [hend]
  exact hboth

/-! ## Reading a result -/

/-- The states that read four words out of the sponge. -/
def FsmState.isSqueeze : FsmState → Bool
  | .extractTag | .verifyTag | .hashSqueeze1 | .hashSqueeze2 => true
  | _ => false

/-- The bytes of the first `j` words of the state, as an output register collects them. -/
def squeezed (r : XState) (j : ℕ) (old : BitVec 128) : BitVec 128 :=
  collectWords (fun k => byteSwap (wordOut r (BitVec.ofNat 4 k))) j old

/-- The first `j` words of the state agree with `tag_in`. -/
def tagMatches (tagIn : BitVec 128) (r : XState) : ℕ → Bool
  | 0 => true
  | j + 1 =>
      tagMatches tagIn r j &&
        byteSwap (wordOut r (BitVec.ofNat 4 j)) == tagSlice tagIn (BitVec.ofNat 2 j)

/-- The core after reading `j` words of `r` in state `q`. -/
def Core.squeezing (s : Core) (q : FsmState) (r : XState) (j : ℕ) : Core :=
  { s with
    dataOutR := if q = .hashSqueeze2 then squeezed r j s.dataOutR else s.dataOutR
    tagR := if q = .hashSqueeze2 then s.tagR else squeezed r j s.tagR
    validR := if q = .verifyTag then s.validR && tagMatches s.tagInR r j else s.validR }

/-- Where the machine goes after four words. -/
def FsmState.squeezeExit : FsmState → FsmState
  | .hashSqueeze1 => .hashPad2
  | _ => .done

theorem step_squeeze (hn : n ∣ 12) {s : Core} (hs : s.Ready n) {q : FsmState}
    (hq : q.isSqueeze = true) {j : ℕ} (hj : j < 4) (r : XState) {i : CoreIn} (hi : NoRestart i) :
    Core.step n i ((s.squeezing q r j).phase q j r) =
      (s.squeezing q r (j + 1)).phase (if j + 1 = 4 then q.squeezeExit else q) (j + 1) r := by
  have hready : (s.squeezing q r j).Ready n := ⟨hs.start, hs.engine, hs.done⟩
  have hq' : q ≠ .idle ∧ q ≠ .done := by constructor <;> rintro rfl <;> exact absurd hq (by decide)
  have hsilent : (((s.squeezing q r j).phase q j r).xoodooIn i).Silent := by
    cases q <;> first | exact ⟨rfl, rfl, rfl⟩ | exact absurd hq (by decide)
  have hnext : ((s.squeezing q r j).phase q j r).stateNext i =
      if j + 1 = 4 then q.squeezeExit else q := by
    have hlast : BitVec.ofNat 4 j = 3 ↔ j + 1 = 4 := by
      have htable : ∀ j < 4, (BitVec.ofNat 4 j = 3 ↔ j + 1 = 4) := by decide
      exact htable j hj
    cases q <;> first
      | exact absurd hq (by decide)
      | simp only [Core.stateNext, Core.phase, hlast, FsmState.squeezeExit]
  have hcnt : ((s.squeezing q r j).phase q j r).wordCntNext = BitVec.ofNat 4 (j + 1) := by
    have hadd : BitVec.ofNat 4 j + 1 = BitVec.ofNat 4 (j + 1) := by
      rw [BitVec.ofNat_add]
      rfl
    cases q <;> first | exact absurd hq (by decide) | exact hadd
  have hsel := wordSel_phase (s.squeezing q r j) q j r
  have hout : ((s.squeezing q r j).phase q j r).dataOutNext =
      (s.squeezing q r (j + 1)).dataOutR := by
    cases q <;> first
      | exact absurd hq (by decide)
      | simp only [Core.dataOutNext, hsel]; rfl
  have htag : ((s.squeezing q r j).phase q j r).tagNext = (s.squeezing q r (j + 1)).tagR := by
    cases q <;> first
      | exact absurd hq (by decide)
      | simp only [Core.tagNext, hsel]; rfl
  -- only `verifyTag` looks at the tag of the host
  have hvalid : ((s.squeezing q r j).phase q j r).validNext i =
      (s.squeezing q r (j + 1)).validR := by
    cases q <;> first
      | exact absurd hq (by decide)
      | rfl
      | skip
    have hdef : ((s.squeezing .verifyTag r j).phase .verifyTag j r).validNext i =
        if byteSwap (wordOut r (BitVec.ofNat 4 j)) ≠ tagSlice s.tagInR (BitVec.ofNat 2 j) then false
        else s.validR && tagMatches s.tagInR r j := by
      simp only [Core.validNext, hsel]
      rfl
    rw [hdef]
    by_cases heq : byteSwap (wordOut r (BitVec.ofNat 4 j)) = tagSlice s.tagInR (BitVec.ofNat 2 j)
    · simp [Core.squeezing, tagMatches, heq]
    · simp [Core.squeezing, tagMatches, heq]
  rw [Core.step_ready hn (hready.phase _ _ _) hq' hi, hnext, hcnt, hout, htag, hvalid,
    stateWithXor_silent hsilent]
  cases q <;> first
    | exact absurd hq (by decide)
    | simp [Core.phase, Core.squeezing, Core.xoodooCtl, hs.start]

theorem path_squeeze (hn : n ∣ 12) {s : Core} (hs : s.Ready n) {q : FsmState}
    (hq : q.isSqueeze = true) (r : XState) :
    CorePath n 4 (s.phase q 0 r) ((s.squeezing q r 4).phase q.squeezeExit 4 r) := by
  have hpath := path_words (n := n) q q.squeezeExit 0 (by decide : 0 < 4)
    (fun j => s.squeezing q r j) (fun _ => r) (fun _ => ⟨hs.start, hs.engine, hs.done⟩)
    (fun j hj i hi => by
      rw [Nat.zero_add, Nat.zero_add]
      exact step_squeeze hn hs hq hj r hi)
  have hzero : s.squeezing q r 0 = s := by
    cases q <;> simp [Core.squeezing, squeezed, collectWords, tagMatches]
  rw [hzero] at hpath
  exact hpath

end PicoSoc.Xoodyak
