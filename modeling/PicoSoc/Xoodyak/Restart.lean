import PicoSoc.Xoodyak.Outcome

set_option autoImplicit false

/-! # Restart in the middle of a permutation

`restart` clears the registers of the core, not those of the engine. A permutation under way goes on
in the idle state and, if it is not over by the next start, through the first states of the next
operation. -/

namespace PicoSoc.Xoodyak

open Bytes Clocked

variable {n : ℕ}

/-! ## The engine in the middle of a permutation -/

/-- The engine with `n * k` rounds behind it and `r` in its register. -/
def engineAt (n k : ℕ) (r : XState) : Xoodoo :=
  if n * k = 12 then { regValue := r, rcStateIn := rcInit, running := false, stateValidO := true }
  else
    { regValue := r, rcStateIn := xoodooRcNext^[n * k] rcInit, running := true,
      stateValidO := false }

/-- The `n` rounds that follow the first `n * k`. -/
def roundsAt (n k : ℕ) (r : XState) : XState :=
  (xoodooNRounds n r (xoodooRcNext^[n * k] rcInit)).1

theorem engineAt_regValue (n k : ℕ) (r : XState) : (engineAt n k r).regValue = r := by
  unfold engineAt
  split <;> rfl

theorem engineAt_last {k : ℕ} (h : n * k = 12) (r : XState) :
    engineAt n k r =
      { regValue := r, rcStateIn := rcInit, running := false, stateValidO := true } := by
  rw [engineAt, if_pos h]

theorem engineAt_rest {k : ℕ} (h : n * k = 12) (r : XState) : (engineAt n k r).Rest n := by
  rw [engineAt_last h]
  exact ⟨rfl, rfl, fun _ => rfl⟩

/-- A busy cycle, whatever is pending at the inputs. -/
theorem step_underway {k : ℕ} (hk : n * (k + 1) ≤ 12) {e : Xoodoo} {i : XoodooIn}
    (hrc : e.rcStateIn = xoodooRcNext^[n * k] rcInit) (hbusy : (i.startI || e.running) = true) :
    e.step n i =
      engineAt n (k + 1)
        (if i.initReg then Vector.replicate 12 0
          else roundsAt n k (stateWithXor i e.regValue)) := by
  have hnext : (xoodooNRounds n (stateWithXor i e.regValue) e.rcStateIn).2 =
      xoodooRcNext^[n * (k + 1)] rcInit := by
    rw [xoodooNRounds_snd, hrc, ← Function.iterate_add_apply, Nat.mul_succ, Nat.add_comm]
  have hfinal : xoodooRcNext^[n * (k + 1)] rcInit = rcFinal ↔ n * (k + 1) = 12 := rc_final hk
  have hbusy' : (e.running || i.startI) = true := by rw [Bool.or_comm]; exact hbusy
  rw [Xoodoo.step]
  simp only [hnext, hbusy, hbusy', if_true, roundsAt, ← hrc]
  by_cases h12 : n * (k + 1) = 12
  · simp only [hfinal.2 h12, if_true, engineAt, if_pos h12]
  · simp only [mt hfinal.1 h12, if_false, engineAt, if_neg h12]

theorem step_engineAt (hn : 0 < n) {k : ℕ} (hk : n * (k + 1) ≤ 12) (r : XState) (i : XoodooIn) :
    (engineAt n k r).step n i =
      engineAt n (k + 1)
        (if i.initReg then Vector.replicate 12 0 else roundsAt n k (stateWithXor i r)) := by
  have hne : n * k ≠ 12 := by
    rw [Nat.mul_succ] at hk
    omega
  have hrc : (engineAt n k r).rcStateIn = xoodooRcNext^[n * k] rcInit := by
    rw [engineAt, if_neg hne]
  have hrun : (engineAt n k r).running = true := by rw [engineAt, if_neg hne]
  rw [step_underway hk hrc (by rw [hrun, Bool.or_true]), engineAt_regValue]

/-- The multiples of `n` up to twelve. -/
theorem succ_le_of_lt (hn : n ∣ 12) {k : ℕ} (hk : n * k < 12) : n * (k + 1) ≤ 12 := by
  obtain ⟨m, hm⟩ := hn
  rw [hm] at hk ⊢
  exact Nat.mul_le_mul_left n (Nat.lt_of_mul_lt_mul_left hk)

/-- The engine is at rest or has at least `n * k` rounds behind it. -/
def Xoodoo.Past (n k : ℕ) (e : Xoodoo) : Prop :=
  e.Rest n ∨ ∃ k' r, k ≤ k' ∧ n * k' ≤ 12 ∧ e = engineAt n k' r

theorem Xoodoo.Past.rest {k : ℕ} {e : Xoodoo} (he : e.Past n k) (hk : 12 ≤ n * k) : e.Rest n := by
  rcases he with hrest | ⟨k', r, hle, h12, rfl⟩
  · exact hrest
  · have hmul : n * k ≤ n * k' := Nat.mul_le_mul_left n hle
    exact engineAt_rest (by omega) r

theorem Xoodoo.Past.step (hn : n ∣ 12) {k : ℕ} {e : Xoodoo} (he : e.Past n k) {i : XoodooIn}
    (hstart : i.startI = false) : (e.step n i).Past n (k + 1) := by
  rcases he with hrest | ⟨k', r, hle, h12, rfl⟩
  · exact .inl (Xoodoo.rest_of_parked hn hrest.running hrest.rc hstart)
  · rcases Nat.lt_or_ge (n * k') 12 with hlt | hge
    · have hk := succ_le_of_lt hn hlt
      have hpos : 0 < n := Nat.pos_of_dvd_of_pos hn (by decide)
      exact .inr ⟨k' + 1, _, Nat.succ_le_succ hle, hk, step_engineAt hpos hk r i⟩
    · have hrest := engineAt_rest (n := n) (k := k') (by omega) r
      exact .inl (Xoodoo.rest_of_parked hn hrest.running hrest.rc hstart)

/-! ## From the restart to the next start -/

/-- The core after reset with the engine `e`. -/
def Core.restarted (e : Xoodoo) : Core := { Core.reset with xoodoo := e }

theorem step_restart {s : Core} {i : CoreIn} (hi : i.restart = true) :
    Core.step n i s = .restarted (s.xoodoo.step n (s.xoodooIn i)) := by
  rw [Core.step, hi]
  rfl

/-- The inputs of the engine in the idle state. -/
def idleIn (ena : Bool) : XoodooIn :=
  { startI := false, initReg := ena, wordIn := 0, wordIndexIn := 0, wordEnableIn := false,
    domainI := 0, domainEnableI := false }

theorem step_waiting {i : CoreIn} (hi : NoRestart i) (hena : i.ena = false) (e : Xoodoo) :
    Core.step n i (.restarted e) = .restarted (e.step n (idleIn false)) := by
  have hi' : i.restart = false := hi
  rw [Core.step, hi', if_neg Bool.false_ne_true]
  simp only [Core.advance, Core.restarted, Core.reset, Core.stateNext, Core.wordCntNext,
    Core.xoodooCtl, Core.xoodooIn, Core.validNext, Core.dataOutNext, Core.tagNext, idleIn, hena]
  simp

/-- The engine `j` cycles after the restart. -/
def waited (n : ℕ) (e : Xoodoo) (j : ℕ) : Xoodoo :=
  run (Xoodoo.step n) (fun _ => idleIn false) e j

theorem run_restart {s : Core} {env : ℕ → CoreIn} (hrestart : (env 0).restart = true)
    (henv : ∀ t, 0 < t → NoRestart (env t)) {j : ℕ} (hwait : ∀ t, 0 < t → t ≤ j → (env t).ena = false) :
    run (Core.step n) env s (j + 1) =
      .restarted (waited n (s.xoodoo.step n (s.xoodooIn (env 0))) j) := by
  induction j with
  | zero => exact step_restart hrestart
  | succ j ih =>
      rw [run_succ, ih fun t ht hle => hwait t ht (by omega),
        step_waiting (henv _ (by omega)) (hwait _ (by omega) le_rfl)]
      rfl

theorem waited_past (hn : n ∣ 12) {e : Xoodoo} {k : ℕ} (he : e.Past n k) (j : ℕ) :
    (waited n e j).Past n (k + j) := by
  induction j with
  | zero => exact he
  | succ j ih => exact ih.step hn rfl

theorem waited_engineAt (hn : 0 < n) {k : ℕ} (r : XState) {j : ℕ} (hj : n * (k + j) ≤ 12) :
    ∃ r', waited n (engineAt n k r) j = engineAt n (k + j) r' := by
  induction j with
  | zero => exact ⟨r, rfl⟩
  | succ j ih =>
      have hmul : n * (k + j) ≤ n * (k + (j + 1)) := Nat.mul_le_mul_left n (by omega)
      obtain ⟨r', hr'⟩ := ih (hmul.trans hj)
      have hnext : waited n (engineAt n k r) (j + 1) =
          (engineAt n (k + j) r').step n (idleIn false) := by
        rw [waited, run_succ, ← waited, hr']
      exact ⟨_, hnext.trans (step_engineAt hn hj r' _)⟩

/-! ## Permutations under way -/

/-- A permutation with `n * k` rounds behind it is under way, or starts with the next edge. -/
structure Core.Underway (n k : ℕ) (s : Core) : Prop where
  busy : (s.xoodooStartR || s.xoodoo.running) = true
  before : n * k < 12
  rc : s.xoodoo.rcStateIn = xoodooRcNext^[n * k] rcInit

theorem engine_inv (hn : n ∣ 12) {s : Core}
    (hs : Reachable (Core.step n) (· = Core.reset) (fun _ => True) s) : s.xoodoo.Inv n := by
  induction hs with
  | init h =>
      rw [h]
      exact ⟨0, by omega, rfl, fun _ => rfl⟩
  | @step s i _ _ ih =>
      have hengine : (Core.step n i s).xoodoo = s.xoodoo.step n (s.xoodooIn i) := by
        rw [Core.step]
        split <;> rfl
      rw [hengine]
      exact ih.step hn _

/-- A permutation that is over by the next start leaves the engine at rest there. -/
theorem past_of_underway (hn : n ∣ 12) {s : Core}
    (hs : Reachable (Core.step n) (· = Core.reset) (fun _ => True) s) {j : ℕ}
    (hover : ∀ k, s.Underway n k → 12 ≤ n * (k + j + 2)) (i : CoreIn) :
    ∃ k, (s.xoodoo.step n (s.xoodooIn i)).Past n k ∧
      ((s.xoodoo.step n (s.xoodooIn i)).Rest n ∨ 12 ≤ n * (k + j + 1)) := by
  obtain ⟨k, hk, hrc, hidle⟩ := (engine_inv hn hs).rc
  cases hbusy : s.xoodooStartR || s.xoodoo.running
  · obtain ⟨hstart, hrun⟩ := Bool.or_eq_false_iff.1 hbusy
    have hrest : (s.xoodoo.step n (s.xoodooIn i)).Rest n := by
      refine Xoodoo.rest_of_parked hn hrun ?_ hstart
      rw [hrc, hidle hrun]
      rfl
    exact ⟨0, .inl hrest, .inl hrest⟩
  · have hle := succ_le_of_lt hn hk
    have hstep := step_underway hle (i := s.xoodooIn i) hrc hbusy
    have h := hover k ⟨hbusy, hk, hrc⟩
    rw [show k + j + 2 = k + 1 + j + 1 by omega] at h
    exact ⟨k + 1, .inr ⟨k + 1, _, le_rfl, hle, hstep⟩, .inr h⟩

/-- The start of an operation in the core after reset with the engine `e`. -/
theorem step_restarted_start {i : CoreIn} (hi : NoRestart i) (hena : i.ena = true) (e : Xoodoo)
    (hrest : (e.step n (idleIn true)).Rest n) : (Core.step n i (.restarted e)).Started n i := by
  refine step_start_rest rfl hi hena ?_
  rw [(step_regs hi).2.2]
  have hin : (Core.restarted e).xoodooIn i = idleIn true := by
    rw [Core.xoodooIn, Core.xoodooCtl]
    simp [Core.restarted, Core.reset, hena, idleIn]
  rw [hin]
  exact hrest

/-! ## A hash that starts while the engine runs

The operation of the counterexamples: a hash of nothing. Its first state loads no word, its second
XORs the padding, its third gives the start pulse. -/

def emptyHash : CoreIn where
  ena := true
  restart := false
  selType := modeHash
  key := 0
  nonce := 0
  ad := 0
  adLength := 0
  dataLength := 0
  dataIn := 0
  tagIn := 0

/-- The registers of the hash that the phases do not touch. -/
def hashBase : Core := { Core.reset with selTypeR := modeHash, domainR := domainAbsorbHash }

theorem step_restarted_hash (e : Xoodoo) :
    Core.step n emptyHash (.restarted e) =
      hashBase.permuting .hashLoad false (e.step n (idleIn true)) := by
  rfl

theorem step_hashing_load {i : CoreIn} (hi : NoRestart i) (e : Xoodoo) :
    ∃ x : XoodooIn, x.Silent ∧ x.startI = false ∧
      Core.step n i (hashBase.permuting .hashLoad false e) =
        { hashBase.permuting .hashPad false (e.step n x) with wordCntR := 1 } := by
  have hi' : i.restart = false := hi
  refine ⟨(hashBase.permuting .hashLoad false e).xoodooIn i, ⟨?_, rfl, rfl⟩, rfl, ?_⟩
  · exact decide_eq_false (by show ¬(0#4).setWidth 32 < lengthWords 0; decide)
  rw [Core.step, hi']
  rfl

theorem step_hashing_pad {i : CoreIn} (hi : NoRestart i) (e : Xoodoo) :
    Core.step n i { hashBase.permuting .hashPad false e with wordCntR := 1 } =
      hashBase.permuting .hashPerm1 true (e.step n (padAfter 0 domainAbsorbHash)) := by
  have hi' : i.restart = false := hi
  rw [Core.step, hi']
  rfl

/-- The register after `j` more cycles of a permutation with `n * k` rounds behind it. -/
def roundsFrom (n k : ℕ) : ℕ → XState → XState
  | 0, r => r
  | j + 1, r => roundsAt n (k + j) (roundsFrom n k j r)

/-- The start pulse finds the engine busy, and the core waits for the rest of the old rounds only. -/
theorem path_busy (hn : n ∣ 12) {k : ℕ} (hk : n * k < 12) (r : XState) :
    CorePath n (12 / n - k + 1) (hashBase.permuting .hashPerm1 true (engineAt n k r))
      (hashBase.permuting .hashSqueeze1 false (engineAt n (12 / n) (roundsFrom n k (12 / n - k) r))) := by
  have hpos : 0 < n := Nat.pos_of_dvd_of_pos hn (by decide)
  have hmul : n * (12 / n) = 12 := Nat.mul_div_cancel' hn
  have hlt : k < 12 / n := by
    refine Nat.lt_of_mul_lt_mul_left (a := n) ?_
    rwa [hmul]
  have hsilent : ∀ b, (permIn b).Silent := fun _ => ⟨rfl, rfl, rfl⟩
  have hloop : CorePath n (12 / n - k) (hashBase.permuting .hashPerm1 true (engineAt n k r))
      (hashBase.permuting .hashPerm1 false
        (engineAt n (12 / n) (roundsFrom n k (12 / n - k) r))) := by
    have hpath := @Path.loop _ _ (Core.step n) NoRestart NotDone
      (fun j => hashBase.permuting .hashPerm1 (decide (j = 0))
        (engineAt n (k + j) (roundsFrom n k j r))) (12 / n - k) (fun j hj i hi => ?_)
        (fun _ _ => rfl)
    · have hend : decide (12 / n - k = 0) = false := decide_eq_false (by omega)
      rw [hend, show k + (12 / n - k) = 12 / n by omega] at hpath
      exact hpath
    have hle : n * (k + j + 1) ≤ n * (12 / n) := Nat.mul_le_mul_left n (by omega)
    rw [hmul] at hle
    have hvalid : (engineAt n (k + j) (roundsFrom n k j r)).stateValidO = false := by
      rw [Nat.mul_succ] at hle
      rw [engineAt, if_neg (by omega)]
    have hinit : (permIn (decide (j = 0))).initReg = false := rfl
    rw [step_permuting rfl _ _ hi, step_engineAt hpos hle, hvalid, hinit,
      stateWithXor_silent (hsilent _)]
    rfl
  have hlast : CorePath n 1
      (hashBase.permuting .hashPerm1 false
        (engineAt n (12 / n) (roundsFrom n k (12 / n - k) r)))
      (hashBase.permuting .hashSqueeze1 false
        (engineAt n (12 / n) (roundsFrom n k (12 / n - k) r))) := by
    refine .single (fun i hi => ?_) rfl
    have hrest := engineAt_rest hmul (roundsFrom n k (12 / n - k) r)
    rw [step_permuting rfl _ _ hi, Xoodoo.step_rest hn hrest rfl rfl,
      stateWithXor_silent (hsilent false), engineAt_last hmul]
    rfl
  exact hloop.trans hlast

/-- The sponge state from which the tag of the hash is read. -/
def staleState (n k : ℕ) : XState :=
  let r := stateWithXor (padAfter 0 domainAbsorbHash) (roundsAt n k (Vector.replicate 12 0))
  if n * (k + 1) = 12 then xoodoo12 r
  else if n * (k + 2) = 12 then xoodoo12 (roundsAt n (k + 1) r)
  else roundsFrom n (k + 2) (12 / n - (k + 2)) (roundsAt n (k + 1) r)

/-- The start pulse finds the engine at rest. -/
theorem path_rested (hn : n ∣ 12) {k : ℕ} (hk : n * k = 12) (r : XState) :
    CorePath n (12 / n + 1) (hashBase.permuting .hashPerm1 true (engineAt n k r))
      (hashBase.permuting .hashSqueeze1 false (engineAt n (12 / n) (xoodoo12 r))) := by
  have hready : ({ hashBase with xoodoo := engineAt n k r } : Core).Ready n :=
    ⟨rfl, engineAt_rest hk r, rfl⟩
  have hpath := path_permuting hn hready (q := .hashPerm1) rfl
  have hreg : ({ hashBase with xoodoo := engineAt n k r } : Core).xoodoo.regValue = r :=
    engineAt_regValue n k r
  have hmul : n * (12 / n) = 12 := Nat.mul_div_cancel' hn
  rw [hreg, engineAfter_last hmul, ← engineAt_last hmul] at hpath
  exact hpath

/-- The hash up to the first tag word. -/
theorem path_stale (hn : n ∣ 12) {k : ℕ} (hk : n * k < 12) :
    ∃ m, CorePath n m (hashBase.permuting .hashLoad false (engineAt n k (Vector.replicate 12 0)))
      (hashBase.permuting .hashSqueeze1 false (engineAt n (12 / n) (staleState n k))) := by
  have hpos : 0 < n := Nat.pos_of_dvd_of_pos hn (by decide)
  have hle := succ_le_of_lt hn hk
  have hload : CorePath n 1
      (hashBase.permuting .hashLoad false (engineAt n k (Vector.replicate 12 0)))
      { hashBase.permuting .hashPad false
          (engineAt n (k + 1) (roundsAt n k (Vector.replicate 12 0))) with wordCntR := 1 } := by
    refine .single (fun i hi => ?_) rfl
    obtain ⟨x, hx, -, hstep⟩ :=
      step_hashing_load (n := n) hi (engineAt n k (Vector.replicate 12 0))
    rw [hstep, step_engineAt hpos hle, hx.init, stateWithXor_silent hx]
    rfl
  have hpad : ∀ e : Xoodoo, CorePath n 1
      { hashBase.permuting .hashPad false e with wordCntR := 1 }
      (hashBase.permuting .hashPerm1 true (e.step n (padAfter 0 domainAbsorbHash))) := fun e =>
    .single (fun i hi => step_hashing_pad hi e) rfl
  have hboth := hload.trans (hpad _)
  rcases Nat.eq_or_lt_of_le hle with h12 | hlt
  · have hstep := Xoodoo.step_rest hn
      (engineAt_rest h12 (roundsAt n k (Vector.replicate 12 0)))
      (i := padAfter 0 domainAbsorbHash) rfl rfl
    rw [engineAt_regValue, engineAt_last h12] at hstep
    rw [engineAt_last h12, hstep, ← engineAt_last h12] at hboth
    have hpath := path_rested hn h12
      (stateWithXor (padAfter 0 domainAbsorbHash) (roundsAt n k (Vector.replicate 12 0)))
    rw [staleState, if_pos h12]
    exact ⟨_, hboth.trans hpath⟩
  · have hle := succ_le_of_lt hn hlt
    have hinit : (padAfter 0 domainAbsorbHash).initReg = false := rfl
    rw [step_engineAt hpos hle, hinit] at hboth
    rcases Nat.eq_or_lt_of_le hle with h12 | hlt'
    · have hpath := path_rested hn h12 (roundsAt n (k + 1)
        (stateWithXor (padAfter 0 domainAbsorbHash) (roundsAt n k (Vector.replicate 12 0))))
      rw [staleState, if_neg hlt.ne, if_pos h12]
      exact ⟨_, hboth.trans hpath⟩
    · have hpath := path_busy hn hlt' (roundsAt n (k + 1)
        (stateWithXor (padAfter 0 domainAbsorbHash) (roundsAt n k (Vector.replicate 12 0))))
      rw [staleState, if_neg hlt.ne, if_neg hlt'.ne]
      exact ⟨_, hboth.trans hpath⟩

/-! ## The same results -/

/-- The operations that begin in `s` and in `t` end with the same `data_out`, `tag` and `valid`. -/
def EndAlike (n : ℕ) (env : ℕ → CoreIn) (s t : Core) : Prop :=
  ∃ k k', FirstDone (Core.step n) env s Core.done k ∧ FirstDone (Core.step n) env t Core.done k' ∧
    (run (Core.step n) env s k).dataOut = (run (Core.step n) env t k').dataOut ∧
    (run (Core.step n) env s k).tag = (run (Core.step n) env t k').tag ∧
    (run (Core.step n) env s k).valid = (run (Core.step n) env t k').valid

theorem endAlike_of_rest (hn : n ∣ 12) {env : ℕ → CoreIn} (henv : ∀ t, NoRestart (env t))
    (hena : (env 0).ena = true) {e : Xoodoo} (hrest : (e.step n (idleIn true)).Rest n) :
    EndAlike n env (.restarted e) .reset := by
  have hreset : (Xoodoo.reset.step n (idleIn true)).Rest n := Xoodoo.rest_of_parked hn rfl rfl rfl
  obtain ⟨k, hk⟩ := started_collected hn (env 0)
  obtain ⟨hdone, -, hout, htag, hvalid⟩ :=
    hk (.restarted e) (step_restarted_start (henv 0) hena e hrest) env henv rfl
  obtain ⟨hdone', -, hout', htag', hvalid'⟩ :=
    hk (.restarted .reset) (step_restarted_start (henv 0) hena _ hreset) env henv rfl
  refine ⟨k, k, hdone, hdone', ?_, htag.trans htag'.symm, hvalid.trans hvalid'.symm⟩
  refine hout.trans (Eq.trans ?_ hout'.symm)
  rw [dataOutR_of_idle rfl (henv 0), dataOutR_of_idle rfl (henv 0)]
  rfl

/-- A start during a permutation leaves that permutation running, with an empty register. -/
theorem step_idle_engineAt (hn : 0 < n) {k : ℕ} (hk : n * (k + 1) ≤ 12) (r : XState) :
    (engineAt n k r).step n (idleIn true) = engineAt n (k + 1) (Vector.replicate 12 0) := by
  rw [step_engineAt hn hk]
  rfl

/-- The tag of the hash. -/
theorem stale_tag (hn : n ∣ 12) {env : ℕ → CoreIn} (henv : ∀ t, NoRestart (env t))
    (hop : env 0 = emptyHash) {k : ℕ} (hk : n * k < 12) {e : Xoodoo}
    (he : e.step n (idleIn true) = engineAt n k (Vector.replicate 12 0)) :
    ∃ m, FirstDone (Core.step n) env (.restarted e) Core.done m ∧
      (run (Core.step n) env (.restarted e) m).tag = squeezed (staleState n k) 4 0 := by
  obtain ⟨m, hstale⟩ := path_stale hn hk
  have hmul : n * (12 / n) = 12 := Nat.mul_div_cancel' hn
  let s : Core := { hashBase with xoodoo := engineAt n (12 / n) (staleState n k) }
  have hready : s.Ready n := ⟨rfl, engineAt_rest hmul _, rfl⟩
  obtain ⟨t, htag, hready', ht⟩ := path_hashTag hn hready (staleState n k)
  have hlast := path_squeeze hn hready' (q := .hashSqueeze2) rfl (hashState2 (staleState n k))
  have hphase : hashBase.permuting .hashSqueeze1 false (engineAt n (12 / n) (staleState n k)) =
      s.phase .hashSqueeze1 0 (staleState n k) := by
    rw [engineAt_last hmul]
    show _ = ({ hashBase with xoodoo := engineAt n (12 / n) (staleState n k) } : Core).phase _ _ _
    rw [engineAt_last hmul]
    rfl
  rw [hphase] at hstale
  have hpath := (hstale.trans htag).trans hlast
  have hfirst : Core.step n (env 0) (.restarted e) =
      hashBase.permuting .hashLoad false (engineAt n k (Vector.replicate 12 0)) := by
    rw [hop, step_restarted_hash, he]
  rw [← hfirst] at hpath
  obtain ⟨hdone, -, -, hout, -⟩ := run_path henv (by rw [hfirst]; rfl) hpath rfl
  refine ⟨_, hdone, hout.trans ?_⟩
  show t.tagR = _
  rw [ht]
  rfl

/-! ### The tags in the form to evaluate -/

def lanesAt (n k : ℕ) (s : Lanes) : Lanes :=
  ((List.range n).map fun j => xoodooRc (xoodooRcNext^[j] (xoodooRcNext^[n * k] rcInit))).foldl
    Lanes.round s

def lanesFrom (n k : ℕ) : ℕ → Lanes → Lanes
  | 0, s => s
  | j + 1, s => lanesAt n (k + j) (lanesFrom n k j s)

theorem roundsAt_eq_pack (n k : ℕ) (r : XState) : roundsAt n k r = (lanesAt n k (unpack r)).pack := by
  rw [← pack_unpack (roundsAt n k r), roundsAt, unpack_xoodooNRounds]
  rfl

theorem roundsFrom_eq_pack (n k j : ℕ) (r : XState) :
    roundsFrom n k j r = (lanesFrom n k j (unpack r)).pack := by
  induction j with
  | zero => exact (pack_unpack r).symm
  | succ j ih =>
      rw [roundsFrom, ih, roundsAt_eq_pack]
      rfl

/-- The first word of the tag of a hash of nothing. -/
theorem hash_word : (unpack (hashState 0 0)).a₀ = 0x2B2F15EA := by
  rw [hashState, xoodoo12_eq_pack]
  decide +kernel

/-- The tags of the hash that starts between one and ten cycles before the end of a permutation. -/
theorem stale_word : ∀ n < 7, ∀ k < 12, 12 % n = 0 ∧ 2 ≤ k ∧ n * k < 12 →
    (unpack (staleState n k)).a₀ ≠ 0x2B2F15EA := by
  simp only [staleState, roundsAt_eq_pack, roundsFrom_eq_pack, xoodoo12_eq_pack]
  decide +kernel

/-! ## When a restart restarts -/

/-- After a restart with the inputs `i` in state `s` and `j` idle cycles, every operation ends like
    the same operation from reset. -/
def Restarts (n : ℕ) (s : Core) (i : CoreIn) (j : ℕ) : Prop :=
  ∀ env : ℕ → CoreIn, env 0 = i → (∀ t, 0 < t → NoRestart (env t)) →
    (∀ t, 0 < t → t ≤ j → (env t).ena = false) → (env (j + 1)).ena = true →
    EndAlike n (fun t => env (j + 1 + t)) (run (Core.step n) env s (j + 1)) .reset

/-- A permutation that is not over by the next start spoils the hash of nothing. -/
theorem not_restarts (hn : n ∣ 12) {s : Core} {i : CoreIn} (hi : i.restart = true) {j k : ℕ}
    (hk : s.Underway n k) (hlt : n * (k + j + 2) < 12) : ¬Restarts n s i j := by
  intro h
  have hpos : 0 < n := Nat.pos_of_dvd_of_pos hn (by decide)
  let env : ℕ → CoreIn := fun t =>
    if t = 0 then i else if t ≤ j then { emptyHash with ena := false } else emptyHash
  have henv : ∀ t, 0 < t → NoRestart (env t) := by
    intro t ht
    show (if t = 0 then i else if t ≤ j then { emptyHash with ena := false } else emptyHash).restart = _
    rw [if_neg (by omega)]
    split <;> rfl
  have hwait : ∀ t, 0 < t → t ≤ j → (env t).ena = false := by
    intro t ht hle
    show (if t = 0 then i else if t ≤ j then { emptyHash with ena := false } else emptyHash).ena = _
    rw [if_neg (by omega), if_pos hle]
  have hop : env (j + 1) = emptyHash := by
    show (if j + 1 = 0 then i else if j + 1 ≤ j then _ else emptyHash) = _
    rw [if_neg (by omega), if_neg (by omega)]
  -- the engine when the hash starts
  obtain ⟨r, hr⟩ : ∃ r, waited n (s.xoodoo.step n (s.xoodooIn (env 0))) j = engineAt n (k + 1 + j) r := by
    rw [step_underway (succ_le_of_lt hn hk.before) hk.rc hk.busy]
    refine waited_engineAt hpos _ ?_
    have hmul : n * (k + 1 + j) ≤ n * (k + j + 2) := Nat.mul_le_mul_left n (by omega)
    omega
  have hstart : (engineAt n (k + 1 + j) r).step n (idleIn true) =
      engineAt n (k + j + 2) (Vector.replicate 12 0) := by
    rw [show k + j + 2 = k + 1 + j + 1 by omega]
    exact step_idle_engineAt hpos (by rw [show k + 1 + j + 1 = k + j + 2 by omega]; exact hlt.le) r
  have hrun : run (Core.step n) env s (j + 1) =
      .restarted (waited n (s.xoodoo.step n (s.xoodooIn (env 0))) j) := run_restart hi henv hwait
  rw [hr] at hrun
  have hlater : ∀ t, NoRestart (env (j + 1 + t)) := fun t => henv _ (by omega)
  obtain ⟨m, hdone, htag⟩ := stale_tag hn hlater hop hlt hstart
  obtain ⟨m₁, m₂, hdone₁, hdone₂, -, heq, -⟩ := h env rfl henv hwait (by rw [hop]; rfl)
  rw [hrun] at hdone₁ heq
  obtain ⟨m', hm'⟩ := started_collected hn (env (j + 1))
  have hreset : (Xoodoo.reset.step n (idleIn true)).Rest n := Xoodoo.rest_of_parked hn rfl rfl rfl
  obtain ⟨hdone', -, -, htag', -⟩ := hm' (.restarted .reset)
    (step_restarted_start (hlater 0) (by rw [hop]; rfl) _ hreset) (fun t => env (j + 1 + t)) hlater rfl
  rw [hdone₁.unique hdone, htag, hdone₂.unique hdone'] at heq
  have hword := word_of_squeezed (heq.trans (htag'.trans (by rw [hop]; rfl)))
  have hle : n < 7 := by
    have hmul : n * 2 ≤ n * (k + j + 2) := Nat.mul_le_mul_left n (by omega)
    omega
  have hkle : k + j + 2 < 12 := by
    have hmul : 1 * (k + j + 2) ≤ n * (k + j + 2) := Nat.mul_le_mul_right _ hpos
    omega
  refine stale_word n hle _ hkle ⟨Nat.mod_eq_zero_of_dvd hn, by omega, hlt⟩ ?_
  rw [hword]
  exact hash_word

/-- A restart restarts exactly when no permutation is under way, or when the `n * k` rounds it has
    behind it, those of the idle cycles and those of the cycles of the restart and of the start make
    up all twelve. -/
theorem restart_restarts_iff (hn : n ∣ 12) (s : Core)
    (hs : Reachable (Core.step n) (· = Core.reset) (fun _ => True) s) (i : CoreIn)
    (hi : i.restart = true) (j : ℕ) :
    Restarts n s i j ↔ ∀ k, s.Underway n k → 12 ≤ n * (k + j + 2) := by
  constructor
  · intro h k hk
    by_contra hlt
    exact not_restarts hn hi hk (Nat.lt_of_not_le hlt) h
  · rintro hover env rfl henv hwait hena
    rw [run_restart hi henv hwait]
    have hlater : ∀ t, NoRestart (env (j + 1 + t)) := fun t => henv _ (by omega)
    refine endAlike_of_rest hn hlater hena ?_
    obtain ⟨k, hpast, hend⟩ := past_of_underway hn hs hover (env 0)
    rcases hend with hrest | hend
    · have hzero : (s.xoodoo.step n (s.xoodooIn (env 0))).Past n 12 := .inl hrest
      refine ((waited_past hn hzero j).step hn rfl).rest ?_
      have hpos : 0 < n := Nat.pos_of_dvd_of_pos hn (by decide)
      calc 12 ≤ 12 + j + 1 := by omega
        _ = 1 * (12 + j + 1) := (Nat.one_mul _).symm
        _ ≤ n * (12 + j + 1) := Nat.mul_le_mul_right _ hpos
    · exact ((waited_past hn hpast j).step hn rfl).rest hend

/-- A hash and a restart one cycle after its first start pulse. -/
def restartedHash (t : ℕ) : CoreIn := if t = 4 then { emptyHash with restart := true } else emptyHash

theorem underway_restartedHash : (run (Core.step 1) restartedHash .reset 4).Underway 1 1 where
  busy := by decide +kernel
  before := by decide
  rc := by decide +kernel

theorem reachable_restartedHash :
    Reachable (Core.step 1) (· = Core.reset) (fun _ => True)
      (run (Core.step 1) restartedHash .reset 4) := by
  have hreset : Reachable (Core.step 1) (· = Core.reset) (fun _ => True) Core.reset := .init rfl
  exact hreset.run (fun _ => trivial) 4

/-- Nine idle cycles are enough for the other eleven rounds. -/
theorem restart_restarts_iff_nine :
    Restarts 1 (run (Core.step 1) restartedHash .reset 4) (restartedHash 4) 9 := by
  refine (restart_restarts_iff (by decide) _ reachable_restartedHash _ rfl 9).2 fun k hk => ?_
  have hne : k ≠ 0 := by
    rintro rfl
    have hrc : xoodooRcNext^[1 * 1] rcInit = xoodooRcNext^[1 * 0] rcInit :=
      underway_restartedHash.rc.symm.trans hk.rc
    exact absurd hrc (by decide)
  omega

theorem not_restarts_restartedHash :
    ¬Restarts 1 (run (Core.step 1) restartedHash .reset 4) (restartedHash 4) 0 :=
  not_restarts (by decide) rfl underway_restartedHash (by decide)

end PicoSoc.Xoodyak
