import PicoSoc.Library.Clocked
import PicoSoc.TinyJambu.Permutation

set_option autoImplicit false

/-! # The phases of an operation

After the three latch cycles no input matters any more. Every XOR state ends in a frame state or
in the last permutations, and the frame bits that the source merges into the XOR states are those
of the phase that follows: `AtAd`, `AtMsg` and `AtFin` are the three places a phase can end at. -/

namespace PicoSoc.TinyJambu

open Clocked

/-! ## The machine as a whole -/

/-- A permutation never returns to the idle state. -/
def Fsm.Returns (f : Fsm) : Prop := f.fsm = .perm → f.permRet ≠ .idle

def Core.Returns (s : Core) : Prop := s.fsm.Returns

/-- What a step does to state and `done`. -/
theorem Fsm.Returns.step {f : Fsm} (hret : f.Returns) (ena : Bool) (d : Datapath)
    (w2 : BitVec 32) : (f.step ena d w2).Returns
      ∧ ((f.step ena d w2).fsm = .idle ↔ (f.fsm = .idle ∧ ena = false) ∨ f.fsm = .done)
      ∧ ((f.step ena d w2).done = true ↔ f.fsm = .done) := by
  unfold Fsm.Returns Fsm.step
  cases h : f.fsm
  case perm =>
    have hret := hret h
    dsimp only
    split
    · exact ⟨fun hp => by rw [hp]; decide, by simp [hret], by simp⟩
    · exact ⟨fun _ => hret, by simp, by simp⟩
  case idle =>
    dsimp only
    cases ena <;> simp
  all_goals
    dsimp only [Fsm.permute]
    try repeat' split
    all_goals simp

/-- Outside of a permutation there is nothing to return from. -/
theorem Fsm.returns_of_ne {f : Fsm} (h : f.fsm ≠ .perm) : f.Returns := fun hp => absurd hp h

/-! ## The operations on the state -/

/-- `w1 <= w1 ^ x`. -/
def Nlfsr.frame (x : BitVec 32) (w : Nlfsr) : Nlfsr := { w with w1 := w.w1 ^^^ x }

/-- `w3 <= w3 ^ x`. -/
def Nlfsr.inject (x : BitVec 32) (w : Nlfsr) : Nlfsr := { w with w3 := w.w3 ^^^ x }

@[simp] theorem frame_zero (w : Nlfsr) : w.frame 0#32 = w := by
  simp [Nlfsr.frame]

theorem frame_frame (x y : BitVec 32) (w : Nlfsr) :
    (w.frame x).frame y = w.frame (x ^^^ y) := by
  simp [Nlfsr.frame, BitVec.xor_assoc]

/-! ## Paths of the core -/

/-- A stretch of `k` cycles with `done` low, whatever the inputs are. -/
abbrev CorePath (k : ℕ) (s t : Core) : Prop :=
  Path Core.step (fun _ => True) (fun s => s.done = false) k s t

/-- The machine in state `q` with its counters; `done` is low. -/
structure Fsm.At (f : Fsm) (q : FsmState) (ncnt : BitVec 2) (wcnt : BitVec 3) (tlo : BitVec 32) :
    Prop where
  state : f.fsm = q
  ncnt : f.ncnt = ncnt
  wcnt : f.wcnt = wcnt
  tlo : f.tlo = tlo
  done : f.done = false

theorem dp_step_none (i : CoreIn) (d : Datapath) : d.step i {} = d := by
  simp [Datapath.step]

theorem step_perm {f : Fsm} (hf : f.fsm = .perm) (w : Nlfsr) (d : Datapath) (i : CoreIn) :
    Core.step i ⟨f, w, d⟩ =
      ⟨{ f with
          done := false
          kidx := f.kidx + 1
          steps := f.steps - 1
          fsm := if f.steps = 1 then f.permRet else .perm },
        w.step { keyWord := getWord d.keyR (f.kidx.extractLsb' 0 2), run := true }, d⟩ := by
  simp only [Core.step, Fsm.step, Core.nlfsrIn, Core.datapathCtl, hf, dp_step_none, Core.keyWord]

/-- The machine after `j` of the `m` cycles of a permutation that returns to `q`. -/
def Fsm.permuting (f : Fsm) (q : FsmState) (m j : ℕ) : Fsm :=
  { f with
    fsm := if j = m then q else .perm
    permRet := q
    steps := BitVec.ofNat 6 (m - j)
    kidx := BitVec.ofNat 6 j }

theorem step_permuting {f : Fsm} (hdone : f.done = false) (q : FsmState) {m j : ℕ} (hm : m < 64)
    (hj : j < m) (w : Nlfsr) (d : Datapath) (i : CoreIn) :
    Core.step i ⟨f.permuting q m j, w, d⟩ =
      ⟨f.permuting q m (j + 1),
        w.step { keyWord := getWord d.keyR (BitVec.ofNat 2 j), run := true }, d⟩ := by
  have hkidx : (BitVec.ofNat 6 j).extractLsb' 0 2 = BitVec.ofNat 2 j := by
    apply BitVec.eq_of_toNat_eq
    simp
  have hnext : BitVec.ofNat 6 j + 1#6 = BitVec.ofNat 6 (j + 1) := by
    rw [BitVec.ofNat_add]
  have hsteps : BitVec.ofNat 6 (m - j) - 1#6 = BitVec.ofNat 6 (m - (j + 1)) := by
    apply BitVec.eq_of_toNat_eq
    simp
    omega
  have hlast : BitVec.ofNat 6 (m - j) = 1#6 ↔ j + 1 = m := by
    rw [← BitVec.toNat_inj]
    simp
    omega
  rw [step_perm (by simp [Fsm.permuting, hj.ne])]
  simp [Fsm.permuting, hdone, hkidx, hnext, hsteps, hlast]

/-- A permutation of `m` cycles. -/
theorem path_perm {f : Fsm} {q : FsmState} {m : ℕ} (hm : 0 < m) (hm64 : m < 64)
    (hdone : f.done = false) (w : Nlfsr) (d : Datapath) :
    ∃ f' : Fsm, CorePath m ⟨f.permute (BitVec.ofNat 6 m) q, w, d⟩ ⟨f', permSteps d.keyR m w, d⟩ ∧
      f'.At q f.ncnt f.wcnt f.tlo := by
  have hloop := @Path.loop _ _ Core.step (fun _ => True) (fun s => s.done = false)
    (fun j => ⟨f.permuting q m j, permSteps d.keyR j w, d⟩) m
    (fun j hj i _ => step_permuting hdone q hm64 hj _ d i) (fun _ _ => hdone)
  have hstart : f.permuting q m 0 = f.permute (BitVec.ofNat 6 m) q := by
    simp [Fsm.permuting, Fsm.permute, hm.ne]
  rw [hstart] at hloop
  exact ⟨f.permuting q m m, hloop, ⟨if_pos rfl, rfl, rfl, rfl, hdone⟩⟩

/-- One edge that starts a permutation, and the permutation. -/
theorem path_permute {s : Core} {f : Fsm} {q : FsmState} {m : ℕ} {w : Nlfsr} {d : Datapath}
    (hm : 0 < m) (hm64 : m < 64) (hdone : f.done = false)
    (hstep : ∀ i, Core.step i s = ⟨f.permute (BitVec.ofNat 6 m) q, w, d⟩) :
    ∃ f' : Fsm, CorePath (m + 1) s ⟨f', permSteps d.keyR m w, d⟩ ∧
      f'.At q f.ncnt f.wcnt f.tlo := by
  obtain ⟨f', hpath, hf'⟩ := path_perm hm hm64 hdone w d
  have hfirst : CorePath 1 s ⟨f.permute (BitVec.ofNat 6 m) q, w, d⟩ :=
    .single (fun i _ => hstep i) hdone
  exact ⟨f', (hfirst.trans hpath).cast (Nat.add_comm 1 m), hf'⟩

/-! ## The places a phase ends at -/

/-- The last two permutations are about to start. -/
def AtFin (w₀ : Nlfsr) (f : Fsm) (w : Nlfsr) : Prop :=
  w = w₀.frame frF ∧ f.done = false ∧ ∃ g : Fsm, g.done = false ∧ f = g.permute stpP1024 .fin1

/-- The data comes next, or the end when there is none. -/
def AtMsg (d : Datapath) (w₀ : Nlfsr) (f : Fsm) (w : Nlfsr) : Prop :=
  if 0 < d.dataWordsR then w = w₀ ∧ ∃ n tlo, f.At .msgFrame n 0 tlo else AtFin w₀ f w

/-- The associated data comes next, or what follows it when there is none. -/
def AtAd (d : Datapath) (w₀ : Nlfsr) (f : Fsm) (w : Nlfsr) : Prop :=
  if 0 < d.adWordsR then w = w₀ ∧ ∃ n tlo, f.At .adFrame n 0 tlo else AtMsg d w₀ f w

/-! ## Nonce -/

/-- An edge of the engine that neither clears nor runs it. -/
theorem nlfsr_step_xor {i : NlfsrIn} (hinit : i.init = false) (hrun : i.run = false) (w : Nlfsr) :
    w.step i = (w.inject (if i.wrW3 then i.w3Xor else 0)).frame (if i.wrW1 then i.w1Xor else 0) := by
  unfold Nlfsr.step Nlfsr.inject Nlfsr.frame
  cases i.wrW1 <;> cases i.wrW3 <;> simp [hinit, hrun]

@[simp] theorem inject_zero (w : Nlfsr) : w.inject 0#32 = w := by
  simp [Nlfsr.inject]

/-- The nonce words go in one after the other. -/
def nonceSteps (d : Datapath) : ℕ → Nlfsr → Nlfsr
  | 0, w => w
  | k + 1, w =>
      (permSteps d.keyR 20 ((nonceSteps d k w).frame frN)).inject
        (getNonceWord d.nonceR (BitVec.ofNat 2 k))

theorem step_nFrame {f : Fsm} {n : BitVec 2} {c : BitVec 3} {tlo : BitVec 32}
    (hf : f.At .nFrame n c tlo) (w : Nlfsr) (d : Datapath) (i : CoreIn) :
    Core.step i ⟨f, w, d⟩ = ⟨f.permute (BitVec.ofNat 6 20) .nXor, w.frame frN, d⟩ := by
  have hdone := hf.done
  simp only [Core.step, Fsm.step, Core.nlfsrIn, Core.datapathCtl, hf.state, dp_step_none,
    Fsm.permute, stpP640]
  rw [nlfsr_step_xor rfl rfl]
  simp [hdone]

theorem step_nXor {f : Fsm} {k : ℕ} {tlo : BitVec 32} (hk : k < 2)
    (hf : f.At .nXor (BitVec.ofNat 2 k) 0 tlo) (w : Nlfsr) (d : Datapath) (i : CoreIn) :
    Core.step i ⟨f, w, d⟩ =
      ⟨{ f with ncnt := BitVec.ofNat 2 (k + 1), fsm := .nFrame },
        w.inject (getNonceWord d.nonceR (BitVec.ofNat 2 k)), d⟩ := by
  have hdone := hf.done
  have hlt : BitVec.ofNat 2 k < 2 := by interval_cases k <;> decide
  have hge : ¬ 2 ≤ BitVec.ofNat 2 k := by interval_cases k <;> decide
  have hnext : BitVec.ofNat 2 k + 1 = BitVec.ofNat 2 (k + 1) := by interval_cases k <;> rfl
  simp only [Core.step, Fsm.step, Core.nlfsrIn, Core.datapathCtl, hf.state, hf.ncnt, dp_step_none,
    hlt, if_true, hnext, hge, decide_false, Bool.false_and]
  rw [nlfsr_step_xor rfl rfl]
  simp [hdone, Core.nonceWord, hf.ncnt]

/-- After the last nonce word. -/
theorem step_nXor_last {f : Fsm} {c : BitVec 3} {tlo : BitVec 32} (hf : f.At .nXor 2 c tlo)
    (w : Nlfsr) (d : Datapath) :
    ∃ f' w', (∀ i, Core.step i ⟨f, w, d⟩ = ⟨f', w', d⟩) ∧ f'.done = false ∧
      AtAd d (w.inject (getNonceWord d.nonceR 2)) f' w' := by
  have hdone := hf.done
  have hlt : ¬ (2 : BitVec 2) < 2 := by decide
  have hge : (2 : BitVec 2) ≤ 2 := by decide
  -- on to the associated data, the message or, without both, the tag
  by_cases had : 0 < d.adWordsR
  · have hne : (d.adWordsR == 0) = false := by
      rw [beq_eq_false_iff_ne]
      rintro h
      rw [h] at had
      exact absurd had (by decide)
    refine ⟨{ f with ncnt := 3, wcnt := 0, fsm := .adFrame },
      w.inject (getNonceWord d.nonceR 2), fun i => ?_, hdone, ?_⟩
    · simp only [Core.step, Fsm.step, Core.nlfsrIn, Core.datapathCtl, hf.state, hf.ncnt,
        dp_step_none, hlt, had, hge, hne]
      rw [nlfsr_step_xor rfl rfl]
      simp [hdone, Core.nonceWord, hf.ncnt]
    · rw [AtAd, if_pos had]
      exact ⟨rfl, 3, tlo, ⟨rfl, rfl, rfl, hf.tlo, hdone⟩⟩
  · have hzero : d.adWordsR = 0 := by simpa using had
    by_cases hmsg : 0 < d.dataWordsR
    · have hne : (d.dataWordsR == 0) = false := by
        rw [beq_eq_false_iff_ne]
        rintro h
        rw [h] at hmsg
        exact absurd hmsg (by decide)
      refine ⟨{ f with ncnt := 3, wcnt := 0, fsm := .msgFrame },
        w.inject (getNonceWord d.nonceR 2), fun i => ?_, hdone, ?_⟩
      · simp only [Core.step, Fsm.step, Core.nlfsrIn, Core.datapathCtl, hf.state, hf.ncnt,
          dp_step_none, hlt, had, hmsg, hge, hne]
        rw [nlfsr_step_xor rfl rfl]
        simp [hdone, Core.nonceWord, hf.ncnt]
      · rw [AtAd, if_neg had, AtMsg, if_pos hmsg]
        exact ⟨rfl, 3, tlo, ⟨rfl, rfl, rfl, hf.tlo, hdone⟩⟩
    · have hzero' : d.dataWordsR = 0 := by simpa using hmsg
      refine ⟨{ f with ncnt := 3, wcnt := 0 }.permute stpP1024 .fin1,
        (w.inject (getNonceWord d.nonceR 2)).frame frF, fun i => ?_, hdone, ?_⟩
      · simp only [Core.step, Fsm.step, Core.nlfsrIn, Core.datapathCtl, hf.state, hf.ncnt,
          dp_step_none, hlt, hge, hzero, hzero']
        rw [nlfsr_step_xor rfl rfl]
        simp [hdone, Core.nonceWord, hf.ncnt, Fsm.permute]
      · rw [AtAd, if_neg had, AtMsg, if_neg hmsg]
        exact ⟨rfl, hdone, { f with ncnt := 3, wcnt := 0 }, hdone, rfl⟩

/-- The three nonce words. -/
theorem path_nonce {f : Fsm} (hf : f.At .nFrame 0 0 0) (w : Nlfsr) (d : Datapath) :
    ∃ f' w', CorePath 66 ⟨f, w, d⟩ ⟨f', w', d⟩ ∧ f'.done = false ∧
      AtAd d (nonceSteps d 3 w) f' w' := by
  -- the first `k` words, up to the frame of the next one
  have hwords : ∀ k ≤ 2, ∃ f' : Fsm, CorePath (22 * k) ⟨f, w, d⟩ ⟨f', nonceSteps d k w, d⟩ ∧
      f'.At .nFrame (BitVec.ofNat 2 k) 0 0 := by
    intro k hk
    induction k with
    | zero => exact ⟨f, .refl _, hf⟩
    | succ k ih =>
        obtain ⟨f₁, hpath, hf₁⟩ := ih (by omega)
        obtain ⟨f₂, hperm, hf₂⟩ := path_permute (by decide) (by decide) hf₁.done
          (step_nFrame hf₁ (nonceSteps d k w) d)
        rw [hf₁.ncnt, hf₁.wcnt, hf₁.tlo] at hf₂
        have hxor : CorePath 1 _ _ :=
          .single (fun i _ => step_nXor (by omega) hf₂
            (permSteps d.keyR 20 ((nonceSteps d k w).frame frN)) d i) hf₂.done
        exact ⟨_, (hpath.trans hperm).trans hxor, ⟨rfl, rfl, hf₂.wcnt, hf₂.tlo, hf₂.done⟩⟩
  obtain ⟨f₁, hpath, hf₁⟩ := hwords 2 (by decide)
  obtain ⟨f₂, hperm, hf₂⟩ := path_permute (by decide) (by decide) hf₁.done
    (step_nFrame hf₁ (nonceSteps d 2 w) d)
  rw [hf₁.ncnt] at hf₂
  obtain ⟨f₃, w₃, hstep, hdone, hat⟩ := step_nXor_last hf₂
    (permSteps d.keyR 20 ((nonceSteps d 2 w).frame frN)) d
  exact ⟨f₃, w₃, (hpath.trans hperm).trans (.single (fun i _ => hstep i) hdone), hdone, hat⟩

/-! ## Associated data -/

theorem isLast_ofNat {words : BitVec 3} {j : ℕ} (hj : j < words.toNat) :
    isLast (BitVec.ofNat 3 j) words = decide (j + 1 = words.toNat) := by
  have htable : ∀ words : BitVec 3, ∀ j < 8, j < words.toNat →
      isLast (BitVec.ofNat 3 j) words = decide (j + 1 = words.toNat) := by decide
  exact htable words j (by omega) hj

/-- `len[1:0]`. -/
def partialBytes (len : BitVec 5) : BitVec 2 := len.extractLsb' 0 2

/-- A word of an input as it is XORed in: masked when it is the last one and not full. -/
def maskedWord (len : BitVec 5) (last : Bool) (word : BitVec 32) : BitVec 32 :=
  if last = true ∧ partialBytes len ≠ 0 then word &&& byteMask (partialBytes len) else word

/-- What the last word of an input adds to `w1`. -/
def partialFrame (len : BitVec 5) (last : Bool) : BitVec 32 :=
  if last = true ∧ partialBytes len ≠ 0 then (partialBytes len).setWidth 32 else 0

/-- One word of associated data. -/
def adStep (d : Datapath) (j : ℕ) (w : Nlfsr) : Nlfsr :=
  let last := decide (j + 1 = d.adWordsR.toNat)
  ((permSteps d.keyR 20 (w.frame frA)).inject
    (maskedWord d.adLenR last (getWord d.adR (BitVec.ofNat 2 j)))).frame
    (partialFrame d.adLenR last)

def adSteps (d : Datapath) : ℕ → Nlfsr → Nlfsr
  | 0, w => w
  | j + 1, w => adStep d j (adSteps d j w)

theorem step_adFrame {f : Fsm} {n : BitVec 2} {c : BitVec 3} {tlo : BitVec 32}
    (hf : f.At .adFrame n c tlo) (w : Nlfsr) (d : Datapath) (i : CoreIn) :
    Core.step i ⟨f, w, d⟩ = ⟨f.permute (BitVec.ofNat 6 20) .adXor, w.frame frA, d⟩ := by
  have hdone := hf.done
  simp only [Core.step, Fsm.step, Core.nlfsrIn, Core.datapathCtl, hf.state, dp_step_none,
    Fsm.permute, stpP640]
  rw [nlfsr_step_xor rfl rfl]
  simp [hdone]

theorem wordSel_ofNat (j : ℕ) : (BitVec.ofNat 3 j).extractLsb' 0 2 = BitVec.ofNat 2 j := by
  apply BitVec.eq_of_toNat_eq
  simp

theorem not_pos_iff {x : BitVec 3} : ¬ 0 < x ↔ x = 0 := by
  revert x
  decide

/-- The engine in `S_AD_XOR`: the word, its length, and the frame bits of the end when no data
    follows. -/
theorem nlfsr_adXor {f : Fsm} {n : BitVec 2} {j : ℕ} {tlo : BitVec 32} {d : Datapath}
    (hj : j < d.adWordsR.toNat) (hf : f.At .adXor n (BitVec.ofNat 3 j) tlo) (w : Nlfsr)
    (i : CoreIn) :
    w.step (Core.nlfsrIn i ⟨f, w, d⟩) =
      ((w.inject (maskedWord d.adLenR (decide (j + 1 = d.adWordsR.toNat))
          (getWord d.adR (BitVec.ofNat 2 j)))).frame
        (partialFrame d.adLenR (decide (j + 1 = d.adWordsR.toNat)))).frame
        (if j + 1 = d.adWordsR.toNat ∧ ¬ 0 < d.dataWordsR then frF else 0) := by
  have hp : d.adLenR.extractLsb' 0 2 = partialBytes d.adLenR := rfl
  simp only [Core.nlfsrIn, hf.state, hf.wcnt, isLast_ofNat hj, Core.adWord, Core.adPartial,
    wordSel_ofNat, hp]
  rw [nlfsr_step_xor rfl rfl, frame_frame]
  by_cases hlast : j + 1 = d.adWordsR.toNat
  · by_cases hmsg : 0#3 < d.dataWordsR
    · have hne : ¬ d.dataWordsR = 0#3 := fun h => not_pos_iff.2 h hmsg
      by_cases hpart : partialBytes d.adLenR = 0#2
      · simp [hlast, hmsg, hne, hpart, maskedWord, partialFrame]
      · simp [hlast, hmsg, hne, hpart, maskedWord, partialFrame]
    · have hzero : d.dataWordsR = 0#3 := not_pos_iff.1 hmsg
      by_cases hpart : partialBytes d.adLenR = 0#2
      · simp [hlast, hzero, hpart, maskedWord, partialFrame]
      · simp [hlast, hzero, hpart, maskedWord, partialFrame]
  · simp [hlast, maskedWord, partialFrame]

/-- The machine in `S_AD_XOR`. -/
theorem fsm_adXor {f : Fsm} {n : BitVec 2} {j : ℕ} {tlo : BitVec 32} {d : Datapath}
    (hj : j < d.adWordsR.toNat) (hf : f.At .adXor n (BitVec.ofNat 3 j) tlo) (ena : Bool)
    (w2 : BitVec 32) :
    f.step ena d w2 =
      if j + 1 = d.adWordsR.toNat then
        if 0 < d.dataWordsR then { f with wcnt := 0, fsm := .msgFrame }
        else { f with wcnt := 0 }.permute stpP1024 .fin1
      else { f with wcnt := BitVec.ofNat 3 (j + 1), fsm := .adFrame } := by
  have hdone := hf.done
  have hnext : BitVec.ofNat 3 j + 1#3 = BitVec.ofNat 3 (j + 1) := by
    rw [BitVec.ofNat_add]
  simp only [Fsm.step, hf.state, hf.wcnt, isLast_ofNat hj, decide_eq_true_eq]
  simp [Fsm.permute, hdone, hnext]

/-- A word of associated data, from its frame to the next one or to the end of the phase. -/
theorem path_adWord {f : Fsm} {n : BitVec 2} {j : ℕ} {tlo : BitVec 32} {d : Datapath}
    (hj : j < d.adWordsR.toNat) (hf : f.At .adFrame n (BitVec.ofNat 3 j) tlo) (w : Nlfsr) :
    ∃ f' w', CorePath 22 ⟨f, w, d⟩ ⟨f', w', d⟩ ∧ f'.done = false ∧
      if j + 1 = d.adWordsR.toNat then AtMsg d (adStep d j w) f' w'
      else w' = adStep d j w ∧ f'.At .adFrame n (BitVec.ofNat 3 (j + 1)) tlo := by
  obtain ⟨f₁, hperm, hf₁⟩ := path_permute (by decide) (by decide) hf.done (step_adFrame hf w d)
  rw [hf.ncnt, hf.wcnt, hf.tlo] at hf₁
  have hdone := hf₁.done
  have hstep : ∀ i, Core.step i ⟨f₁, permSteps d.keyR 20 (w.frame frA), d⟩ =
      ⟨if j + 1 = d.adWordsR.toNat then
          if 0 < d.dataWordsR then { f₁ with wcnt := 0, fsm := .msgFrame }
          else { f₁ with wcnt := 0 }.permute stpP1024 .fin1
        else { f₁ with wcnt := BitVec.ofNat 3 (j + 1), fsm := .adFrame },
        (adStep d j w).frame (if j + 1 = d.adWordsR.toNat ∧ ¬ 0 < d.dataWordsR then frF else 0),
        d⟩ := by
    intro i
    have hctl : Core.datapathCtl i ⟨f₁, permSteps d.keyR 20 (w.frame frA), d⟩ = {} := by
      simp only [Core.datapathCtl, hf₁.state]
    rw [Core.step, fsm_adXor hj hf₁, nlfsr_adXor hj hf₁, hctl, dp_step_none]
    rfl
  by_cases hlast : j + 1 = d.adWordsR.toNat
  · simp only [hlast, true_and] at hstep ⊢
    by_cases hmsg : 0 < d.dataWordsR
    · simp only [hmsg, if_true, not_true_eq_false, if_false] at hstep
      refine ⟨_, _, hperm.trans (.single (fun i _ => hstep i) hdone), hdone, ?_⟩
      rw [AtMsg, if_pos hmsg]
      exact ⟨frame_zero _, n, tlo, ⟨rfl, hf₁.ncnt, rfl, hf₁.tlo, hdone⟩⟩
    · simp only [hmsg, if_false, not_false_eq_true, if_true] at hstep
      refine ⟨_, _, hperm.trans (.single (fun i _ => hstep i) hdone), hdone, ?_⟩
      rw [AtMsg, if_neg hmsg]
      exact ⟨rfl, hdone, { f₁ with wcnt := 0 }, hdone, rfl⟩
  · simp only [hlast, false_and, if_false] at hstep ⊢
    exact ⟨_, _, hperm.trans (.single (fun i _ => hstep i) hdone), hdone, frame_zero _,
      ⟨rfl, hf₁.ncnt, rfl, hf₁.tlo, hdone⟩⟩

/-- All words of associated data. -/
theorem path_ad {d : Datapath} {w₀ : Nlfsr} {f : Fsm} {w : Nlfsr} (h : AtAd d w₀ f w)
    (hdone : f.done = false) :
    ∃ f' w', CorePath (22 * d.adWordsR.toNat) ⟨f, w, d⟩ ⟨f', w', d⟩ ∧ f'.done = false ∧
      AtMsg d (adSteps d d.adWordsR.toNat w₀) f' w' := by
  by_cases had : 0 < d.adWordsR
  · rw [AtAd, if_pos had] at h
    obtain ⟨rfl, n, tlo, hf⟩ := h
    -- the first `j` words, up to the frame of the next one
    have hwords : ∀ j, j < d.adWordsR.toNat → ∃ f' : Fsm,
        CorePath (22 * j) ⟨f, w, d⟩ ⟨f', adSteps d j w, d⟩ ∧
          f'.At .adFrame n (BitVec.ofNat 3 j) tlo := by
      intro j hj
      induction j with
      | zero => exact ⟨f, .refl _, hf⟩
      | succ j ih =>
          obtain ⟨f₁, hpath, hf₁⟩ := ih (by omega)
          have hj' : j < d.adWordsR.toNat := by omega
          obtain ⟨f₂, w₂, hword, -, hnext⟩ := path_adWord hj' hf₁ (adSteps d j w)
          rw [if_neg (by omega)] at hnext
          obtain ⟨rfl, hf₂⟩ := hnext
          exact ⟨f₂, hpath.trans hword, hf₂⟩
    have hpos : 0 < d.adWordsR.toNat := had
    obtain ⟨j, hj⟩ : ∃ j, d.adWordsR.toNat = j + 1 := ⟨d.adWordsR.toNat - 1, by omega⟩
    have hj' : j < d.adWordsR.toNat := by omega
    obtain ⟨f₁, hpath, hf₁⟩ := hwords j hj'
    obtain ⟨f₂, w₂, hword, hdone₂, hnext⟩ := path_adWord hj' hf₁ (adSteps d j w)
    rw [if_pos hj.symm] at hnext
    rw [hj]
    exact ⟨f₂, w₂, hpath.trans hword, hdone₂, hnext⟩
  · rw [AtAd, if_neg had] at h
    have hzero : d.adWordsR.toNat = 0 := by rw [not_pos_iff.1 had]; rfl
    rw [hzero]
    exact ⟨f, w, .refl _, hdone, h⟩

/-! ## Data -/

/-- The state a data word meets. -/
def msgIn (d : Datapath) (w : Nlfsr) : Nlfsr := permSteps d.keyR 32 (w.frame frM)

/-- The data word plus the keystream. -/
def streamWord (d : Datapath) (j : ℕ) (w : Nlfsr) : BitVec 32 :=
  (msgIn d w).w2 ^^^ getWord d.dataR (BitVec.ofNat 2 j)

/-- One word of data: the plaintext word goes into the state. -/
def msgStep (d : Datapath) (j : ℕ) (w : Nlfsr) : Nlfsr :=
  let last := decide (j + 1 = d.dataWordsR.toNat)
  ((msgIn d w).inject (maskedWord d.dataLenR last
    (if d.modeR = modeEnc then getWord d.dataR (BitVec.ofNat 2 j) else streamWord d j w))).frame
    (partialFrame d.dataLenR last)

def msgSteps (d : Datapath) : ℕ → Nlfsr → Nlfsr
  | 0, w => w
  | j + 1, w => msgStep d j (msgSteps d j w)

/-- The data path with another output word collected. -/
def Datapath.withOut (d : Datapath) (out : BitVec 128) : Datapath := { d with dataOut := out }

/-- `o_data_out` after `j` words. -/
def outSteps (d : Datapath) (w : Nlfsr) : ℕ → BitVec 128
  | 0 => d.dataOut
  | j + 1 =>
      setWord (outSteps d w j) (BitVec.ofNat 2 j)
        (maskedWord d.dataLenR (decide (j + 1 = d.dataWordsR.toNat))
          (streamWord d j (msgSteps d j w)))

theorem step_msgFrame {f : Fsm} {n : BitVec 2} {c : BitVec 3} {tlo : BitVec 32}
    (hf : f.At .msgFrame n c tlo) (w : Nlfsr) (d : Datapath) (i : CoreIn) :
    Core.step i ⟨f, w, d⟩ = ⟨f.permute (BitVec.ofNat 6 32) .msgXor, w.frame frM, d⟩ := by
  have hdone := hf.done
  simp only [Core.step, Fsm.step, Core.nlfsrIn, Core.datapathCtl, hf.state, dp_step_none,
    Fsm.permute, stpP1024]
  rw [nlfsr_step_xor rfl rfl]
  simp [hdone]

/-- The engine in `S_MSG_XOR`. -/
theorem nlfsr_msgXor {f : Fsm} {n : BitVec 2} {j : ℕ} {tlo : BitVec 32} {d : Datapath}
    (hj : j < d.dataWordsR.toNat) (hf : f.At .msgXor n (BitVec.ofNat 3 j) tlo) (w : Nlfsr)
    (i : CoreIn) :
    w.step (Core.nlfsrIn i ⟨f, w, d⟩) =
      ((w.inject (maskedWord d.dataLenR (decide (j + 1 = d.dataWordsR.toNat))
          (if d.modeR = modeEnc then getWord d.dataR (BitVec.ofNat 2 j)
            else w.w2 ^^^ getWord d.dataR (BitVec.ofNat 2 j)))).frame
        (partialFrame d.dataLenR (decide (j + 1 = d.dataWordsR.toNat)))).frame
        (if j + 1 = d.dataWordsR.toNat then frF else 0) := by
  have hp : d.dataLenR.extractLsb' 0 2 = partialBytes d.dataLenR := rfl
  simp only [Core.nlfsrIn, hf.state, hf.wcnt, isLast_ofNat hj, Core.dataWord, Core.dataPartial,
    wordSel_ofNat, hp]
  rw [nlfsr_step_xor rfl rfl, frame_frame]
  by_cases hlast : j + 1 = d.dataWordsR.toNat
  · by_cases hpart : partialBytes d.dataLenR = 0#2
    · simp [hlast, hpart, maskedWord, partialFrame]
    · by_cases hmode : d.modeR = modeEnc
      · simp [hlast, hpart, hmode, maskedWord, partialFrame]
      · simp [hlast, hpart, hmode, maskedWord, partialFrame]
  · simp [hlast, maskedWord, partialFrame]

/-- The machine in `S_MSG_XOR`. -/
theorem fsm_msgXor {f : Fsm} {n : BitVec 2} {j : ℕ} {tlo : BitVec 32} {d : Datapath}
    (hj : j < d.dataWordsR.toNat) (hf : f.At .msgXor n (BitVec.ofNat 3 j) tlo) (ena : Bool)
    (w2 : BitVec 32) :
    f.step ena d w2 =
      if j + 1 = d.dataWordsR.toNat then
        { f with wcnt := BitVec.ofNat 3 (j + 1) }.permute stpP1024 .fin1
      else { f with wcnt := BitVec.ofNat 3 (j + 1), fsm := .msgFrame } := by
  have hdone := hf.done
  have hnext : BitVec.ofNat 3 j + 1#3 = BitVec.ofNat 3 (j + 1) := by
    rw [BitVec.ofNat_add]
  simp only [Fsm.step, hf.state, hf.wcnt, isLast_ofNat hj, decide_eq_true_eq]
  simp [Fsm.permute, hdone, hnext]

/-- The data path in `S_MSG_XOR`. -/
theorem dp_msgXor {f : Fsm} {n : BitVec 2} {j : ℕ} {tlo : BitVec 32} {d : Datapath}
    (hj : j < d.dataWordsR.toNat) (hf : f.At .msgXor n (BitVec.ofNat 3 j) tlo) (w : Nlfsr)
    (i : CoreIn) :
    d.step i (Core.datapathCtl i ⟨f, w, d⟩) =
      d.withOut (setWord d.dataOut (BitVec.ofNat 2 j)
        (maskedWord d.dataLenR (decide (j + 1 = d.dataWordsR.toNat))
          (w.w2 ^^^ getWord d.dataR (BitVec.ofNat 2 j)))) := by
  have hp : d.dataLenR.extractLsb' 0 2 = partialBytes d.dataLenR := rfl
  simp only [Core.datapathCtl, hf.state, hf.wcnt, isLast_ofNat hj, Core.dataWord, Core.dataPartial,
    wordSel_ofNat, hp]
  simp [Datapath.step, Datapath.withOut, maskedWord]

/-- A word of data, from its frame to the next one or to the end of the phase. -/
theorem path_msgWord {f : Fsm} {n : BitVec 2} {j : ℕ} {tlo : BitVec 32} {d : Datapath}
    (hj : j < d.dataWordsR.toNat) (w₀ : Nlfsr)
    (hf : f.At .msgFrame n (BitVec.ofNat 3 j) tlo) :
    ∃ f' w', CorePath 34 ⟨f, msgSteps d j w₀, d.withOut (outSteps d w₀ j)⟩
        ⟨f', w', d.withOut (outSteps d w₀ (j + 1))⟩ ∧ f'.done = false ∧
      if j + 1 = d.dataWordsR.toNat then AtFin (msgSteps d (j + 1) w₀) f' w'
      else w' = msgSteps d (j + 1) w₀ ∧ f'.At .msgFrame n (BitVec.ofNat 3 (j + 1)) tlo := by
  obtain ⟨f₁, hperm, hf₁⟩ := path_permute (by decide) (by decide) hf.done
    (step_msgFrame hf (msgSteps d j w₀) (d.withOut (outSteps d w₀ j)))
  rw [hf.ncnt, hf.wcnt, hf.tlo] at hf₁
  have hdone := hf₁.done
  have hstep : ∀ i, Core.step i ⟨f₁, msgIn d (msgSteps d j w₀), d.withOut (outSteps d w₀ j)⟩ =
      ⟨if j + 1 = d.dataWordsR.toNat then
          { f₁ with wcnt := BitVec.ofNat 3 (j + 1) }.permute stpP1024 .fin1
        else { f₁ with wcnt := BitVec.ofNat 3 (j + 1), fsm := .msgFrame },
        (msgSteps d (j + 1) w₀).frame (if j + 1 = d.dataWordsR.toNat then frF else 0),
        d.withOut (outSteps d w₀ (j + 1))⟩ := by
    intro i
    have hfsm := fsm_msgXor (d := d.withOut (outSteps d w₀ j)) hj hf₁ i.ena
      (msgIn d (msgSteps d j w₀)).w2
    have hnlfsr := nlfsr_msgXor (d := d.withOut (outSteps d w₀ j)) hj hf₁
      (msgIn d (msgSteps d j w₀)) i
    have hdp := dp_msgXor (d := d.withOut (outSteps d w₀ j)) hj hf₁
      (msgIn d (msgSteps d j w₀)) i
    simp only [Core.step, hfsm, hnlfsr, hdp]
    rfl
  by_cases hlast : j + 1 = d.dataWordsR.toNat
  · simp only [hlast, if_true] at hstep ⊢
    exact ⟨_, _, hperm.trans (.single (fun i _ => hstep i) hdone), hdone, rfl, hdone,
      { f₁ with wcnt := BitVec.ofNat 3 d.dataWordsR.toNat }, hdone, rfl⟩
  · simp only [hlast, if_false] at hstep ⊢
    exact ⟨_, _, hperm.trans (.single (fun i _ => hstep i) hdone), hdone, frame_zero _,
      ⟨rfl, hf₁.ncnt, rfl, hf₁.tlo, hdone⟩⟩

/-- All words of data. -/
theorem path_msg {d : Datapath} {w₀ : Nlfsr} {f : Fsm} {w : Nlfsr} (h : AtMsg d w₀ f w)
    (hdone : f.done = false) :
    ∃ f' w', CorePath (34 * d.dataWordsR.toNat) ⟨f, w, d⟩
        ⟨f', w', d.withOut (outSteps d w₀ d.dataWordsR.toNat)⟩ ∧ f'.done = false ∧
      AtFin (msgSteps d d.dataWordsR.toNat w₀) f' w' := by
  by_cases hmsg : 0 < d.dataWordsR
  · rw [AtMsg, if_pos hmsg] at h
    obtain ⟨rfl, n, tlo, hf⟩ := h
    -- the first `j` words, up to the frame of the next one
    have hwords : ∀ j, j < d.dataWordsR.toNat → ∃ f' : Fsm,
        CorePath (34 * j) ⟨f, w, d⟩ ⟨f', msgSteps d j w, d.withOut (outSteps d w j)⟩ ∧
          f'.At .msgFrame n (BitVec.ofNat 3 j) tlo := by
      intro j hj
      induction j with
      | zero => exact ⟨f, .refl _, hf⟩
      | succ j ih =>
          obtain ⟨f₁, hpath, hf₁⟩ := ih (by omega)
          have hj' : j < d.dataWordsR.toNat := by omega
          obtain ⟨f₂, w₂, hword, -, hnext⟩ := path_msgWord hj' w hf₁
          rw [if_neg (by omega)] at hnext
          obtain ⟨rfl, hf₂⟩ := hnext
          exact ⟨f₂, hpath.trans hword, hf₂⟩
    have hpos : 0 < d.dataWordsR.toNat := hmsg
    obtain ⟨j, hj⟩ : ∃ j, d.dataWordsR.toNat = j + 1 := ⟨d.dataWordsR.toNat - 1, by omega⟩
    have hj' : j < d.dataWordsR.toNat := by omega
    obtain ⟨f₁, hpath, hf₁⟩ := hwords j hj'
    obtain ⟨f₂, w₂, hword, hdone₂, hnext⟩ := path_msgWord hj' w hf₁
    rw [if_pos hj.symm] at hnext
    rw [hj]
    exact ⟨f₂, w₂, hpath.trans hword, hdone₂, hnext⟩
  · rw [AtMsg, if_neg hmsg] at h
    have hzero : d.dataWordsR.toNat = 0 := by rw [not_pos_iff.1 hmsg]; rfl
    rw [hzero]
    exact ⟨f, w, .refl _, hdone, h⟩

/-! ## Tag -/

/-- The state after the first of the two last permutations. -/
def finIn (d : Datapath) (w : Nlfsr) : Nlfsr := permSteps d.keyR 32 (w.frame frF)

/-- `{tag_hi, tag_lo}`. -/
def tagWords (d : Datapath) (w : Nlfsr) : BitVec 64 :=
  (permSteps d.keyR 20 ((finIn d w).frame frF)).w2 ++ (finIn d w).w2

/-- The data path when the tag has been written. -/
def Datapath.finished (d : Datapath) (w : Nlfsr) : Datapath :=
  { d with
    dataOut := bsOutput d.dataOut d.dataLenR
    tag := bswap64 (tagWords d w)
    valid := if d.modeR = modeDec then tagWords d w == d.tagInR else true }

theorem step_fin1 {f : Fsm} {n : BitVec 2} {c : BitVec 3} {tlo : BitVec 32}
    (hf : f.At .fin1 n c tlo) (w : Nlfsr) (d : Datapath) (i : CoreIn) :
    Core.step i ⟨f, w, d⟩ =
      ⟨{ f with tlo := w.w2 }.permute (BitVec.ofNat 6 20) .fin2, w.frame frF, d⟩ := by
  have hdone := hf.done
  simp only [Core.step, Fsm.step, Core.nlfsrIn, Core.datapathCtl, hf.state, dp_step_none,
    Fsm.permute, stpP640]
  rw [nlfsr_step_xor rfl rfl]
  simp [hdone]

theorem step_fin2 {f : Fsm} {n : BitVec 2} {c : BitVec 3} {tlo : BitVec 32}
    (hf : f.At .fin2 n c tlo) (w : Nlfsr) (d : Datapath) (i : CoreIn) :
    Core.step i ⟨f, w, d⟩ =
      ⟨{ f with fsm := .done }, w,
        { d with
          dataOut := bsOutput d.dataOut d.dataLenR
          tag := bswap64 (w.w2 ++ tlo)
          valid := if d.modeR = modeDec then w.w2 ++ tlo == d.tagInR else true }⟩ := by
  have hdone := hf.done
  simp only [Core.step, Fsm.step, Core.nlfsrIn, Core.datapathCtl, hf.state, hf.tlo]
  rw [nlfsr_step_xor rfl rfl]
  simp [hdone, Datapath.step, Datapath.bsOut]

/-- From the end of the data to the state before `done` rises. -/
theorem path_fin {d : Datapath} {w₀ : Nlfsr} {f : Fsm} {w : Nlfsr} (h : AtFin w₀ f w) :
    ∃ f' w', CorePath 54 ⟨f, w, d⟩ ⟨f', w', d.finished w₀⟩ ∧ f'.fsm = .done ∧ f'.done = false := by
  obtain ⟨rfl, -, g, hg, rfl⟩ := h
  obtain ⟨f₁, hperm₁, hf₁⟩ := path_perm (q := .fin1) (m := 32) (by decide) (by decide) hg
    (w₀.frame frF) d
  obtain ⟨f₂, hperm₂, hf₂⟩ := path_permute (f := { f₁ with tlo := (finIn d w₀).w2 }) (m := 20)
    (by decide) (by decide) hf₁.done (step_fin1 hf₁ (finIn d w₀) d)
  have hlast : CorePath 1 _ _ :=
    .single (fun i _ => step_fin2 hf₂ (permSteps d.keyR 20 ((finIn d w₀).frame frF)) d i) hf₂.done
  exact ⟨_, _, (hperm₁.trans hperm₂).trans hlast, rfl, hf₂.done⟩

/-! ## A whole operation -/

/-- In the three latch cycles the inputs other than `ena` are those of the first one. -/
def Held (env : ℕ → CoreIn) : Prop := ∀ k < 3, { env k with ena := true } = env 0

/-- The latches after the three latch cycles. -/
def latched (op : CoreIn) : Datapath where
  keyR := bswap128 op.key
  nonceR := bswap96 op.nonce
  adR := bsOutput op.ad op.adLength
  dataR := bsOutput op.dataIn op.dataLength
  tagInR := bswap64 op.tagIn
  adLenR := op.adLength
  dataLenR := op.dataLength
  modeR := op.selType
  adWordsR := calcWords op.adLength
  dataWordsR := calcWords op.dataLength
  dataOut := 0
  tag := 0
  valid := false

/-- The state the data meets. -/
def adState (op : CoreIn) : Nlfsr :=
  adSteps (latched op) (calcWords op.adLength).toNat
    (nonceSteps (latched op) 3 (permSteps (bswap128 op.key) 32 .zero))

/-- The data path when the operation is finished. -/
def result (op : CoreIn) : Datapath :=
  ((latched op).withOut (outSteps (latched op) (adState op) (calcWords op.dataLength).toNat)).finished
    (msgSteps (latched op) (calcWords op.dataLength).toNat (adState op))

/-- The cycles from the start of an operation until `done` is high. -/
def opCycles (op : CoreIn) : ℕ :=
  156 + 22 * (calcWords op.adLength).toNat + 34 * (calcWords op.dataLength).toNat

theorem step_idle {s : Core} (hs : s.fsm.fsm = .idle) {i : CoreIn} (hena : i.ena = true) :
    ∃ f : Fsm, Core.step i s =
        ⟨f, .zero, { latched i with adR := s.dp.adR, dataR := s.dp.dataR }⟩ ∧
      f.At .latchAd 0 0 0 := by
  refine ⟨s.fsm.step i.ena s.dp s.nlfsr.w2, ?_, ?_⟩
  · simp [Core.step, Core.nlfsrIn, Core.datapathCtl, hs, hena, Nlfsr.step, Datapath.step, latched]
  · constructor <;> simp [Fsm.step, hs, hena]

theorem step_latchAd {f : Fsm} (hf : f.At .latchAd 0 0 0) (d : Datapath) (i : CoreIn) :
    ∃ f' : Fsm, Core.step i ⟨f, .zero, d⟩ =
        ⟨f', .zero, { d with adR := bsOutput i.ad i.adLength }⟩ ∧
      f'.At .latchDat 0 0 0 := by
  refine ⟨{ f with fsm := .latchDat }, ?_, ⟨rfl, hf.ncnt, hf.wcnt, hf.tlo, hf.done⟩⟩
  have hdone := hf.done
  simp only [Core.step, Fsm.step, Core.nlfsrIn, Core.datapathCtl, hf.state]
  rw [nlfsr_step_xor rfl rfl]
  simp [hdone, Datapath.step, Datapath.bsOut]

theorem step_latchDat {f : Fsm} (hf : f.At .latchDat 0 0 0) (d : Datapath) (i : CoreIn) :
    Core.step i ⟨f, .zero, d⟩ =
      ⟨f.permute (BitVec.ofNat 6 32) .nFrame, .zero,
        { d with dataR := bsOutput i.dataIn i.dataLength }⟩ := by
  have hdone := hf.done
  simp only [Core.step, Fsm.step, Core.nlfsrIn, Core.datapathCtl, hf.state, Fsm.permute, stpP1024]
  rw [nlfsr_step_xor rfl rfl]
  simp [hdone, Datapath.step, Datapath.bsOut]

/-- The latches after the three latch cycles, whatever the inputs did in them. -/
def latchedBy (env : ℕ → CoreIn) : Datapath :=
  { latched (env 0) with
    adR := bsOutput (env 1).ad (env 1).adLength
    dataR := bsOutput (env 2).dataIn (env 2).dataLength }

theorem latchedBy_held {env : ℕ → CoreIn} (hheld : Held env) : latchedBy env = latched (env 0) := by
  have had : (env 1).ad = (env 0).ad ∧ (env 1).adLength = (env 0).adLength := by
    rw [← hheld 1 (by decide)]
    exact ⟨rfl, rfl⟩
  have hdata : (env 2).dataIn = (env 0).dataIn ∧ (env 2).dataLength = (env 0).dataLength := by
    rw [← hheld 2 (by decide)]
    exact ⟨rfl, rfl⟩
  rw [latchedBy, had.1, had.2, hdata.1, hdata.2]
  rfl

/-- The three latch cycles. -/
theorem run_latch {s : Core} (hs : s.fsm.fsm = .idle) {env : ℕ → CoreIn}
    (hena : (env 0).ena = true) :
    ∃ f : Fsm,
      run Core.step env s 3 = ⟨f.permute (BitVec.ofNat 6 32) .nFrame, .zero, latchedBy env⟩ ∧
      f.At .latchDat 0 0 0 ∧
      ∀ k, 0 < k → k < 3 → (run Core.step env s k).done = false := by
  obtain ⟨f₁, hstep₁, hf₁⟩ := step_idle hs hena
  obtain ⟨f₂, hstep₂, hf₂⟩ := step_latchAd hf₁
    { latched (env 0) with adR := s.dp.adR, dataR := s.dp.dataR } (env 1)
  have hrun₁ : run Core.step env s 1 = Core.step (env 0) s := rfl
  have hrun₂ : run Core.step env s 2 = Core.step (env 1) (run Core.step env s 1) := rfl
  rw [hstep₁] at hrun₁
  rw [hrun₁, hstep₂] at hrun₂
  refine ⟨f₂, ?_, hf₂, ?_⟩
  · rw [run_succ, hrun₂, step_latchDat hf₂]
    rfl
  · intro k hk hk3
    have : k = 1 ∨ k = 2 := by omega
    rcases this with rfl | rfl
    · rw [hrun₁]
      exact hf₁.done
    · rw [hrun₂]
      exact hf₂.done

theorem step_done {f : Fsm} (hf : f.fsm = .done) (w : Nlfsr) (d : Datapath) (i : CoreIn) :
    (Core.step i ⟨f, w, d⟩).done = true ∧ (Core.step i ⟨f, w, d⟩).fsm.fsm = .idle ∧
      (Core.step i ⟨f, w, d⟩).dp = d := by
  simp only [Core.step, Fsm.step, Core.datapathCtl, hf, dp_step_none, Core.done, and_self]

/-- The data path when the operation on the latches `d` is finished. -/
def Datapath.result (d : Datapath) : Datapath :=
  let w := adSteps d d.adWordsR.toNat (nonceSteps d 3 (permSteps d.keyR 32 .zero))
  (d.withOut (outSteps d w d.dataWordsR.toNat)).finished (msgSteps d d.dataWordsR.toNat w)

theorem result_latched (op : CoreIn) : (latched op).result = result op := rfl

/-- An operation started in an idle state runs to completion, whatever the inputs do. -/
theorem run_op_any {s : Core} (hs : s.fsm.fsm = .idle) {env : ℕ → CoreIn}
    (hena : (env 0).ena = true) :
    FirstDone Core.step env s Core.done (opCycles (env 0)) ∧
      (run Core.step env s (opCycles (env 0))).fsm.fsm = .idle ∧
      (run Core.step env s (opCycles (env 0))).dp = (latchedBy env).result := by
  obtain ⟨f₀, hlatch, hf₀, hlow⟩ := run_latch hs hena
  have had : (latchedBy env).adWordsR = calcWords (env 0).adLength := rfl
  have hdata : (latchedBy env).dataWordsR = calcWords (env 0).dataLength := rfl
  generalize latchedBy env = d at *
  obtain ⟨f₁, hinit, hf₁⟩ := path_perm (m := 32) (q := .nFrame) (by decide) (by decide) hf₀.done
    .zero d
  rw [hf₀.ncnt, hf₀.wcnt, hf₀.tlo] at hf₁
  obtain ⟨f₂, w₂, hnonce, hdone₂, hat₂⟩ := path_nonce hf₁ (permSteps d.keyR 32 .zero) d
  obtain ⟨f₃, w₃, had₃, hdone₃, hat₃⟩ := path_ad hat₂ hdone₂
  obtain ⟨f₄, w₄, hmsg, -, hat₄⟩ := path_msg hat₃ hdone₃
  obtain ⟨f₅, w₅, hfin, hf₅, -⟩ := path_fin (d := d.withOut _) hat₄
  have hpath := (((hinit.trans hnonce).trans had₃).trans hmsg).trans hfin
  generalize hn : 32 + 66 + 22 * d.adWordsR.toNat + 34 * d.dataWordsR.toNat + 54 = n at hpath
  obtain ⟨hlast, hidle, hdp⟩ := step_done hf₅ w₅ d.result (env (3 + n))
  obtain ⟨hrun, hdone⟩ := @Path.firstDone _ _ _ _ _ _ _ _ (fun j => env (3 + j)) hpath
    (fun _ _ => trivial) hlast
  have hcount : opCycles (env 0) = 3 + (n + 1) := by
    rw [← hn, opCycles, had, hdata]
    omega
  rw [hcount]
  rw [← hlatch] at hdone hrun
  refine ⟨.delay (fun k hk hk3 => ?_) hdone, ?_⟩
  · rcases Nat.lt_or_ge k 3 with h | h
    · exact hlow k hk h
    · obtain rfl : k = 3 := by omega
      rw [hlatch]
      exact hf₀.done
  · rw [run_add, hrun]
    exact ⟨hidle, hdp⟩

/-- When the inputs stay in the latch cycles, it leaves `result`. -/
theorem run_op {s : Core} (hs : s.fsm.fsm = .idle) {env : ℕ → CoreIn} (hena : (env 0).ena = true)
    (hheld : Held env) :
    FirstDone Core.step env s Core.done (opCycles (env 0)) ∧
      (run Core.step env s (opCycles (env 0))).fsm.fsm = .idle ∧
      (run Core.step env s (opCycles (env 0))).dp = result (env 0) := by
  have h := run_op_any hs hena
  rwa [latchedBy_held hheld, result_latched] at h

end PicoSoc.TinyJambu
