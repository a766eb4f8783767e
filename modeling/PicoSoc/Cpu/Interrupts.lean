import PicoSoc.Cpu.LookAhead
import PicoSoc.Cpu.Compressed

set_option autoImplicit false

/-! # Interrupts

`irq_pending` loses a latched interrupt only in the cycle of a handler entry that hands it to the
handler (`Delivers`). The lemmas are about the parts of the main state machine; the cores with and
without the compressed instruction set differ only in how a cycle ends (`Work.Ends`). -/

namespace PicoSoc.Picorv32

open Clocked

variable {p : Params} {s : State} {i : Inputs} {w v : Work} {k : ℕ}

/-! ## Outside the state `fetch` -/

/-- `irq_state` is as before and no pending interrupt is dropped. -/
structure Work.Spares (w w' : Work) : Prop where
  irqState : w'.main.irq.irqState = w.main.irq.irqState
  pending : ∀ k, w.nextIrqPending.getLsbD k = true → w'.nextIrqPending.getLsbD k = true

theorem Work.Spares.of_eq (hs : v.main.irq.irqState = w.main.irq.irqState)
    (hp : v.nextIrqPending = w.nextIrqPending) : w.Spares v :=
  ⟨hs, fun _ h => hp ▸ h⟩

theorem spares_ite {c : Prop} [Decidable c] {a b : Work} (ha : w.Spares a) (hb : w.Spares b) :
    w.Spares (if c then a else b) := by
  by_cases hc : c
  · rw [if_pos hc]; exact ha
  · rw [if_neg hc]; exact hb

/-- The further choices of the source, made in the registers only. -/
theorem spares_ite_main {c : Prop} [Decidable c] {a b : Main} {q : BitVec 32} {x y z : Bool}
    (ha : w.Spares ⟨a, x, y, z, q⟩) (hb : w.Spares ⟨b, x, y, z, q⟩) :
    w.Spares ⟨if c then a else b, x, y, z, q⟩ := by
  by_cases hc : c
  · rw [if_pos hc]; exact ha
  · rw [if_neg hc]; exact hb

theorem spares_trapOrIrq {n : ℕ} {c : CpuState} (h : w.Spares v) :
    w.Spares (trapOrIrq p s n c v) := by
  refine spares_ite ⟨h.irqState, fun k hk => ?_⟩ ⟨h.irqState, h.pending⟩
  rw [BitVec.getLsbD_or, h.pending k hk, Bool.true_or]

theorem spares_pcpiState (h : w.Spares v) : w.Spares (pcpiState p s i v) :=
  spares_ite ⟨h.irqState, h.pending⟩
    (spares_ite (spares_trapOrIrq ⟨h.irqState, h.pending⟩) ⟨h.irqState, h.pending⟩)

theorem spares_operandsState (h : w.Spares v) : w.Spares (operandsState p s v) := by
  refine spares_ite ⟨h.irqState, h.pending⟩ (spares_ite ⟨h.irqState, h.pending⟩ ?_)
  by_cases hslow : (p.twoCycleAlu || (p.twoCycleCompare && s.first.isBeqBneBltBgeBltuBgeu)) = true
  · rw [if_pos hslow]; exact ⟨h.irqState, h.pending⟩
  · rw [if_neg hslow]; exact ⟨h.irqState, h.pending⟩

theorem spares_toExec {op1 op2 : BitVec 32} (h : w.Spares v) :
    w.Spares (toExec p s op1 op2 v) :=
  spares_ite_main ⟨h.irqState, h.pending⟩ ⟨h.irqState, h.pending⟩

theorem spares_ldRs1State : w.Spares (ldRs1State p s i w) := by
  unfold ldRs1State
  dsimp only
  refine spares_ite (spares_ite (spares_ite (spares_pcpiState ?_) ?_) (spares_trapOrIrq ?_))
    (spares_ite ?_ (spares_ite (spares_toExec ?_) (spares_ite ?_ (spares_ite ?_ (spares_ite ?_
    (spares_ite ?_ (spares_ite ?_ (spares_ite ?_ (spares_ite ?_ (spares_ite (spares_toExec ?_)
    (spares_ite (spares_operandsState ?_) ?_)))))))))))
  all_goals exact .of_eq rfl rfl

theorem spares_ldRs2State : w.Spares (ldRs2State p s i w) :=
  spares_ite (spares_pcpiState (.of_eq rfl rfl)) (spares_operandsState (.of_eq rfl rfl))

theorem spares_execState : w.Spares (execState p s i w) :=
  spares_ite (.of_eq rfl rfl) (spares_ite (.of_eq rfl rfl) (.of_eq rfl rfl))

theorem spares_shiftState : w.Spares (shiftState p s w) :=
  spares_ite (.of_eq rfl rfl) (spares_ite (.of_eq rfl rfl) (.of_eq rfl rfl))

theorem spares_memoryDone (h : w.Spares v) : w.Spares (memoryDone s i v) :=
  spares_ite ⟨h.irqState, h.pending⟩ h

theorem spares_stmemState : w.Spares (stmemState p s i w) := by
  have htrace : w.Spares
      (if p.enableTrace then { w with main := { w.main with regOut := s.main.regOp2 } } else w) :=
    spares_ite (.of_eq rfl rfl) (.of_eq rfl rfl)
  unfold stmemState
  exact spares_ite (spares_memoryDone (spares_ite ⟨htrace.irqState, htrace.pending⟩ htrace)) htrace

theorem spares_ldmemState : w.Spares (ldmemState s i w) := by
  unfold ldmemState
  dsimp only
  refine spares_ite (spares_memoryDone ?_) (.of_eq rfl rfl)
  by_cases hd : (!s.main.memDoRdata) = true
  · rw [if_pos hd]
    exact spares_ite (.of_eq rfl rfl) (.of_eq rfl rfl)
  · rw [if_neg hd]
    exact spares_ite (.of_eq rfl rfl) (.of_eq rfl rfl)

theorem spares_cpuStateCase (hc : s.main.cpuState ≠ .fetch) : w.Spares (cpuStateCase p s i w) := by
  unfold cpuStateCase
  cases h : s.main.cpuState
  · exact .of_eq rfl rfl
  · exact absurd h hc
  · exact spares_ldRs1State
  · exact spares_ldRs2State
  · exact spares_execState
  · exact spares_shiftState
  · exact spares_stmemState
  · exact spares_ldmemState

/-! ## The state `fetch` -/

/-- The second cycle of a handler entry: `eoi` and the pending interrupts are handed over. -/
def Main.enters (m : Main) : Bool := m.cpuState == .fetch && m.irq.irqState == 2

/-- The handler entry takes the interrupt `k`. -/
def Main.takes (m : Main) (k : ℕ) : Bool := m.enters && !m.irq.irqMask.getLsbD k

/-- The register the handler finds its interrupts in: `q1`, or `x4` without q-registers. -/
def irqRd (p : Params) : BitVec 6 :=
  if p.enableIrqQregs then p.regindex (p.irqregsOffset ||| 1) else 4

theorem irqRd_ne_zero (h : p.enableIrq = true) : irqRd p ≠ 0 := by
  unfold irqRd
  cases hq : p.enableIrqQregs <;> cases hr : p.enableRegs1631 <;>
    simp [Params.regindex, Params.regindexBits, Params.irqregsOffset, h, hq, hr]

/-- What holds of the interrupt registers between the cycles of a handler entry. -/
structure Main.EntryOk (p : Params) (m : Main) : Prop where
  waits : m.irq.irqState ≠ 0 → m.cpuState = .fetch ∨ m.cpuState = .trap
  clean : m.irq.irqState ≠ 0 → m.latchedBranch = false ∧ m.latchedStore = false
  stages : m.irq.irqState ≠ 3
  second : m.irq.irqState = 2 → m.latchedRd = irqRd p ∧ m.irq.irqActive = true
    ∧ m.regPc.extractLsb' 2 30 = p.progaddrIrq.extractLsb' 2 30

theorem Main.EntryOk.of_irqState {m : Main} (h : m.irq.irqState = 0) : m.EntryOk p where
  waits hn := absurd h hn
  clean hn := absurd h hn
  stages := by rw [h]; decide
  second h2 := by rw [h] at h2; exact absurd h2 (by decide)

theorem irqState_cases {q : BitVec 2} (h : q ≠ 3) : q = 0 ∨ q = 1 ∨ q = 2 := by
  revert q
  decide

theorem field_ite {α : Type} (g : Work → α) {c : Prop} [Decidable c] {a b : Work} {x : α}
    (ha : g a = x) (hb : g b = x) : g (if c then a else b) = x := by
  by_cases hc : c
  · rw [if_pos hc]; exact ha
  · rw [if_neg hc]; exact hb

theorem fetchState_nextIrqPending :
    (fetchState p s w).nextIrqPending =
      if p.enableIrq && !s.main.latchedBranch && !s.main.latchedStore
          && !s.main.irq.irqState.getLsbD 0 && s.main.irq.irqState.getLsbD 1 then
        w.nextIrqPending &&& s.main.irq.irqMask
      else w.nextIrqPending := by
  unfold fetchState
  dsimp only
  refine field_ite (·.nextIrqPending) rfl (field_ite _ (field_ite _ rfl rfl) (field_ite _ ?_ rfl))
  exact field_ite _ rfl rfl

/-- Outside an entry `fetch` drops nothing. -/
theorem fetchState_pending (h : s.main.EntryOk p)
    (hk : s.main.irq.irqState = 2 → s.main.irq.irqMask.getLsbD k = true)
    (hw : w.nextIrqPending.getLsbD k = true) :
    (fetchState p s w).nextIrqPending.getLsbD k = true := by
  rw [fetchState_nextIrqPending]
  rcases irqState_cases h.stages with h0 | h1 | h2
  · simpa [h0] using hw
  · simpa [h1] using hw
  · split
    · rw [BitVec.getLsbD_and, hw, hk h2]
      rfl
    · exact hw

/-- No entry begins. -/
theorem fetchState_idle (h0 : w.main.irq.irqState = 0)
    (hno : ¬(p.enableIrq && ((s.main.decoderTrigger && !s.main.irq.irqActive
      && !s.main.irq.irqDelay && irqRequests s != 0) || s.main.irq.irqState != 0)) = true) :
    (fetchState p s w).main.irq.irqState = 0 := by
  unfold fetchState
  dsimp only
  rw [if_neg hno]
  have keep : ∀ {c : Prop} [Decidable c] {a b : Work}, a.main.irq.irqState = 0 →
      b.main.irq.irqState = 0 → (if c then a else b).main.irq.irqState = 0 :=
    fun ha hb => field_ite (·.main.irq.irqState) ha hb
  exact keep (keep h0 h0) (keep (keep h0 h0) h0)

/-- The three cycles of an entry. -/
theorem entryOk_fetchState (hp : p.enableIrq = true) (h : s.main.EntryOk p)
    (hc : s.main.cpuState = .fetch) : (fetchState p s (defaults p s i)).main.EntryOk p := by
  by_cases hent : (p.enableIrq && ((s.main.decoderTrigger && !s.main.irq.irqActive
      && !s.main.irq.irqDelay && irqRequests s != 0) || s.main.irq.irqState != 0)) = true
  · have hstate : (fetchState p s (defaults p s i)).main.irq.irqState =
        if s.main.irq.irqState == 0 then 1 else if s.main.irq.irqState == 1 then 2 else 0 := by
      unfold fetchState
      dsimp only
      rw [if_pos hent]
    have hflags : (fetchState p s (defaults p s i)).main.latchedBranch = false
        ∧ (fetchState p s (defaults p s i)).main.latchedStore = false
        ∧ (fetchState p s (defaults p s i)).main.cpuState = .fetch := by
      unfold fetchState
      dsimp only
      rw [if_pos hent]
      exact ⟨rfl, rfl, hc⟩
    rcases irqState_cases h.stages with h0 | h1 | h2
    · have hnext : (fetchState p s (defaults p s i)).main.irq.irqState = 1 := by
        rw [hstate, h0]
        rfl
      exact ⟨fun _ => .inl hflags.2.2, fun _ => ⟨hflags.1, hflags.2.1⟩, by rw [hnext]; decide,
        fun h2 => by rw [hnext] at h2; exact absurd h2 (by decide)⟩
    · have hnext : (fetchState p s (defaults p s i)).main.irq.irqState = 2 := by
        rw [hstate, h1]
        rfl
      obtain ⟨hb, hs⟩ := h.clean (by rw [h1]; decide)
      refine ⟨fun _ => .inl hflags.2.2, fun _ => ⟨hflags.1, hflags.2.1⟩, by rw [hnext]; decide,
        fun _ => ?_⟩
      unfold fetchState irqRd
      dsimp only
      rw [if_pos hent]
      simp [hp, hb, hs, h1]
    · refine .of_irqState ?_
      rw [hstate, h2]
      rfl
  · have h0 : s.main.irq.irqState = 0 := by
      by_contra hne
      rw [hp, bne_iff_ne.mpr hne, Bool.or_true, Bool.and_true] at hent
      exact hent rfl
    exact .of_irqState (fetchState_idle h0 hent)

/-- The second cycle writes `eoi`. -/
theorem fetchState_eoi (hp : p.enableIrq = true) (h : s.main.EntryOk p)
    (h2 : s.main.irq.irqState = 2) : (fetchState p s w).main.irq.eoi = irqRequests s := by
  obtain ⟨hb, hs⟩ := h.clean (by rw [h2]; decide)
  simp [fetchState, hp, hb, hs, h2]

/-! ## A whole cycle -/

/-- Only the state `trap` and further pending interrupts are added. -/
structure Work.Passes (w w' : Work) : Prop where
  main : w'.main = w.main ∨ w'.main = { w.main with cpuState := .trap }
  pending : ∀ k, w.nextIrqPending.getLsbD k = true → w'.nextIrqPending.getLsbD k = true
  sets : w'.setMemDoRinst = w.setMemDoRinst ∧ w'.setMemDoRdata = w.setMemDoRdata
    ∧ w'.setMemDoWdata = w.setMemDoWdata

theorem passes_check {c : Prop} [Decidable c] {n : ℕ} (h : w.Passes v) :
    w.Passes (if c then trapOrIrq p s n v.main.cpuState v else v) := by
  have htrap : w.Passes { v with main := { v.main with cpuState := .trap } } := by
    refine ⟨.inr ?_, h.pending, h.sets⟩
    rcases h.main with hm | hm <;> rw [hm]
  split
  · unfold trapOrIrq
    split
    · refine ⟨h.main, fun k hk => ?_, h.sets⟩
      rw [BitVec.getLsbD_or, h.pending k hk, Bool.true_or]
    · exact htrap
  · exact h

theorem passes_trap {c : Prop} [Decidable c] (h : w.Passes v) :
    w.Passes (if c then { v with main := { v.main with cpuState := .trap } } else v) := by
  split
  · refine ⟨.inr ?_, h.pending, h.sets⟩
    rcases h.main with hm | hm <;> rw [hm]
  · exact h

theorem passes_refl : w.Passes w := ⟨.inl rfl, fun _ h => h, rfl, rfl, rfl⟩

theorem checksWith_passes {stray : Bool} : w.Passes (checksWith p s i stray w) :=
  passes_trap (passes_check (passes_check (passes_check passes_refl)))

theorem rvc_checks_passes : w.Passes (Rvc.checks p s i w) := checksWith_passes

/-- The cycle ends with the registers of `w`, up to a trap. -/
structure Work.Ends (p : Params) (i : Inputs) (w : Work) (m : Main) : Prop where
  cpuState : m.cpuState = w.main.cpuState ∨ m.cpuState = .trap
  latched : m.latchedBranch = w.main.latchedBranch ∧ m.latchedStore = w.main.latchedStore
    ∧ m.latchedRd = w.main.latchedRd
  irq : m.irq.irqState = w.main.irq.irqState ∧ m.irq.irqActive = w.main.irq.irqActive
    ∧ m.irq.eoi = w.main.irq.eoi
  regPc : m.regPc.extractLsb' 2 30 = w.main.regPc.extractLsb' 2 30
  pending : ∀ k, p.maskedIrq.getLsbD k = false → k < 32 →
    w.nextIrqPending.getLsbD k = true ∨ i.irq.getLsbD k = true → m.irq.irqPending.getLsbD k = true

theorem irqInputs_pending (hp : p.enableIrq = true)
    (h : w.nextIrqPending.getLsbD k = true ∨ i.irq.getLsbD k = true) :
    (irqInputs p s i w).nextIrqPending.getLsbD k = true := by
  have hor : (w.nextIrqPending ||| i.irq).getLsbD k = true := by
    simpa using h
  simp only [irqInputs, hp, if_true]
  split
  · rw [BitVec.getLsbD_or, hor, Bool.true_or]
  · exact hor

/-- What a cycle makes of the pending interrupts before the masked ones are dropped. -/
theorem pending_of_passes (hp : p.enableIrq = true) (h : (irqInputs p s i w).Passes v)
    (hk : w.nextIrqPending.getLsbD k = true ∨ i.irq.getLsbD k = true)
    (hmask : p.maskedIrq.getLsbD k = false) (hlt : k < 32) :
    (v.nextIrqPending &&& ~~~p.maskedIrq).getLsbD k = true := by
  rw [BitVec.getLsbD_and, h.pending k (irqInputs_pending hp hk), BitVec.getLsbD_not, hmask]
  simp [hlt]

/-- The alignment of the program counter leaves the word address. -/
theorem extract_clear_low (pc low : BitVec 32) (h : low.extractLsb' 2 30 = 0) :
    (pc &&& ~~~low).extractLsb' 2 30 = pc.extractLsb' 2 30 := by
  apply BitVec.eq_of_getLsbD_eq
  intro j hj
  have hlow : low.getLsbD (2 + j) = false := by
    have := congrArg (·.getLsbD j) h
    simpa [hj] using this
  have hlt : 2 + j < 32 := by omega
  simp only [BitVec.getLsbD_extractLsb', BitVec.getLsbD_and, BitVec.getLsbD_not, hlow, hlt]
  simp

/-- The registers of `w` apart from the requests, the pending interrupts and the alignment. -/
theorem ends_of_passes (hp : p.enableIrq = true) {m : Main}
    (h : (irqInputs p s i w).Passes v) (hstate : m.cpuState = v.main.cpuState)
    (hlatched : m.latchedBranch = v.main.latchedBranch ∧ m.latchedStore = v.main.latchedStore
      ∧ m.latchedRd = v.main.latchedRd)
    (hirq : m.irq = { v.main.irq with irqPending := v.nextIrqPending &&& ~~~p.maskedIrq })
    (hpc : m.regPc.extractLsb' 2 30 = v.main.regPc.extractLsb' 2 30) : w.Ends p i m := by
  have hmain : v.main = w.main ∨ v.main = { w.main with cpuState := .trap } := by
    simpa only [irqInputs_main] using h.main
  refine ⟨?_, ?_, ?_, ?_, fun k hmask hlt hk => ?_⟩
  · rw [hstate]
    rcases hmain with hm | hm <;> rw [hm]
    · exact .inl rfl
    · exact .inr rfl
  · rcases hmain with hm | hm <;> simpa only [hm] using hlatched
  · rw [hirq]
    rcases hmain with hm | hm <;> rw [hm] <;> exact ⟨rfl, rfl, rfl⟩
  · rw [hpc]
    rcases hmain with hm | hm <;> rw [hm]
  · rw [hirq]
    exact pending_of_passes hp h hk hmask hlt

theorem finishWith_ends (hp : p.enableIrq = true) {stray : Bool} {low : BitVec 32}
    (hlow : low.extractLsb' 2 30 = 0) :
    w.Ends p i (finishWith p s i low (checksWith p s i stray (irqInputs p s i w))) := by
  refine ends_of_passes hp checksWith_passes rfl ⟨rfl, rfl, rfl⟩ rfl ?_
  unfold finishWith
  dsimp only
  split
  · rfl
  · exact extract_clear_low _ low hlow

theorem Main.EntryOk.ends {m : Main} (h : w.main.EntryOk p) (he : w.Ends p i m) : m.EntryOk p := by
  obtain ⟨hb, hs, hr⟩ := he.latched
  obtain ⟨hq, ha, -⟩ := he.irq
  refine ⟨fun hn => ?_, fun hn => ?_, ?_, fun h2 => ?_⟩
  · rw [hq] at hn
    rcases he.cpuState with hc | hc
    · rw [hc]; exact h.waits hn
    · exact .inr hc
  · rw [hb, hs]
    exact h.clean (hq ▸ hn)
  · rw [hq]
    exact h.stages
  · rw [hr, ha, he.regPc]
    exact h.second (hq ▸ h2)

/-- The registers before the common end of a cycle. -/
def caseWork (p : Params) (s : State) (i : Inputs) : Work :=
  if !i.resetn then resetState p (defaults p s i) else cpuStateCase p s i (defaults p s i)

theorem mainStep_ends (hp : p.enableIrq = true) : (caseWork p s i).Ends p i (mainStep p s i) :=
  finishWith_ends hp (by decide)

theorem resetState_irqState : (resetState p w).main.irq.irqState = 0 := by
  unfold resetState
  dsimp only
  split <;> rfl

theorem entryOk_caseWork (hp : p.enableIrq = true) (h : i.resetn = true → s.main.EntryOk p) :
    (caseWork p s i).main.EntryOk p := by
  cases hr : i.resetn
  · refine .of_irqState ?_
    simp only [caseWork, hr, Bool.not_false, if_true]
    exact resetState_irqState
  · have hs := h hr
    simp only [caseWork, hr, Bool.not_true, Bool.false_eq_true, if_false]
    by_cases hc : s.main.cpuState = .fetch
    · simp only [cpuStateCase, hc]
      exact entryOk_fetchState hp hs hc
    · by_cases ht : s.main.cpuState = .trap
      · simp only [cpuStateCase, ht]
        exact ⟨fun _ => .inr ht, hs.clean, hs.stages, hs.second⟩
      · have h0 : s.main.irq.irqState = 0 := by
          by_contra hn
          exact (hs.waits hn).elim hc ht
        exact .of_irqState ((spares_cpuStateCase hc).irqState.trans h0)

/-- What is pending stays so, but for the interrupts an entry takes. -/
theorem caseWork_pending (hp : p.enableIrq = true) (h : s.main.EntryOk p) (hr : i.resetn = true)
    (hl : p.latchedIrq.getLsbD k = true) (hk : s.main.irq.irqPending.getLsbD k = true)
    (ht : s.main.takes k = false) : (caseWork p s i).nextIrqPending.getLsbD k = true := by
  have hdefault : (defaults p s i).nextIrqPending.getLsbD k = true := by
    simp [defaults, hp, hk, hl]
  simp only [caseWork, hr, Bool.not_true, Bool.false_eq_true, if_false]
  by_cases hc : s.main.cpuState = .fetch
  · simp only [cpuStateCase, hc]
    refine fetchState_pending h (fun h2 => ?_) hdefault
    simpa [Main.takes, Main.enters, hc, h2] using ht
  · exact (spares_cpuStateCase hc).pending k hdefault

/-! ## Delivery -/

/-- In cycle `n` the interrupt `k` is recorded, and it stays pending until a handler entry takes
    it. -/
structure Delivers (p : Params) (env : ℕ → Inputs) (s : ℕ → State) (k n : ℕ) : Prop where
  recorded : (env n).irq.getLsbD k = true → (s (n + 1)).main.irq.irqPending.getLsbD k = true
  kept : (s n).main.irq.irqPending.getLsbD k = true → ∀ m, n ≤ m →
    (∀ j, n ≤ j → j < m → (env j).resetn = true ∧ (s j).main.takes k = false) →
    (s m).main.irq.irqPending.getLsbD k = true
  taken : (env n).resetn = true → (s n).main.irq.irqPending.getLsbD k = true →
    (s n).main.takes k = true → (s (n + 1)).main.irq.eoi.getLsbD k = true
      ∧ ∃ v, cpuregsWrite p (s n) = some v ∧ v.getLsbD k = true
          ∧ (s (n + 1)).cpuregs = Function.update (s n).cpuregs (irqRd p) v
  entry : (s n).main.enters = true → (s n).main.irq.irqActive = true
    ∧ (s n).main.regPc.extractLsb' 2 30 = p.progaddrIrq.extractLsb' 2 30

/-- The edge of a core with or without the compressed instruction set. -/
structure Edge (p : Params) (s : State) (i : Inputs) (s' : State) : Prop where
  main : (caseWork p s i).Ends p i s'.main
  cpuregs : s'.cpuregs = cpuregsStep p s i

theorem Edge.pending (hp : p.enableIrq = true) {s' : State} (e : Edge p s i s')
    (h : s.main.EntryOk p) (hr : i.resetn = true) (hl : p.latchedIrq.getLsbD k = true)
    (hm : p.maskedIrq.getLsbD k = false) (hk : s.main.irq.irqPending.getLsbD k = true)
    (ht : s.main.takes k = false) : s'.main.irq.irqPending.getLsbD k = true :=
  e.main.pending k hm (BitVec.lt_of_getLsbD hl) (.inl (caseWork_pending hp h hr hl hk ht))

/-- The entry hands the interrupt over. -/
theorem Edge.taken (hp : p.enableIrq = true) {s' : State} (e : Edge p s i s')
    (h : s.main.EntryOk p) (hr : i.resetn = true) (hk : s.main.irq.irqPending.getLsbD k = true)
    (ht : s.main.takes k = true) : s'.main.irq.eoi.getLsbD k = true
      ∧ ∃ v, cpuregsWrite p s = some v ∧ v.getLsbD k = true
          ∧ s'.cpuregs = Function.update s.cpuregs (irqRd p) v := by
  obtain ⟨⟨hc, h2⟩, hmask⟩ : (s.main.cpuState = .fetch ∧ s.main.irq.irqState = 2)
      ∧ s.main.irq.irqMask.getLsbD k = false := by
    simpa [Main.takes, Main.enters] using ht
  have hreq : (irqRequests s).getLsbD k = true := by
    rw [irqRequests, BitVec.getLsbD_and, hk, BitVec.getLsbD_not, hmask]
    simp [BitVec.lt_of_getLsbD hk]
  obtain ⟨hb, hs⟩ := h.clean (by rw [h2]; decide)
  have hwrite : cpuregsWrite p s = some (irqRequests s) := by
    simp [cpuregsWrite, irqRequests, hc, hb, hs, hp, h2]
  refine ⟨?_, irqRequests s, hwrite, hreq, ?_⟩
  · have heoi : s'.main.irq.eoi = irqRequests s := by
      rw [e.main.irq.2.2]
      simp only [caseWork, hr, Bool.not_true, Bool.false_eq_true, if_false, cpuStateCase, hc]
      exact fetchState_eoi hp h h2
    rw [heoi]
    exact hreq
  · have hrd : s.main.latchedRd = irqRd p := (h.second h2).1
    have hne : (irqRd p != 0) = true := bne_iff_ne.mpr (irqRd_ne_zero hp)
    rw [e.cpuregs]
    simp only [cpuregsStep, hwrite, hr, hrd, hne, Bool.and_self, if_true]

/-- A run of such edges from a reset on delivers every latched interrupt. -/
theorem delivers_of_edges (hp : p.enableIrq = true) (env : ℕ → Inputs) (s : ℕ → State)
    (hedge : ∀ n, Edge p (s n) (env n) (s (n + 1))) {n₀ n : ℕ} (hreset : (env n₀).resetn = false)
    (hn : n₀ < n) (hl : p.latchedIrq.getLsbD k = true) (hm : p.maskedIrq.getLsbD k = false) :
    Delivers p env s k n := by
  have hok : ∀ m, n₀ < m → (s m).main.EntryOk p := by
    intro m hm
    induction m, hm using Nat.le_induction with
    | base =>
      exact (entryOk_caseWork hp fun hr => by rw [hreset] at hr; cases hr).ends (hedge n₀).main
    | succ m _ ih => exact (entryOk_caseWork hp fun _ => ih).ends (hedge m).main
  refine ⟨fun hk => ?_, fun hk m hnm => ?_, fun hr hk ht => ?_, fun hent => ?_⟩
  · exact (hedge n).main.pending k hm (BitVec.lt_of_getLsbD hl) (.inr hk)
  · induction m, hnm using Nat.le_induction with
    | base => exact fun _ => hk
    | succ m hnm ih =>
      intro hquiet
      obtain ⟨hr, ht⟩ := hquiet m hnm (by omega)
      have hpend := ih fun j hj hjm => hquiet j hj (by omega)
      exact (hedge m).pending hp (hok m (by omega)) hr hl hm hpend ht
  · exact (hedge n).taken hp (hok n hn) hr hk ht
  · obtain ⟨-, h2⟩ : (s n).main.cpuState = .fetch ∧ (s n).main.irq.irqState = 2 := by
      simpa [Main.enters] using hent
    exact ((hok n hn).second h2).2

theorem edge_step (hp : p.enableIrq = true) (s : State) (i : Inputs) :
    Edge p s i (step p i s) :=
  ⟨mainStep_ends hp, rfl⟩

/-- The core with the compressed instruction set, as its main state machine sees it. -/
theorem edge_rvc_step (hp : p.enableIrq = true) (s : Rvc.State) (i : Rvc.Inputs) (done : Bool) :
    Edge p (Rvc.showing (Rvc.memDone p s i) s.core) (Rvc.shownTo i.toInputs)
      (Rvc.showing done (Rvc.step p i s).core) :=
  ⟨finishWith_ends hp (by decide), rfl⟩

/-- **No latched interrupt is lost**, with the compressed instruction set or without it: from a
    reset on an interrupt line that is latched and not masked by the parameters is recorded in the
    next cycle, stays pending until a handler entry with its mask bit clear, and reaches `eoi` and
    the handler's register there. -/
theorem interrupts_delivered (p : Params) (hp : p.enableIrq = true) (k : ℕ)
    (hl : p.latchedIrq.getLsbD k = true) (hm : p.maskedIrq.getLsbD k = false) (n₀ n : ℕ)
    (hn : n₀ < n) :
    (∀ (env : ℕ → Inputs) (s₀ : State), (env n₀).resetn = false →
      Delivers p env (run (step p) env s₀) k n)
    ∧ ∀ (env : ℕ → Rvc.Inputs) (s₀ : Rvc.State), (env n₀).resetn = false →
      Delivers p (fun n => (env n).toInputs) (fun n => (run (Rvc.step p) env s₀ n).core) k n := by
  refine ⟨fun env s₀ hreset => ?_, fun env s₀ hreset => ?_⟩
  · exact delivers_of_edges hp env (run (step p) env s₀)
      (fun n => edge_step hp (run (step p) env s₀ n) (env n)) hreset hn hl hm
  · have h := delivers_of_edges hp (fun n => Rvc.shownTo (env n).toInputs)
      (fun n => Rvc.showing (Rvc.memDone p (run (Rvc.step p) env s₀ n) (env n))
        (run (Rvc.step p) env s₀ n).core)
      (fun n => edge_rvc_step hp _ (env n) _) hreset hn hl hm
    exact ⟨h.recorded, h.kept, h.taken, h.entry⟩

/-- One pulse on the interrupt line 5 after a cycle of reset. The memory answers at once, and each
    of its words unmasks all interrupts. -/
def pulseAfterReset : ℕ → Inputs := fun n =>
  { (default : Inputs) with
    resetn := n != 0
    irq := if n = 3 then 32 else 0
    memReady := true
    memRdata := 0x0600000b }

/-- The pulse finds the interrupt masked. It stays pending until the handler entry in cycle 10. -/
theorem interrupts_delivered_pulse :
    let p : Params := { enableIrq := true }
    let s := run (step p) pulseAfterReset default
    (s 4).main.irq.irqPending.getLsbD 5 = true ∧ (s 4).main.irq.irqMask.getLsbD 5 = true
      ∧ (s 10).main.irq.irqPending.getLsbD 5 = true
      ∧ (s 10).main.irq.irqActive = true
      ∧ (s 10).main.regPc.extractLsb' 2 30 = p.progaddrIrq.extractLsb' 2 30
      ∧ (s 11).main.irq.eoi.getLsbD 5 = true
      ∧ ∃ v, cpuregsWrite p (s 10) = some v ∧ v.getLsbD 5 = true
          ∧ (s 11).cpuregs = Function.update (s 10).cpuregs (irqRd p) v := by
  intro p s
  have delivers : ∀ n, 0 < n → Delivers p pulseAfterReset s 5 n := fun n hn =>
    (interrupts_delivered { enableIrq := true } rfl 5 rfl rfl 0 n hn).1 pulseAfterReset default rfl
  have hrecorded : (s 4).main.irq.irqPending.getLsbD 5 = true :=
    (delivers 3 (by decide)).recorded rfl
  have hwaits : ∀ j, 4 ≤ j → j < 10 →
      (pulseAfterReset j).resetn = true ∧ (s j).main.takes 5 = false := by decide +kernel
  have hkept : (s 10).main.irq.irqPending.getLsbD 5 = true :=
    (delivers 4 (by decide)).kept hrecorded 10 (by decide) hwaits
  have hentry := (delivers 10 (by decide)).entry (by decide +kernel)
  have htaken := (delivers 10 (by decide)).taken rfl hkept (by decide +kernel)
  exact ⟨hrecorded, by decide +kernel, hkept, hentry.1, hentry.2, htaken⟩

end PicoSoc.Picorv32
