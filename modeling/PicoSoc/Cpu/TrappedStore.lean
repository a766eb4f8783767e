import PicoSoc.Cpu.LookAhead

set_option autoImplicit false

/-! # A store that traps

The check of `CATCH_MISALIGN` reads `mem_do_wdata`, in the cycle in which `mem_la_write` makes a pulse
of the same register. -/

namespace PicoSoc.Picorv32

open Clocked

variable {p : Params} {s : State} {i : Inputs} {w : Work}

/-! ## The checks -/

/-- The address of a word or half word access is not a multiple of its size. -/
def Misaligned (m : Main) : Prop :=
  (m.memWordsize = 0 ∧ m.regOp1.extractLsb' 0 2 ≠ 0) ∨ (m.memWordsize = 1 ∧ m.regOp1.getLsbD 0 = true)

/-- A bus error can be taken as an interrupt. -/
def takesBuserror (p : Params) (s : State) : Bool :=
  p.enableIrq && !s.main.irq.irqMask.getLsbD irqBuserror && !s.main.irq.irqActive

/-- The checks can send the core to `trap`; they touch no other register of the block. -/
def Work.SameBut (w w' : Work) : Prop :=
  w'.main = w.main ∨ w'.main = { w.main with cpuState := .trap }

theorem sameBut_trap {w' : Work} (h : w.SameBut w') :
    w.SameBut { w' with main := { w'.main with cpuState := .trap } } := by
  rcases h with h | h <;> exact .inr (by rw [h])

theorem sameBut_trapOrIrq {n : ℕ} {c : Prop} [Decidable c] {w' : Work} (h : w.SameBut w') :
    w.SameBut (if c then trapOrIrq p s n w'.main.cpuState w' else w') := by
  split
  · unfold trapOrIrq
    split
    · exact h
    · exact sameBut_trap h
  · exact h

theorem checks_sameBut : w.SameBut (checks p s i w) := by
  unfold checks checksWith
  extract_lets m data w₁ w₂ w₃
  have h₁ : w.SameBut w₁ := sameBut_trapOrIrq (.inl rfl)
  have h₂ : w.SameBut w₂ := sameBut_trapOrIrq h₁
  have h₃ : w.SameBut w₃ := sameBut_trapOrIrq h₂
  split
  · exact sameBut_trap h₃
  · exact h₃

theorem trapOrIrq_taken {n : ℕ} {c : Prop} [Decidable c]
    (h : (p.enableIrq && !s.main.irq.irqMask.getLsbD n && !s.main.irq.irqActive) = true) :
    (if c then trapOrIrq p s n w.main.cpuState w else w).main = w.main := by
  split
  · rw [trapOrIrq, if_pos h]
  · rfl

/-- A bus error taken as an interrupt leaves the state machine where it is. -/
theorem checks_taken (hill : p.catchIllinsn = true) (h : takesBuserror p s = true) :
    (checks p s i w).main = w.main := by
  unfold checks checksWith
  extract_lets m data w₁ w₂ w₃
  have h₁ : w₁.main = w.main := trapOrIrq_taken h
  have h₂ : w₂.main = w₁.main := trapOrIrq_taken h
  have h₃ : w₃.main = w₂.main := trapOrIrq_taken h
  rw [hill]
  exact h₃.trans (h₂.trans h₁)

theorem trapOrIrq_untaken {n : ℕ} {c : CpuState}
    (h : (p.enableIrq && !s.main.irq.irqMask.getLsbD n && !s.main.irq.irqActive) = false) :
    (trapOrIrq p s n c w).main.cpuState = .trap := by
  rw [trapOrIrq, if_neg (by rw [h]; decide)]

theorem trapOrIrq_of_trap {n : ℕ} {c : Prop} [Decidable c] (h : w.main.cpuState = .trap) :
    (if c then trapOrIrq p s n w.main.cpuState w else w).main.cpuState = .trap := by
  split
  · unfold trapOrIrq
    split
    · exact h
    · rfl
  · exact h

/-- A misaligned access that is not taken as an interrupt sends the core to `trap`. -/
theorem checks_misaligned (hmis : p.catchMisalign = true) (hr : i.resetn = true)
    (hw : s.main.memDoWdata = true) (hm : Misaligned s.main) (h : takesBuserror p s = false) :
    (checks p s i w).main.cpuState = .trap := by
  unfold checks checksWith
  extract_lets m data w₁ w₂ w₃
  have hdata : data = true := by
    show (p.catchMisalign && i.resetn && (s.main.memDoRdata || s.main.memDoWdata)) = true
    rw [hmis, hr, hw, Bool.or_true]
    rfl
  have h₂ : w₂.main.cpuState = .trap := by
    rcases hm with ⟨hsize, haddr⟩ | ⟨hsize, haddr⟩
    · have h₁ : w₁.main.cpuState = .trap := by
        have hcond : (data && m.memWordsize == 0 && m.regOp1.extractLsb' 0 2 != 0) = true := by
          rw [hdata, show m.memWordsize = 0 from hsize]
          simpa using haddr
        show (if _ then _ else _ : Work).main.cpuState = _
        rw [if_pos hcond]
        exact trapOrIrq_untaken h
      exact trapOrIrq_of_trap h₁
    · have hcond : (data && m.memWordsize == 1 && m.regOp1.getLsbD 0) = true := by
        rw [hdata, show m.memWordsize = 1 from hsize, show m.regOp1.getLsbD 0 = true from haddr]
        rfl
      show (if _ then _ else _ : Work).main.cpuState = _
      rw [if_pos hcond]
      exact trapOrIrq_untaken h
  have h₃ : w₃.main.cpuState = .trap := trapOrIrq_of_trap h₂
  split
  · rfl
  · exact h₃

/-! ## Only `stmem` asks for a write -/

theorem setWdata_ite {c : Prop} [Decidable c] {a b : Work} {v : Bool} (ha : a.setMemDoWdata = v)
    (hb : b.setMemDoWdata = v) : (if c then a else b).setMemDoWdata = v := by
  split
  · exact ha
  · exact hb

theorem setWdata_pcpiState : (pcpiState p s i w).setMemDoWdata = w.setMemDoWdata :=
  setWdata_ite rfl (setWdata_ite (setWdata_ite rfl rfl) rfl)

theorem setWdata_operandsState : (operandsState p s w).setMemDoWdata = w.setMemDoWdata :=
  setWdata_ite rfl (setWdata_ite rfl rfl)

theorem setWdata_fetchState : (fetchState p s w).setMemDoWdata = w.setMemDoWdata := by
  unfold fetchState
  dsimp only
  exact setWdata_ite rfl (setWdata_ite (setWdata_ite rfl rfl) (setWdata_ite (setWdata_ite rfl rfl) rfl))

theorem setWdata_ldRs1State : (ldRs1State p s i w).setMemDoWdata = w.setMemDoWdata := by
  unfold ldRs1State
  dsimp only
  refine setWdata_ite (setWdata_ite (setWdata_ite setWdata_pcpiState rfl) (setWdata_ite rfl rfl))
    (setWdata_ite rfl (setWdata_ite rfl (setWdata_ite rfl (setWdata_ite rfl (setWdata_ite rfl
    (setWdata_ite rfl (setWdata_ite rfl (setWdata_ite rfl (setWdata_ite rfl (setWdata_ite rfl
    (setWdata_ite setWdata_operandsState rfl)))))))))))

theorem setWdata_ldRs2State : (ldRs2State p s i w).setMemDoWdata = w.setMemDoWdata :=
  setWdata_ite setWdata_pcpiState setWdata_operandsState

theorem setWdata_ldmemState : (ldmemState s i w).setMemDoWdata = w.setMemDoWdata := by
  unfold ldmemState memoryDone
  dsimp only
  exact setWdata_ite (setWdata_ite (setWdata_ite (setWdata_ite rfl rfl) (setWdata_ite rfl rfl))
    (setWdata_ite (setWdata_ite rfl rfl) (setWdata_ite rfl rfl))) rfl

theorem setWdata_cpuStateCase (hc : s.main.cpuState ≠ .stmem) :
    (cpuStateCase p s i w).setMemDoWdata = w.setMemDoWdata := by
  unfold cpuStateCase
  cases h : s.main.cpuState
  · rfl
  · exact setWdata_fetchState
  · exact setWdata_ldRs1State
  · exact setWdata_ldRs2State
  · exact setWdata_ite rfl (setWdata_ite rfl rfl)
  · exact setWdata_ite rfl (setWdata_ite rfl rfl)
  · exact absurd h hc
  · exact setWdata_ldmemState

theorem Request.Ok.wdata_low {f : First} {r : Request} (h : r.Ok f) (htrap : r.cpuState ≠ .trap)
    (hstmem : r.cpuState ≠ .stmem) : r.wdata = false := by
  cases hc : r.cpuState <;> simp_all [Request.Ok]

/-- A write is requested in the state `stmem` only by that state itself. -/
theorem stmem_of_wdata (h : Inv s) (hr : i.resetn = true) (hc : (mainStep p s i).cpuState = .stmem)
    (hw : (mainStep p s i).memDoWdata = true) : s.main.cpuState = .stmem := by
  by_contra hne
  have htrap : s.main.cpuState ≠ .trap := by
    intro htrap
    have hreq := congrArg Request.cpuState (@mainStep_request_trap p s i hr htrap)
    have hstay : (mainStep p s i).cpuState = .trap := hreq.trans htrap
    exact absurd (hstay.symm.trans hc) (by decide)
  have hlow : s.main.memDoWdata = false := h.requests.wdata_low htrap hne
  have hcase : ((cpuStateCase p s i (defaults p s i)).request (memDone s i)).wdata = false := by
    have hset := setWdata_cpuStateCase (p := p) (i := i) (w := defaults p s i) hne
    have hkeep := (frame_cpuStateCase (p := p) (i := i) (w := defaults p s i) htrap).wdata
    have hkeep : (cpuStateCase p s i (defaults p s i)).main.memDoWdata = false := hkeep.trans hlow
    have hset : (cpuStateCase p s i (defaults p s i)).setMemDoWdata = false := hset
    rw [Work.request, hset, hkeep, Bool.and_false]
    rfl
  have hnext : (mainStep p s i).request.wdata = false := by
    rcases @mainStep_request p s i hr with heq | heq
    · rw [heq]
      exact hcase
    · rw [heq]
      exact hcase
  exact absurd (hnext.symm.trans hw) (by decide)

/-! ## The invariant -/

/-- The registers of a store that waits for its write. -/
structure Main.Kept (m m' : Main) : Prop where
  memWordsize : m'.memWordsize = m.memWordsize
  regOp1 : m'.regOp1 = m.regOp1
  irqMask : m'.irq.irqMask = m.irq.irqMask
  irqActive : m'.irq.irqActive = m.irq.irqActive

theorem mainStep_eq (hr : i.resetn = true) :
    mainStep p s i =
      finish p s i (checks p s i (irqInputs p s i (cpuStateCase p s i (defaults p s i)))) := by
  unfold mainStep
  rw [hr]
  rfl

theorem kept_stmemState (hw : s.main.memDoWdata = true) :
    w.main.Kept (stmemState p s i w).main := by
  have hite : ∀ {c : Prop} [Decidable c] {a b : Work}, w.main.Kept a.main → w.main.Kept b.main →
      w.main.Kept (if c then a else b).main := by
    intro c _ a b ha hb
    by_cases hc : c
    · rw [if_pos hc]; exact ha
    · rw [if_neg hc]; exact hb
  have htrace : w.main.Kept
      (if p.enableTrace then { w with main := { w.main with regOut := s.main.regOp2 } } else w).main :=
    hite ⟨rfl, rfl, rfl, rfl⟩ ⟨rfl, rfl, rfl, rfl⟩
  unfold stmemState memoryDone
  dsimp only
  rw [hw, Bool.not_true, if_neg Bool.false_ne_true]
  obtain ⟨h₁, h₂, h₃, h₄⟩ := htrace
  exact hite (hite ⟨h₁, h₂, h₃, h₄⟩ ⟨h₁, h₂, h₃, h₄⟩) ⟨h₁, h₂, h₃, h₄⟩

theorem kept_checks {m : Main} (h : m.Kept w.main) : m.Kept (checks p s i w).main := by
  obtain ⟨h₁, h₂, h₃, h₄⟩ := h
  rcases checks_sameBut (p := p) (s := s) (i := i) (w := w) with heq | heq
  · rw [heq]
    exact ⟨h₁, h₂, h₃, h₄⟩
  · rw [heq]
    exact ⟨h₁, h₂, h₃, h₄⟩

theorem kept_step (hr : i.resetn = true) (hc : s.main.cpuState = .stmem)
    (hw : s.main.memDoWdata = true) : s.main.Kept (mainStep p s i) := by
  have hcase : s.main.Kept (cpuStateCase p s i (defaults p s i)).main := by
    unfold cpuStateCase
    rw [hc]
    obtain ⟨h₁, h₂, h₃, h₄⟩ := kept_stmemState (p := p) (i := i) (w := defaults p s i) hw
    exact ⟨h₁, h₂, h₃, h₄⟩
  rw [← irqInputs_main (p := p) (s := s) (i := i)] at hcase
  obtain ⟨h₁, h₂, h₃, h₄⟩ := kept_checks (p := p) (s := s) (i := i) hcase
  rw [mainStep_eq hr]
  exact ⟨h₁, h₂, h₃, h₄⟩

theorem Main.Kept.misaligned {m m' : Main} (h : m.Kept m') (hm : Misaligned m') : Misaligned m := by
  rw [Misaligned, h.memWordsize, h.regOp1] at hm
  exact hm

/-- The interface is free for a misaligned store, unless its bus error is taken as an interrupt. -/
def StoreFree (p : Params) (s : State) : Prop :=
  s.main.cpuState = .stmem → s.main.memDoWdata = true → Misaligned s.main →
    s.mem.memState = .idle ∨ takesBuserror p s = true

/-- The transaction that `mem_done` ends was the prefetch. -/
theorem memState_of_done (h : Inv s) (hr : i.resetn = true) (hc : s.main.cpuState ≠ .trap)
    (hR : s.main.memDoRinst = true) (hdone : memDone s i = true) : (memStep s i).memState = .idle := by
  have htrap : s.main.trap = false := by
    rw [Bool.eq_false_iff]
    exact fun htrap => hc (h.trapped htrap)
  rw [memStep_memState hr htrap, hR]
  cases hs : s.mem.memState
  · rw [memDone, hs] at hdone
    simp at hdone
  · have hx : memXfer s i = true := by
      rw [memDone, hs] at hdone
      simp_all
    rw [hx]
    rfl
  · have hx : memXfer s i = true := by
      rw [memDone, hs] at hdone
      simp_all
    rw [hx]
    rfl
  · rfl

/-- Every cycle without reset leads to such a state: a request that is made ends the prefetch, and a
    request that stays has trapped. -/
theorem storeFree_step (hmis : p.catchMisalign = true) (h : Inv s) (hr : i.resetn = true) :
    StoreFree p (step p i s) := by
  intro hc hw hm
  have hc : (mainStep p s i).cpuState = .stmem := hc
  have hw : (mainStep p s i).memDoWdata = true := hw
  have hm : Misaligned (mainStep p s i) := hm
  have hstmem := stmem_of_wdata h hr hc hw
  have hok := h.requests
  simp only [Request.Ok, Main.request, hstmem] at hok
  cases hwd : s.main.memDoWdata
  · -- the cycle that asks for the write ends the prefetch
    left
    obtain ⟨hP, hR⟩ := hok.2.1 hwd
    have hdone : memDone s i = true := by
      by_contra hdone
      have hdone : memDone s i = false := by simpa using hdone
      have hreq : (mainStep p s i).request.wdata = false := by
        have hcase : ((cpuStateCase p s i (defaults p s i)).request (memDone s i)).wdata = false := by
          rw [cpuStateCase, hstmem]
          simp only [stmemState, hP, hdone]
          cases p.enableTrace <;> exact hwd
        rcases @mainStep_request p s i hr with heq | heq
        · rw [heq]
          exact hcase
        · rw [heq]
          exact hcase
      exact absurd (hreq.symm.trans hw) (by decide)
    exact memState_of_done h hr (by rw [hstmem]; decide) hR hdone
  · right
    have hkept := kept_step (p := p) hr hstmem hwd
    by_contra htaken
    have hnot : takesBuserror p s = false := by
      have heq : takesBuserror p (step p i s) = takesBuserror p s := by
        show (p.enableIrq && !(mainStep p s i).irq.irqMask.getLsbD irqBuserror
          && !(mainStep p s i).irq.irqActive) = _
        rw [hkept.irqMask, hkept.irqActive]
        rfl
      rw [heq] at htaken
      simpa using htaken
    have htrap : (mainStep p s i).cpuState = .trap := by
      rw [mainStep_eq hr]
      exact checks_misaligned hmis hr hwd (hkept.misaligned hm) hnot
    exact absurd (htrap.symm.trans hc) (by decide)

theorem checks_reset (hill : p.catchIllinsn = true) (hr : i.resetn = false) :
    (checks p s i w).main = w.main := by
  unfold checks checksWith
  rw [hill, hr]
  simp

theorem cpuState_reset (hill : p.catchIllinsn = true) (hr : i.resetn = false) :
    (mainStep p s i).cpuState = .fetch := by
  have hmain : (mainStep p s i).cpuState =
      (checks p s i (irqInputs p s i (resetState p (defaults p s i)))).main.cpuState := by
    unfold mainStep
    rw [hr]
    rfl
  rw [hmain, checks_reset hill hr, irqInputs_main, resetState]
  dsimp only
  split <;> rfl

theorem storeFree_run (hmis : p.catchMisalign = true) (hill : p.catchIllinsn = true)
    {env : ℕ → Inputs} {s₀ : State} {r n : ℕ} (hr : (env r).resetn = false) (hn : r < n) :
    StoreFree p (run (step p) env s₀ n) := by
  obtain ⟨m, rfl⟩ : ∃ m, n = m + 1 := ⟨n - 1, by omega⟩
  rw [run_succ]
  cases hres : (env m).resetn
  · intro hc
    exact absurd ((cpuState_reset hill hres).symm.trans hc) (by decide)
  · rcases Nat.eq_or_lt_of_le (Nat.le_of_lt_succ hn) with rfl | hlt
    · exact absurd (hr.symm.trans hres) (by decide)
    · exact storeFree_step hmis (inv_run hr hlt) hres

/-! ## The write of a store that traps -/

/-- In cycle `n` a word or half word store with a misaligned address sends the core to `trap`. -/
structure StoreTraps (st : ℕ → State) (n : ℕ) : Prop where
  stmem : (st n).main.cpuState = .stmem
  wdata : (st n).main.memDoWdata = true
  misaligned : Misaligned (st n).main
  traps : (st (n + 1)).main.cpuState = .trap

/-- From cycle `n` to the next reset there is neither a write pulse nor a write transaction. -/
def NoWrite (env : ℕ → Inputs) (st : ℕ → State) (n : ℕ) : Prop :=
  ∀ m, n ≤ m → (∀ k, n ≤ k → k < m → (env k).resetn = true) →
    memLaWrite (st m) (env m) = false ∧ ((st m).mem.memValid = true → (st m).mem.memWstrb = 0)

theorem cpuState_stmemState (hc : w.main.cpuState = .stmem) :
    (stmemState p s i w).main.cpuState ≠ .trap := by
  have hite : ∀ {c : Prop} [Decidable c] {a b : Work}, a.main.cpuState ≠ .trap →
      b.main.cpuState ≠ .trap → (if c then a else b).main.cpuState ≠ .trap := by
    intro c _ a b ha hb
    by_cases hc : c
    · rw [if_pos hc]; exact ha
    · rw [if_neg hc]; exact hb
  have hstay : w.main.cpuState ≠ .trap := by
    rw [hc]
    decide
  have htrace : (if p.enableTrace then { w with main := { w.main with regOut := s.main.regOp2 } }
      else w).main.cpuState ≠ .trap := hite hstay hstay
  unfold stmemState memoryDone
  dsimp only
  exact hite (hite (by simp) (hite htrace htrace)) htrace

/-- The pulse of the store comes in the cycle in which the core traps. -/
theorem write_of_storeTraps (hmis : p.catchMisalign = true) (hill : p.catchIllinsn = true)
    {env : ℕ → Inputs} {s₀ : State} {r n : ℕ} (hr : (env r).resetn = false) (hn : r < n)
    (h : StoreTraps (run (step p) env s₀) n) :
    memLaWrite (run (step p) env s₀ n) (env n) = true := by
  have htraps : (mainStep p (run (step p) env s₀ n) (env n)).cpuState = .trap := by
    have htraps := h.traps
    rw [run_succ] at htraps
    exact htraps
  have hres : (env n).resetn = true := by
    by_contra hres
    have hfetch := cpuState_reset (s := run (step p) env s₀ n) hill (by simpa using hres)
    exact absurd (hfetch.symm.trans htraps) (by decide)
  have hidle : (run (step p) env s₀ n).mem.memState = .idle := by
    rcases storeFree_run hmis hill hr hn h.stmem h.wdata h.misaligned with hidle | htaken
    · exact hidle
    · have hstay : (mainStep p (run (step p) env s₀ n) (env n)).cpuState =
          (cpuStateCase p (run (step p) env s₀ n) (env n)
            (defaults p (run (step p) env s₀ n) (env n))).main.cpuState := by
        rw [mainStep_eq hres]
        show (checks p _ _ _).main.cpuState = _
        rw [checks_taken hill htaken, irqInputs_main]
      rw [cpuStateCase, h.stmem] at hstay
      exact absurd (hstay.symm.trans htraps) (cpuState_stmemState h.stmem)
  rw [memLaWrite, hres, hidle, h.wdata]
  rfl

theorem memLaWstrb_ne_zero (hm : Misaligned s.main) : memLaWstrb s i ≠ 0 := by
  rcases hm with ⟨hsize, -⟩ | ⟨hsize, -⟩
  · rw [memLaWstrb, hsize]
    show (0b1111#4 : BitVec 4) ≠ 0
    decide
  · rw [memLaWstrb, hsize]
    show (if s.main.regOp1.getLsbD 1 then 0b1100#4 else 0b0011#4) ≠ 0
    split <;> decide

/-- A store that traps always writes: the pulse comes in the cycle of the check, and the transaction
    with the aligned address and the byte enables of the store in the next one. -/
theorem trapping_store_writes (p : Params) (hmis : p.catchMisalign = true)
    (hill : p.catchIllinsn = true) (env : ℕ → Inputs) (s₀ : State) (r n : ℕ)
    (hr : (env r).resetn = false) (hn : r < n) (h : StoreTraps (run (step p) env s₀) n) :
    ¬NoWrite env (run (step p) env s₀) n
      ∧ memLaWrite (run (step p) env s₀ n) (env n) = true
      ∧ (run (step p) env s₀ (n + 1)).mem.memValid = true
      ∧ (run (step p) env s₀ (n + 1)).mem.memAddr = memLaAddr (run (step p) env s₀ n)
      ∧ (run (step p) env s₀ (n + 1)).mem.memWdata = memLaWdata (run (step p) env s₀ n) (env n)
      ∧ (run (step p) env s₀ (n + 1)).mem.memWstrb ≠ 0 := by
  have hwrite := write_of_storeTraps hmis hill hr hn h
  have hpulse : memLaPulse (run (step p) env s₀ n) (env n) = true := by
    rw [memLaPulse, hwrite, Bool.or_true]
  obtain ⟨-, hvalid, haddr, -, hbus⟩ := memStep_of_pulse (inv_run hr hn) hpulse
  obtain ⟨hstrb, hdata⟩ := hbus hwrite
  rw [run_succ]
  refine ⟨fun hno => ?_, hwrite, hvalid, haddr, hdata, fun hzero => ?_⟩
  · have hlow := (hno n le_rfl fun k hk hlt => absurd hlt (Nat.not_lt.2 hk)).1
    exact absurd (hlow.symm.trans hwrite) (by decide)
  · exact memLaWstrb_ne_zero h.misaligned (hstrb.symm.trans hzero)

/-- One cycle of reset and a memory that answers at once with `sw x0, 1(x0)`. -/
def storeWord : ℕ → Inputs :=
  fun k => { (default : Inputs) with resetn := k != 0, memReady := true, memRdata := 0x000020A3 }

theorem storeTraps_storeWord : StoreTraps (run (step {}) storeWord default) 7 where
  stmem := by decide +kernel
  wdata := by decide +kernel
  misaligned := .inl (by decide +kernel)
  traps := by decide +kernel

theorem trapping_store_writes_storeWord :
    (run (step {}) storeWord default 8).mem.memWstrb ≠ 0 :=
  (trapping_store_writes {} rfl rfl storeWord default 0 7 rfl (by decide)
    storeTraps_storeWord).2.2.2.2.2

theorem not_noWrite_storeWord :
    StoreTraps (run (step {}) storeWord default) 7
      ∧ ¬NoWrite storeWord (run (step {}) storeWord default) 7 := by
  refine ⟨storeTraps_storeWord, fun hno => ?_⟩
  have hlow := (hno 7 le_rfl fun k hk hlt => absurd hlt (Nat.not_lt.2 hk)).1
  have hwrite : memLaWrite (run (step {}) storeWord default 7) (storeWord 7) = true := by
    decide +kernel
  exact absurd (hlow.symm.trans hwrite) (by decide)

end PicoSoc.Picorv32
