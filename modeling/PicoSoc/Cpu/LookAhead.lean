import PicoSoc.Cpu.Core
import PicoSoc.Library.Clocked

set_option autoImplicit false

/-! # The look-ahead interface

Which requests each state of the main state machine can have (`Request.Ok`), and what follows from
it for the look-ahead pulses and the bus transactions. -/

namespace PicoSoc.Picorv32

open Clocked

variable (p : Params) (s : State) (i : Inputs)

/-! ## Requests -/

/-- The state of the main state machine and its four requests. -/
structure Request where
  cpuState : CpuState
  prefetch : Bool
  rinst : Bool
  rdata : Bool
  wdata : Bool
  trigger : Bool

def Main.request (m : Main) : Request :=
  ⟨m.cpuState, m.memDoPrefetch, m.memDoRinst, m.memDoRdata, m.memDoWdata, m.decoderTrigger⟩

/-- What `finish` makes of the requests, `done` telling whether `mem_done` is high. -/
def Work.request (done : Bool) (w : Work) : Request where
  cpuState := w.main.cpuState
  prefetch := !done && w.main.memDoPrefetch
  rinst := w.setMemDoRinst || (!done && w.main.memDoRinst)
  rdata := w.setMemDoRdata || (!done && w.main.memDoRdata)
  wdata := w.setMemDoWdata || (!done && w.main.memDoWdata)
  trigger := w.main.decoderTrigger

def Request.trapped (r : Request) : Request := { r with cpuState := .trap }

/-- A write request excludes the others. -/
def Request.Exclusive (r : Request) : Prop :=
  r.wdata = true → r.prefetch = false ∧ r.rinst = false ∧ r.rdata = false

/-- The requests each state can have, `f` being the decoded instruction. -/
def Request.Ok (f : First) (r : Request) : Prop :=
  match r.cpuState with
  | .trap => r.Exclusive
  | .fetch => r.rdata = false ∧ r.wdata = false ∧ (r.trigger = true → r.rinst = false)
  | .ldRs1 | .ldRs2 =>
    (r.rinst = false ∧ r.rdata = false ∧ r.wdata = false)
      ∧ (f.instrJalr = false → f.instrRetirq = false → r.prefetch = true)
  | .exec | .shift => r.rdata = false ∧ r.wdata = false
  | .stmem =>
    r.rdata = false ∧ (r.wdata = false → r.prefetch = true ∧ r.rinst = true)
      ∧ (r.wdata = true → r.prefetch = false ∧ r.rinst = false)
  | .ldmem =>
    r.wdata = false ∧ (r.rdata = false → r.prefetch = true ∧ r.rinst = true)
      ∧ (r.rdata = true → r.prefetch = false ∧ r.rinst = false)

theorem Request.Ok.exclusive {f : First} {r : Request} (h : r.Ok f) : r.Exclusive := by
  intro hw
  cases hc : r.cpuState <;> simp_all [Request.Ok, Request.Exclusive]

theorem Request.Exclusive.ok {f : First} {r : Request} (h : r.Exclusive) (hc : r.cpuState = .trap) :
    r.Ok f := by
  unfold Request.Ok
  rw [hc]
  exact h

theorem Request.Ok.trapped {f : First} {r : Request} (h : r.Ok f) (f' : First) :
    r.trapped.Ok f' :=
  h.exclusive

/-- A load or a store is neither of the two instructions that do not prefetch. -/
structure First.Coherent (f : First) : Prop where
  load : f.isLbLhLwLbuLhu = true → f.instrJalr = false ∧ f.instrRetirq = false
  store : f.isSbShSw = true → f.instrJalr = false ∧ f.instrRetirq = false

theorem decodeFirst_coherent (w : BitVec 32) : (decodeFirst p w).Coherent := by
  constructor <;> intro h <;> simp_all [decodeFirst, isIrqOpcode]

theorem firstStep_of_resetn (hr : i.resetn = true) :
    firstStep p s i =
      if s.main.memDoRinst && memDone s i then decodeFirst p (memRdataLatched p s i)
      else s.first := by
  simp [firstStep, hr]

theorem firstStep_of_rinst_low (hr : i.resetn = true) (h : s.main.memDoRinst = false) :
    firstStep p s i = s.first := by
  simp [firstStep_of_resetn p s i hr, h]

theorem firstStep_coherent (hr : i.resetn = true) (h : s.first.Coherent) :
    (firstStep p s i).Coherent := by
  rw [firstStep_of_resetn p s i hr]
  split
  · exact decodeFirst_coherent p _
  · exact h

/-! ## The parts of the main state machine -/

/-- The requests before the case distinction. -/
structure Work.Starts (w : Work) : Prop where
  cpuState : w.main.cpuState = s.main.cpuState
  prefetch : w.main.memDoPrefetch = s.main.memDoPrefetch
  rinst : w.main.memDoRinst = s.main.memDoRinst
  rdata : w.main.memDoRdata = s.main.memDoRdata
  wdata : w.main.memDoWdata = s.main.memDoWdata
  trigger : w.main.decoderTrigger = (s.main.memDoRinst && memDone s i)
  setRinst : w.setMemDoRinst = false
  setRdata : w.setMemDoRdata = false
  setWdata : w.setMemDoWdata = false

theorem defaults_starts : (defaults p s i).Starts s i := by
  constructor <;> rfl

variable {p s i} {w : Work} {f : First} {done : Bool}

/-- A choice of the source satisfies what both of its branches satisfy. -/
theorem ok_ite {c : Prop} [Decidable c] {a b : Work} (ha : c → (a.request done).Ok f)
    (hb : ¬c → (b.request done).Ok f) : ((if c then a else b).request done).Ok f := by
  by_cases hc : c
  · rw [if_pos hc]; exact ha hc
  · rw [if_neg hc]; exact hb hc

theorem ok_trapOrIrq {n : ℕ} {c : CpuState} (h : (w.request done).Ok f)
    (hc : ({ w.request done with cpuState := c } : Request).Ok f) :
    ((trapOrIrq p s n c w).request done).Ok f := by
  unfold trapOrIrq
  exact ok_ite (fun _ => hc) (fun _ => h.trapped f)

/-- In the states that read the registers only a prefetch is requested. -/
structure Work.Reading (s : State) (w : Work) : Prop where
  prefetch : w.main.memDoPrefetch = s.main.memDoPrefetch
  rinst : w.main.memDoRinst = false
  rdata : w.main.memDoRdata = false
  wdata : w.main.memDoWdata = false
  setRinst : w.setMemDoRinst = false
  setRdata : w.setMemDoRdata = false
  setWdata : w.setMemDoWdata = false

/-- The instruction being executed asked for the prefetch, unless it is one of the two that do not. -/
def Prefetching (s : State) : Prop :=
  s.first.instrJalr = false → s.first.instrRetirq = false → s.main.memDoPrefetch = true

theorem Work.Reading.ok (hw : w.Reading s) (hp : Prefetching s)
    (hc : w.main.cpuState ≠ .stmem ∧ w.main.cpuState ≠ .ldmem) :
    (w.request false).Ok s.first := by
  obtain ⟨h₁, h₂, h₃, h₄, h₅, h₆, h₇⟩ := hw
  cases hw : w.main.cpuState <;>
    simp_all [Work.request, Request.Ok, Request.Exclusive, Prefetching]

theorem ok_pcpiState (hw : w.Reading s) (hp : Prefetching s)
    (hc : w.main.cpuState = .ldRs1 ∨ w.main.cpuState = .ldRs2)
    (ht : w.main.decoderTrigger = false) :
    ((pcpiState p s i w).request false).Ok s.first := by
  obtain ⟨h₁, h₂, h₃, h₄, h₅, h₆, h₇⟩ := hw
  unfold pcpiState
  refine ok_ite (fun _ => ?_) (fun _ => ok_ite (fun _ => ?_) (fun _ => ?_))
  · simp [Work.request, Request.Ok, *]
  · refine ok_trapOrIrq (Work.Reading.ok ⟨h₁, h₂, h₃, h₄, h₅, h₆, h₇⟩ hp ?_) ?_
    · rcases hc with hc | hc <;> simp [hc]
    · simp [Work.request, Request.Ok, *]
  · refine Work.Reading.ok ⟨h₁, h₂, h₃, h₄, h₅, h₆, h₇⟩ hp ?_
    rcases hc with hc | hc <;> simp [hc]

theorem ok_operandsState (hw : w.Reading s) (hp : Prefetching s) (hf : s.first.Coherent) :
    ((operandsState p s w).request false).Ok s.first := by
  obtain ⟨h₁, h₂, h₃, h₄, h₅, h₆, h₇⟩ := hw
  unfold operandsState
  dsimp only
  refine ok_ite (fun hs => ?_) (fun _ => ok_ite (fun _ => ?_) (fun _ => ?_))
  · have hP := hp (hf.store hs).1 (hf.store hs).2
    simp [Work.request, Request.Ok, *]
  · simp [Work.request, Request.Ok, *]
  · by_cases hslow : (p.twoCycleAlu || (p.twoCycleCompare && s.first.isBeqBneBltBgeBltuBgeu)) = true
    · rw [if_pos hslow]
      simp [Work.request, Request.Ok, *]
    · rw [if_neg hslow]
      simp [Work.request, Request.Ok, *]

theorem ok_toExec {op1 op2 : BitVec 32} (hw : w.Reading s) :
    ((toExec p s op1 op2 w).request false).Ok s.first := by
  obtain ⟨h₁, h₂, h₃, h₄, h₅, h₆, h₇⟩ := hw
  unfold toExec
  by_cases halu : p.twoCycleAlu = true
  · simp [Work.request, Request.Ok, *]
  · simp [Work.request, Request.Ok, *]

theorem ok_toFetch {v : BitVec 32} (hw : w.Reading s) (ht : w.main.decoderTrigger = false) :
    ((toFetch v w).request false).Ok s.first := by
  obtain ⟨h₁, h₂, h₃, h₄, h₅, h₆, h₇⟩ := hw
  simp [toFetch, Work.request, Request.Ok, *]

theorem ok_ldRs1State (hw : w.Reading s) (hp : Prefetching s) (hf : s.first.Coherent)
    (hc : w.main.cpuState = .ldRs1) (ht : w.main.decoderTrigger = false) :
    ((ldRs1State p s i w).request false).Ok s.first := by
  obtain ⟨h₁, h₂, h₃, h₄, h₅, h₆, h₇⟩ := hw
  unfold ldRs1State
  dsimp only
  refine ok_ite (fun _ => ok_ite (fun _ => ok_ite (fun _ => ?_) (fun _ => ?_)) (fun _ => ?_))
    (fun _ => ok_ite (fun _ => ?_) (fun _ => ok_ite (fun _ => ?_) (fun _ => ok_ite (fun _ => ?_)
    (fun _ => ok_ite (fun _ => ?_) (fun _ => ok_ite (fun _ => ?_) (fun _ => ok_ite (fun _ => ?_)
    (fun _ => ok_ite (fun _ => ?_) (fun _ => ok_ite (fun hl => ?_) (fun _ => ok_ite (fun _ => ?_)
    (fun _ => ok_ite (fun _ => ?_) (fun _ => ok_ite (fun _ => ?_) (fun _ => ?_))))))))))))
  · exact ok_pcpiState ⟨h₁, h₂, h₃, h₄, h₅, h₆, h₇⟩ hp (.inl hc) ht
  · exact Work.Reading.ok ⟨h₁, h₂, h₃, h₄, h₅, h₆, h₇⟩ hp ⟨by simp, by simp⟩
  · refine ok_trapOrIrq (Work.Reading.ok ⟨h₁, h₂, h₃, h₄, h₅, h₆, h₇⟩ hp ?_) ?_
    · simp [hc]
    · simp [Work.request, Request.Ok, *]
  · exact ok_toFetch ⟨h₁, h₂, h₃, h₄, h₅, h₆, h₇⟩ ht
  · exact ok_toExec ⟨h₁, h₂, h₃, h₄, h₅, h₆, h₇⟩
  · exact ok_toFetch ⟨h₁, h₂, h₃, h₄, h₅, h₆, h₇⟩ ht
  · exact ok_toFetch ⟨h₁, h₂, h₃, h₄, h₅, h₆, h₇⟩ ht
  · exact ok_toFetch ⟨h₁, h₂, h₃, h₄, h₅, h₆, h₇⟩ ht
  · exact ok_toFetch ⟨h₁, h₂, h₃, h₄, h₅, h₆, h₇⟩ ht
  · exact ok_toFetch ⟨h₁, h₂, h₃, h₄, h₅, h₆, h₇⟩ ht
  · have hload : s.first.isLbLhLwLbuLhu = true := by simp_all
    have hP := hp (hf.load hload).1 (hf.load hload).2
    simp [Work.request, Request.Ok, *]
  · exact Work.Reading.ok ⟨h₁, h₂, h₃, h₄, h₅, h₆, h₇⟩ hp ⟨by simp, by simp⟩
  · exact ok_toExec ⟨h₁, h₂, h₃, h₄, h₅, h₆, h₇⟩
  · exact ok_operandsState ⟨h₁, h₂, h₃, h₄, h₅, h₆, h₇⟩ hp hf
  · exact Work.Reading.ok ⟨h₁, h₂, h₃, h₄, h₅, h₆, h₇⟩ hp ⟨by simp, by simp⟩

theorem ok_ldRs2State (hw : w.Reading s) (hp : Prefetching s) (hf : s.first.Coherent)
    (hc : w.main.cpuState = .ldRs2) (ht : w.main.decoderTrigger = false) :
    ((ldRs2State p s i w).request false).Ok s.first := by
  obtain ⟨h₁, h₂, h₃, h₄, h₅, h₆, h₇⟩ := hw
  unfold ldRs2State
  dsimp only
  refine ok_ite (fun _ => ?_) (fun _ => ?_)
  · exact ok_pcpiState ⟨h₁, h₂, h₃, h₄, h₅, h₆, h₇⟩ hp (.inr hc) ht
  · exact ok_operandsState ⟨h₁, h₂, h₃, h₄, h₅, h₆, h₇⟩ hp hf

theorem memDone_of_quiet (hr : s.main.memDoRinst = false) (hd : s.main.memDoRdata = false)
    (hw : s.main.memDoWdata = false) : memDone s i = false := by
  simp [memDone, hr, hd, hw]

theorem ok_fetchState (hw : w.Starts s i) (hr : i.resetn = true)
    (hs : s.main.request.Ok s.first) (hc : s.main.cpuState = .fetch) :
    ((fetchState p s w).request (memDone s i)).Ok (firstStep p s i) := by
  obtain ⟨h₁, h₂, h₃, h₄, h₅, h₆, h₇, h₈, h₉⟩ := hw
  obtain ⟨hd, hwd, ht⟩ : s.main.memDoRdata = false ∧ s.main.memDoWdata = false
      ∧ (s.main.decoderTrigger = true → s.main.memDoRinst = false) := by
    simpa [Request.Ok, Main.request, hc] using hs
  have hstay : ∀ w' : Work, w'.main.cpuState = .fetch → w'.main.memDoRdata = false →
      w'.main.memDoWdata = false → w'.setMemDoRinst = false → w'.setMemDoRdata = false →
      w'.setMemDoWdata = false → w'.main.decoderTrigger = (s.main.memDoRinst && memDone s i) →
      (w'.request (memDone s i)).Ok (firstStep p s i) := by
    intro w' h₁ h₂ h₃ h₄ h₅ h₆ h₇
    simp only [Work.request, Request.Ok, h₁, h₂, h₃, h₄, h₅, h₆, h₇]
    simp
    intro _ hdone
    simp [hdone]
  unfold fetchState
  dsimp only
  refine ok_ite (fun _ => ?_) (fun _ => ok_ite (fun _ => ok_ite (fun _ => ?_) (fun _ => ?_))
    (fun _ => ok_ite (fun htrig => ok_ite (fun _ => ?_) (fun _ => ?_)) (fun _ => ?_)))
  · apply hstay <;> simp only [*]
  · apply hstay <;> simp only [*]
  · apply hstay <;> simp only [*]
  · apply hstay <;> simp only [*]
  · have hdone : memDone s i = false := memDone_of_quiet (ht htrig) hd hwd
    rw [hdone, firstStep_of_rinst_low p s i hr (ht htrig)]
    simp [Work.request, Request.Ok, *]
    exact fun hj hq => ⟨hj, hq⟩
  · apply hstay <;> simp only [*]

theorem ok_execState (hw : w.Starts s i) (hs : s.main.request.Ok s.first)
    (hc : s.main.cpuState = .exec) : ((execState p s i w).request (memDone s i)).Ok f := by
  obtain ⟨h₁, h₂, h₃, h₄, h₅, h₆, h₇, h₈, h₉⟩ := hw
  obtain ⟨hd, hwd⟩ : s.main.memDoRdata = false ∧ s.main.memDoWdata = false := by
    simpa [Request.Ok, Main.request, hc] using hs
  unfold execState
  dsimp only
  refine ok_ite (fun _ => ?_) (fun _ => ok_ite (fun _ => ?_) (fun _ => ?_))
  · simp [Work.request, Request.Ok, *]
  · cases hdone : memDone s i
    · simp [Work.request, Request.Ok, *]
    · simp [Work.request, Request.Ok, *]
      exact fun h _ => h
  · cases hdone : memDone s i <;> simp [Work.request, Request.Ok, *]

theorem ok_shiftState (hw : w.Starts s i) (hs : s.main.request.Ok s.first)
    (hc : s.main.cpuState = .shift) : ((shiftState p s w).request (memDone s i)).Ok f := by
  obtain ⟨h₁, h₂, h₃, h₄, h₅, h₆, h₇, h₈, h₉⟩ := hw
  obtain ⟨hd, hwd⟩ : s.main.memDoRdata = false ∧ s.main.memDoWdata = false := by
    simpa [Request.Ok, Main.request, hc] using hs
  unfold shiftState
  dsimp only
  refine ok_ite (fun _ => ?_) (fun _ => ok_ite (fun _ => ?_) (fun _ => ?_))
  · cases hdone : memDone s i <;> simp [Work.request, Request.Ok, *]
  · simp [Work.request, Request.Ok, *]
  · simp [Work.request, Request.Ok, *]

theorem ok_stmemState (hw : w.Starts s i) (hs : s.main.request.Ok s.first)
    (hc : s.main.cpuState = .stmem) : ((stmemState p s i w).request (memDone s i)).Ok f := by
  obtain ⟨h₁, h₂, h₃, h₄, h₅, h₆, h₇, h₈, h₉⟩ := hw
  obtain ⟨hd, hwait, hwrite⟩ : s.main.memDoRdata = false
      ∧ (s.main.memDoWdata = false → s.main.memDoPrefetch = true ∧ s.main.memDoRinst = true)
      ∧ (s.main.memDoWdata = true → s.main.memDoPrefetch = false ∧ s.main.memDoRinst = false) := by
    simpa [Request.Ok, Main.request, hc] using hs
  cases hwd : s.main.memDoWdata
  · obtain ⟨hP, hR⟩ := hwait hwd
    cases hdone : memDone s i <;> cases htr : p.enableTrace <;>
      simp [stmemState, memoryDone, Work.request, Request.Ok, *]
  · obtain ⟨hP, hR⟩ := hwrite hwd
    cases hdone : memDone s i <;> cases htr : p.enableTrace <;>
      simp [stmemState, memoryDone, Work.request, Request.Ok, *]

theorem ok_ldmemState (hw : w.Starts s i) (hs : s.main.request.Ok s.first)
    (hc : s.main.cpuState = .ldmem) : ((ldmemState s i w).request (memDone s i)).Ok f := by
  obtain ⟨h₁, h₂, h₃, h₄, h₅, h₆, h₇, h₈, h₉⟩ := hw
  obtain ⟨hwd, hwait, hread⟩ : s.main.memDoWdata = false
      ∧ (s.main.memDoRdata = false → s.main.memDoPrefetch = true ∧ s.main.memDoRinst = true)
      ∧ (s.main.memDoRdata = true → s.main.memDoPrefetch = false ∧ s.main.memDoRinst = false) := by
    simpa [Request.Ok, Main.request, hc] using hs
  cases hd : s.main.memDoRdata
  · obtain ⟨hP, hR⟩ := hwait hd
    cases hdone : memDone s i <;> simp [ldmemState, memoryDone, Work.request, Request.Ok, *]
  · obtain ⟨hP, hR⟩ := hread hd
    cases hdone : memDone s i <;> simp [ldmemState, memoryDone, Work.request, Request.Ok, *]

/-! ## The whole cycle -/

theorem irqInputs_main : (irqInputs p s i w).main = w.main := by
  unfold irqInputs
  split <;> rfl

theorem irqInputs_request : (irqInputs p s i w).request done = w.request done := by
  unfold irqInputs
  split <;> rfl

/-- The requests of `r`, or those with the core sent to the state `trap`. -/
def Request.OrTrapped (r r' : Request) : Prop := r' = r ∨ r' = r.trapped

theorem orTrapped_trapOrIrq {r : Request} {c : Prop} [Decidable c] {n : ℕ}
    (h : r.OrTrapped (w.request done)) :
    r.OrTrapped ((if c then trapOrIrq p s n w.main.cpuState w else w).request done) := by
  have htrap : r.OrTrapped (w.request done).trapped := by
    rcases h with h | h <;> rw [h] <;> exact .inr rfl
  split
  · unfold trapOrIrq
    split
    · exact h
    · exact htrap
  · exact h

theorem checks_request : (w.request done).OrTrapped ((checks p s i w).request done) := by
  unfold checks checksWith
  extract_lets m data w₁ w₂ w₃
  have h₁ : (w.request done).OrTrapped (w₁.request done) := orTrapped_trapOrIrq (.inl rfl)
  have h₂ : (w.request done).OrTrapped (w₂.request done) := orTrapped_trapOrIrq h₁
  have h₃ : (w.request done).OrTrapped (w₃.request done) := orTrapped_trapOrIrq h₂
  split
  · have htrap : (w.request done).OrTrapped (w₃.request done).trapped := by
      rcases h₃ with h | h <;> rw [h] <;> exact .inr rfl
    exact htrap
  · exact h₃

theorem finish_request :
    (finish p s i w).request = w.request (!i.resetn || memDone s i) := by
  unfold finish finishWith Main.request Work.request
  cases memDone s i <;> cases i.resetn <;> simp

/-- The requests after a cycle without reset. -/
theorem mainStep_request (hr : i.resetn = true) :
    ((cpuStateCase p s i (defaults p s i)).request (memDone s i)).OrTrapped
      (mainStep p s i).request := by
  have hmain : (mainStep p s i).request
      = (checks p s i (irqInputs p s i (cpuStateCase p s i (defaults p s i)))).request
          (memDone s i) := by
    unfold mainStep
    rw [finish_request]
    simp [hr]
  rw [hmain, ← irqInputs_request]
  exact checks_request

/-- The cycle from a trapped core. -/
theorem mainStep_request_trap (hr : i.resetn = true) (hc : s.main.cpuState = .trap) :
    (mainStep p s i).request = ((defaults p s i).request (memDone s i)) := by
  have h := @mainStep_request p s i hr
  have hcase : (cpuStateCase p s i (defaults p s i)).request (memDone s i)
      = (defaults p s i).request (memDone s i) := by
    unfold cpuStateCase
    rw [hc]
    rfl
  have htrapped : ((defaults p s i).request (memDone s i)).trapped
      = (defaults p s i).request (memDone s i) := by
    have : (defaults p s i).main.cpuState = .trap := hc
    simp [Request.trapped, Work.request, this]
  rw [hcase] at h
  rcases h with h | h
  · exact h
  · rw [h, htrapped]

/-! ## What only `finish` and the state `trap` change -/

/-- The output `trap` and the write request are as before. -/
structure Work.Frame (w w' : Work) : Prop where
  trap : w'.main.trap = w.main.trap
  wdata : w'.main.memDoWdata = w.main.memDoWdata

theorem frame_ite {c : Prop} [Decidable c] {w a b : Work} (ha : w.Frame a) (hb : w.Frame b) :
    w.Frame (if c then a else b) := by
  by_cases hc : c
  · rw [if_pos hc]; exact ha
  · rw [if_neg hc]; exact hb

theorem frame_trapOrIrq {n : ℕ} {c : CpuState} {v : Work} (h : w.Frame v) :
    w.Frame (trapOrIrq p s n c v) :=
  frame_ite ⟨h.trap, h.wdata⟩ ⟨h.trap, h.wdata⟩

theorem frame_pcpiState {v : Work} (h : w.Frame v) : w.Frame (pcpiState p s i v) :=
  frame_ite ⟨h.trap, h.wdata⟩ (frame_ite (frame_trapOrIrq ⟨h.trap, h.wdata⟩) ⟨h.trap, h.wdata⟩)

theorem frame_operandsState {v : Work} (h : w.Frame v) : w.Frame (operandsState p s v) := by
  refine frame_ite ⟨h.trap, h.wdata⟩ (frame_ite ⟨h.trap, h.wdata⟩ ?_)
  constructor
  · by_cases hslow : (p.twoCycleAlu || (p.twoCycleCompare && s.first.isBeqBneBltBgeBltuBgeu)) = true
    · rw [if_pos hslow]; exact h.trap
    · rw [if_neg hslow]; exact h.trap
  · by_cases hslow : (p.twoCycleAlu || (p.twoCycleCompare && s.first.isBeqBneBltBgeBltuBgeu)) = true
    · rw [if_pos hslow]; exact h.wdata
    · rw [if_neg hslow]; exact h.wdata

theorem frame_toExec {op1 op2 : BitVec 32} {v : Work} (h : w.Frame v) :
    w.Frame (toExec p s op1 op2 v) := by
  unfold toExec
  cases p.twoCycleAlu <;> exact ⟨h.trap, h.wdata⟩

theorem frame_ldRs1State : w.Frame (ldRs1State p s i w) := by
  unfold ldRs1State
  dsimp only
  refine frame_ite (frame_ite (frame_ite (frame_pcpiState ?_) ?_) (frame_trapOrIrq ?_))
    (frame_ite ?_ (frame_ite (frame_toExec ?_) (frame_ite ?_ (frame_ite ?_ (frame_ite ?_
    (frame_ite ?_ (frame_ite ?_ (frame_ite ?_ (frame_ite ?_ (frame_ite (frame_toExec ?_)
    (frame_ite (frame_operandsState ?_) ?_)))))))))))
  all_goals exact ⟨rfl, rfl⟩

theorem frame_ldRs2State : w.Frame (ldRs2State p s i w) :=
  frame_ite (frame_pcpiState ⟨rfl, rfl⟩) (frame_operandsState ⟨rfl, rfl⟩)

theorem frame_fetchState : w.Frame (fetchState p s w) := by
  unfold fetchState
  dsimp only
  exact frame_ite ⟨rfl, rfl⟩ (frame_ite (frame_ite ⟨rfl, rfl⟩ ⟨rfl, rfl⟩)
    (frame_ite (frame_ite ⟨rfl, rfl⟩ ⟨rfl, rfl⟩) ⟨rfl, rfl⟩))

theorem frame_execState : w.Frame (execState p s i w) :=
  frame_ite ⟨rfl, rfl⟩ (frame_ite ⟨rfl, rfl⟩ ⟨rfl, rfl⟩)

theorem frame_shiftState : w.Frame (shiftState p s w) :=
  frame_ite ⟨rfl, rfl⟩ (frame_ite ⟨rfl, rfl⟩ ⟨rfl, rfl⟩)

theorem frame_memoryDone {v : Work} (h : w.Frame v) : w.Frame (memoryDone s i v) :=
  frame_ite ⟨h.trap, h.wdata⟩ h

theorem frame_stmemState : w.Frame (stmemState p s i w) := by
  have htrace : w.Frame
      (if p.enableTrace then { w with main := { w.main with regOut := s.main.regOp2 } } else w) :=
    frame_ite ⟨rfl, rfl⟩ ⟨rfl, rfl⟩
  unfold stmemState
  exact frame_ite (frame_memoryDone (frame_ite ⟨htrace.trap, htrace.wdata⟩ htrace)) htrace

theorem frame_ldmemState : w.Frame (ldmemState s i w) := by
  unfold ldmemState
  dsimp only
  refine frame_ite (frame_memoryDone ?_) ⟨rfl, rfl⟩
  by_cases hd : (!s.main.memDoRdata) = true
  · rw [if_pos hd]
    exact frame_ite ⟨rfl, rfl⟩ ⟨rfl, rfl⟩
  · rw [if_neg hd]
    exact frame_ite ⟨rfl, rfl⟩ ⟨rfl, rfl⟩

theorem frame_cpuStateCase (hc : s.main.cpuState ≠ .trap) : w.Frame (cpuStateCase p s i w) := by
  unfold cpuStateCase
  cases h : s.main.cpuState
  · exact absurd h hc
  · exact frame_fetchState
  · exact frame_ldRs1State
  · exact frame_ldRs2State
  · exact frame_execState
  · exact frame_shiftState
  · exact frame_stmemState
  · exact frame_ldmemState

theorem checks_trap : (checks p s i w).main.trap = w.main.trap := by
  have h : w.Frame (checks p s i w) := by
    unfold checks checksWith
    extract_lets m data w₁ w₂ w₃
    have h₁ : w.Frame w₁ := frame_ite (frame_trapOrIrq ⟨rfl, rfl⟩) ⟨rfl, rfl⟩
    have h₂ : w.Frame w₂ := frame_ite (frame_trapOrIrq h₁) h₁
    have h₃ : w.Frame w₃ := frame_ite (frame_trapOrIrq h₂) h₂
    exact frame_ite ⟨h₃.trap, h₃.wdata⟩ h₃
  exact h.trap

theorem mainStep_trap (hr : i.resetn = true) :
    (mainStep p s i).trap = (s.main.cpuState == .trap) := by
  have hmain : (mainStep p s i).trap = (cpuStateCase p s i (defaults p s i)).main.trap := by
    unfold mainStep
    simp only [hr, Bool.not_true, Bool.false_eq_true, ↓reduceIte]
    rw [← irqInputs_main (p := p) (s := s) (i := i), ← checks_trap (p := p) (s := s) (i := i)]
    rfl
  rw [hmain]
  by_cases hc : s.main.cpuState = .trap
  · simp [cpuStateCase, hc]
  · rw [(frame_cpuStateCase hc).trap]
    simp [defaults, hc]

/-- A write request stays until the transaction is over. -/
theorem mainStep_wdata (hr : i.resetn = true) (hw : s.main.memDoWdata = true)
    (hd : memDone s i = false) : (mainStep p s i).memDoWdata = true := by
  have hkeep : (cpuStateCase p s i (defaults p s i)).main.memDoWdata = true := by
    by_cases hc : s.main.cpuState = .trap
    · simpa [cpuStateCase, hc, defaults] using hw
    · rw [(frame_cpuStateCase hc).wdata]
      exact hw
  have hreq : (mainStep p s i).request.wdata = true := by
    rcases @mainStep_request p s i hr with h | h <;> rw [h] <;>
      simp [Request.trapped, Work.request, hd, hkeep]
  exact hreq

/-! ## The invariant -/

/-- A look-ahead pulse. -/
def memLaPulse (s : State) (i : Inputs) : Bool := memLaRead s i || memLaWrite s i

/-- The outputs a transaction holds until `mem_ready`. -/
def Mem.bus (m : Mem) : Bool × Bool × BitVec 32 × BitVec 32 × BitVec 4 :=
  (m.memValid, m.memInstr, m.memAddr, m.memWdata, m.memWstrb)

/-- No request is pending. -/
def Main.Quiet (m : Main) : Prop :=
  m.memDoPrefetch = false ∧ m.memDoRinst = false ∧ m.memDoRdata = false ∧ m.memDoWdata = false

structure Inv (s : State) : Prop where
  requests : s.main.request.Ok s.first
  decoded : s.main.cpuState = .trap ∨ (s.main.cpuState = .fetch ∧ s.main.decoderTrigger = false)
    ∨ s.first.Coherent
  valid : s.mem.memValid = true → s.mem.memState ≠ .idle
  fetched : s.mem.memState = .prefetched → s.mem.memValid = false
  writing : s.mem.memState = .write → s.main.memDoWdata = true ∨ s.main.trap = true
  trapped : s.main.trap = true → s.main.cpuState = .trap
  -- a frozen interface never leaves `mem_state` 0 with a request pending
  frozen : s.main.trap = true → s.mem.memState = .idle → s.main.Quiet

theorem pulse_of_idle (hr : i.resetn = true) (hm : s.mem.memState = .idle)
    (hq : ¬s.main.Quiet) : memLaPulse s i = true := by
  by_contra h
  apply hq
  simp_all [memLaPulse, memLaRead, memLaWrite, Main.Quiet]

theorem Inv.not_trap_of_pulse (h : Inv s) (hp : memLaPulse s i = true) : s.main.trap = false := by
  by_contra ht
  have ht : s.main.trap = true := by simpa using ht
  have hm : s.mem.memState = .idle := by
    simp only [memLaPulse, memLaRead, memLaWrite, Bool.or_eq_true, Bool.and_eq_true] at hp
    rcases hp with ⟨⟨-, hm⟩, -⟩ | ⟨⟨-, hm⟩, -⟩ <;> simpa using hm
  obtain ⟨h₁, h₂, h₃, h₄⟩ := h.frozen ht hm
  simp [memLaPulse, memLaRead, memLaWrite, h₁, h₂, h₃, h₄] at hp

/-- The clock edge of a pulse. -/
theorem memStep_of_pulse (h : Inv s) (hp : memLaPulse s i = true) :
    (memStep s i).memState ≠ .idle ∧ (memStep s i).memValid = true
      ∧ (memStep s i).memAddr = memLaAddr s
      ∧ (memLaRead s i = true → (memStep s i).memWstrb = 0)
      ∧ (memLaWrite s i = true → (memStep s i).memWstrb = memLaWstrb s i
          ∧ (memStep s i).memWdata = memLaWdata s i) := by
  have ht := h.not_trap_of_pulse hp
  have hx : s.mem.memState = .idle ∧ i.resetn = true := by
    simp only [memLaPulse, memLaRead, memLaWrite, Bool.or_eq_true, Bool.and_eq_true] at hp
    rcases hp with ⟨⟨hr, hm⟩, -⟩ | ⟨⟨hr, hm⟩, -⟩ <;> exact ⟨by simpa using hm, hr⟩
  obtain ⟨hm, hr⟩ := hx
  have hxfer : memXfer s i = false := by
    have : s.mem.memValid = false := by
      by_contra hv
      exact h.valid (by simpa using hv) hm
    simp [memXfer, this]
  have hexcl := h.requests.exclusive
  cases hw : s.main.memDoWdata
  · have hread : memLaRead s i = true := by simpa [memLaPulse, memLaWrite, hw] using hp
    have hreq : (s.main.memDoPrefetch || s.main.memDoRinst || s.main.memDoRdata) = true := by
      simp only [memLaRead, Bool.and_eq_true, Bool.or_eq_true] at hread ⊢
      tauto
    have hwrite : memLaWrite s i = false := by simp [memLaWrite, hw]
    simp [memStep, memIdle, hxfer, hr, ht, hm, hw, hread, hwrite, hreq]
  · obtain ⟨hP, hR, hD⟩ := hexcl hw
    have hP : s.main.memDoPrefetch = false := hP
    have hR : s.main.memDoRinst = false := hR
    have hD : s.main.memDoRdata = false := hD
    have hread : memLaRead s i = false := by simp [memLaRead, hP, hR, hD]
    have hwrite : memLaWrite s i = true := by simpa [memLaPulse, hread] using hp
    simp [memStep, memIdle, hxfer, hr, ht, hm, hw, hread, hwrite, hP, hR, hD]

theorem pulse_of_not_idle (hm : s.mem.memState ≠ .idle) : memLaPulse s i = false := by
  simp [memLaPulse, memLaRead, memLaWrite, hm]

/-- A transaction waits for `mem_ready`. -/
theorem memStep_of_waiting (h : Inv s) (hr : i.resetn = true) (hv : s.mem.memValid = true)
    (hready : i.memReady = false) : (memStep s i).bus = s.mem.bus := by
  have hm := h.valid hv
  have hp := pulse_of_not_idle (i := i) hm
  simp only [memLaPulse, Bool.or_eq_false_iff] at hp
  obtain ⟨hread, hwrite⟩ := hp
  have hxfer : memXfer s i = false := by simp [memXfer, hready]
  cases ht : s.main.trap
  · cases hs : s.mem.memState
    · exact absurd hs hm
    · simp [memStep, hr, ht, hs, hxfer, hread, hwrite]
    · simp [memStep, hr, ht, hs, hxfer, hread, hwrite]
    · cases hR : s.main.memDoRinst <;>
        simp [memStep, hr, ht, hs, hxfer, hread, hwrite, hR, Mem.bus]
  · simp [memStep, hr, ht, hready, hxfer]

/-- Without a pulse no transaction begins. -/
theorem memStep_of_no_pulse (hv : s.mem.memValid = false) (hp : memLaPulse s i = false) :
    (memStep s i).memValid = false := by
  have hxfer : memXfer s i = false := by simp [memXfer, hv]
  simp only [memLaPulse, Bool.or_eq_false_iff] at hp
  obtain ⟨hread, hwrite⟩ := hp
  cases hr : i.resetn
  · simp [memStep, hr, hxfer]
  cases ht : s.main.trap
  · cases hs : s.mem.memState
    · have hq : s.main.Quiet := by
        by_contra hq
        have := pulse_of_idle hr hs hq
        simp [memLaPulse, hread, hwrite] at this
      obtain ⟨h₁, h₂, h₃, h₄⟩ := hq
      simp [memStep, memIdle, hr, ht, hs, hxfer, hread, hwrite, h₁, h₂, h₃, h₄, hv]
    · simp [memStep, hr, ht, hs, hxfer, hread, hwrite, hv]
    · simp [memStep, hr, ht, hs, hxfer, hread, hwrite, hv]
    · cases hR : s.main.memDoRinst <;> simp [memStep, hr, ht, hs, hxfer, hread, hwrite, hv, hR]
  · cases hready : i.memReady <;> simp [memStep, hr, ht, hxfer, hv, hready]

/-! ### Each edge keeps it -/

theorem fetchState_of_no_trigger (ht : s.main.decoderTrigger = false) :
    (fetchState p s w).main.cpuState = w.main.cpuState
      ∧ (fetchState p s w).main.decoderTrigger = w.main.decoderTrigger := by
  have hite : ∀ {c : Prop} [Decidable c] {a b : Work},
      (a.main.cpuState = w.main.cpuState ∧ a.main.decoderTrigger = w.main.decoderTrigger) →
      (b.main.cpuState = w.main.cpuState ∧ b.main.decoderTrigger = w.main.decoderTrigger) →
      (if c then a else b).main.cpuState = w.main.cpuState
        ∧ (if c then a else b).main.decoderTrigger = w.main.decoderTrigger := by
    intro c _ a b ha hb
    by_cases hc : c
    · rw [if_pos hc]; exact ha
    · rw [if_neg hc]; exact hb
  unfold fetchState
  dsimp only
  rw [if_neg (c := s.main.decoderTrigger = true) (by simp [ht])]
  exact hite ⟨rfl, rfl⟩ (hite (hite ⟨rfl, rfl⟩ ⟨rfl, rfl⟩) ⟨rfl, rfl⟩)

theorem ok_trapState (hw : w.Starts s i) (hs : s.main.request.Ok s.first)
    (hc : s.main.cpuState = .trap) :
    (({ w with main := { w.main with trap := true } } : Work).request (memDone s i)).Ok f := by
  refine Request.Exclusive.ok ?_ (hw.cpuState.trans hc)
  intro hwd
  simp only [Work.request, hw.setRinst, hw.setRdata, hw.setWdata, hw.prefetch, hw.rinst, hw.rdata,
    hw.wdata, Bool.false_or, Bool.and_eq_true] at hwd ⊢
  obtain ⟨hP, hR, hD⟩ := hs.exclusive hwd.2
  have hP : s.main.memDoPrefetch = false := hP
  have hR : s.main.memDoRinst = false := hR
  have hD : s.main.memDoRdata = false := hD
  simp [hP, hR, hD]

theorem defaults_reading (hR : s.main.memDoRinst = false) (hD : s.main.memDoRdata = false)
    (hW : s.main.memDoWdata = false) :
    (defaults p s i).Reading s where
  prefetch := rfl
  rinst := hR
  rdata := hD
  wdata := hW
  setRinst := rfl
  setRdata := rfl
  setWdata := rfl

theorem ok_step (h : Inv s) (hr : i.resetn = true) :
    (mainStep p s i).request.Ok (firstStep p s i) := by
  have hw := defaults_starts p s i
  have hs := h.requests
  have hreads : (s.main.cpuState = .ldRs1 ∨ s.main.cpuState = .ldRs2) →
      (defaults p s i).Reading s ∧ Prefetching s ∧ s.first.Coherent ∧ memDone s i = false
        ∧ firstStep p s i = s.first ∧ (defaults p s i).main.decoderTrigger = false := by
    intro hc
    obtain ⟨⟨hR, hD, hW⟩, hP⟩ : (s.main.memDoRinst = false ∧ s.main.memDoRdata = false
        ∧ s.main.memDoWdata = false) ∧ Prefetching s := by
      rcases hc with hc | hc <;> simpa [Request.Ok, Main.request, hc, Prefetching] using hs
    have hcoherent : s.first.Coherent := by
      rcases h.decoded with hd | hd | hd
      · rcases hc with hc | hc <;> simp [hc] at hd
      · rcases hc with hc | hc <;> simp [hc] at hd
      · exact hd
    exact ⟨defaults_reading hR hD hW, hP, hcoherent, memDone_of_quiet hR hD hW,
      firstStep_of_rinst_low p s i hr hR, by simp [defaults, hR]⟩
  have hcase : ((cpuStateCase p s i (defaults p s i)).request (memDone s i)).Ok
      (firstStep p s i) := by
    unfold cpuStateCase
    cases hc : s.main.cpuState
    · exact ok_trapState hw hs hc
    · exact ok_fetchState hw hr hs hc
    · obtain ⟨hread, hP, hcoherent, hdone, hfirst, ht⟩ := hreads (.inl hc)
      rw [hdone, hfirst]
      exact ok_ldRs1State hread hP hcoherent hc ht
    · obtain ⟨hread, hP, hcoherent, hdone, hfirst, ht⟩ := hreads (.inr hc)
      rw [hdone, hfirst]
      exact ok_ldRs2State hread hP hcoherent hc ht
    · exact ok_execState hw hs hc
    · exact ok_shiftState hw hs hc
    · exact ok_stmemState hw hs hc
    · exact ok_ldmemState hw hs hc
  rcases @mainStep_request p s i hr with h | h <;> rw [h]
  · exact hcase
  · exact hcase.trapped _

theorem decoded_step (h : Inv s) (hr : i.resetn = true) :
    (mainStep p s i).cpuState = .trap
      ∨ ((mainStep p s i).cpuState = .fetch ∧ (mainStep p s i).decoderTrigger = false)
      ∨ (firstStep p s i).Coherent := by
  rcases h.decoded with hc | ⟨hc, ht⟩ | hf
  · left
    have := congrArg Request.cpuState (@mainStep_request_trap p s i hr hc)
    exact this.trans hc
  · by_cases hword : (s.main.memDoRinst && memDone s i) = true
    · right; right
      rw [firstStep_of_resetn p s i hr, if_pos hword]
      exact decodeFirst_coherent p _
    · have hcase : ((cpuStateCase p s i (defaults p s i)).request (memDone s i)).cpuState = .fetch
          ∧ ((cpuStateCase p s i (defaults p s i)).request (memDone s i)).trigger = false := by
        obtain ⟨hstate, htrigger⟩ := fetchState_of_no_trigger (p := p) (w := defaults p s i) ht
        simp only [cpuStateCase, hc]
        exact ⟨hstate.trans hc, htrigger.trans (by simpa [defaults] using hword)⟩
      rcases @mainStep_request p s i hr with h | h
      · right; left
        have h₁ := congrArg Request.cpuState h
        have h₂ := congrArg Request.trigger h
        exact ⟨h₁.trans hcase.1, h₂.trans hcase.2⟩
      · left
        exact congrArg Request.cpuState h
  · exact .inr (.inr (firstStep_coherent p s i hr hf))

/-- Any request. -/
def Main.busy (m : Main) : Bool :=
  m.memDoPrefetch || m.memDoRinst || m.memDoRdata || m.memDoWdata

theorem quiet_iff : s.main.Quiet ↔ s.main.busy = false := by
  simp [Main.Quiet, Main.busy, and_assoc]

/-- Where each `mem_state` leads without a trap. -/
theorem memStep_memState (hr : i.resetn = true) (ht : s.main.trap = false) :
    (memStep s i).memState = match s.mem.memState with
      | .idle => if s.main.memDoWdata then .write else if s.main.busy then .read else .idle
      | .read =>
        if memXfer s i then
          if s.main.memDoRinst || s.main.memDoRdata then .idle else .prefetched
        else .read
      | .write => if memXfer s i then .idle else .write
      | .prefetched => if s.main.memDoRinst then .idle else .prefetched := by
  unfold memStep
  simp only [hr, ht]
  cases hs : s.mem.memState
  · cases hW : s.main.memDoWdata <;> cases hP : s.main.memDoPrefetch <;>
      cases hR : s.main.memDoRinst <;> cases hD : s.main.memDoRdata <;> cases memXfer s i <;>
      simp [memIdle, memLaRead, memLaWrite, Main.busy, *]
  · cases hx : memXfer s i <;> simp [memLaRead, memLaWrite, hs]
  · cases hx : memXfer s i <;> simp [memLaRead, memLaWrite, hs]
  · cases hx : memXfer s i <;> cases hR : s.main.memDoRinst <;> simp [memLaRead, memLaWrite, hs]

theorem memStep_memValid (hr : i.resetn = true) (ht : s.main.trap = false) :
    (memStep s i).memValid = match s.mem.memState with
      | .idle => s.mem.memValid || s.main.busy
      | .read => s.mem.memValid && !memXfer s i
      | .write => s.mem.memValid && !memXfer s i
      | .prefetched => s.mem.memValid := by
  unfold memStep
  simp only [hr, ht]
  cases hs : s.mem.memState
  · cases hW : s.main.memDoWdata <;> cases hP : s.main.memDoPrefetch <;>
      cases hR : s.main.memDoRinst <;> cases hD : s.main.memDoRdata <;> cases memXfer s i <;>
      simp [memIdle, memLaRead, memLaWrite, Main.busy, *]
  · cases hx : memXfer s i <;> simp [memLaRead, memLaWrite, hs]
  · cases hx : memXfer s i <;> simp [memLaRead, memLaWrite, hs]
  · cases hx : memXfer s i <;> cases hR : s.main.memDoRinst <;> simp [memLaRead, memLaWrite, hs]

/-- A trap freezes the interface, except that a transaction under way ends. -/
theorem memStep_of_trap (hr : i.resetn = true) (ht : s.main.trap = true) :
    (memStep s i).memState = s.mem.memState
      ∧ (memStep s i).memValid = (s.mem.memValid && !i.memReady) := by
  cases hx : memXfer s i <;> cases hy : i.memReady <;> simp [memStep, hr, ht, hx, hy]

theorem valid_step (h : Inv s) (hr : i.resetn = true) :
    ((memStep s i).memValid = true → (memStep s i).memState ≠ .idle)
      ∧ ((memStep s i).memState = .prefetched → (memStep s i).memValid = false) := by
  have hvalid := h.valid
  have hfetched := h.fetched
  cases ht : s.main.trap
  · rw [memStep_memState hr ht, memStep_memValid hr ht]
    cases hs : s.mem.memState <;> rw [hs] at hvalid hfetched
    · cases hb : s.main.busy <;> cases hw : s.main.memDoWdata <;> simp_all
    · cases hx : memXfer s i <;> simp
    · cases hx : memXfer s i <;> simp
    · simp [hfetched rfl]
  · obtain ⟨hstate, hv⟩ := memStep_of_trap hr ht
    rw [hstate, hv]
    constructor
    · intro hvalid'
      exact hvalid (by simp_all)
    · intro hs
      simp [hfetched hs]

theorem writing_step (h : Inv s) (hr : i.resetn = true) (hm : (memStep s i).memState = .write) :
    (mainStep p s i).memDoWdata = true ∨ (mainStep p s i).trap = true := by
  cases ht : s.main.trap
  · rw [memStep_memState hr ht] at hm
    left
    cases hs : s.mem.memState <;> rw [hs] at hm
    · cases hw : s.main.memDoWdata
      · cases hb : s.main.busy <;> simp [hw, hb] at hm
      · exact mainStep_wdata hr hw (by simp [memDone, hs])
    · cases hx : memXfer s i <;> cases hR : s.main.memDoRinst <;> cases hD : s.main.memDoRdata <;>
        simp [hx, hR, hD] at hm
    · have hx : memXfer s i = false := by
        by_contra hx
        simp [hx] at hm
      have hw : s.main.memDoWdata = true := by simpa [ht] using h.writing hs
      exact mainStep_wdata hr hw (by simp [memDone, hs, hx])
    · cases hR : s.main.memDoRinst <;> simp [hR] at hm
  · right
    rw [mainStep_trap hr, h.trapped ht]
    rfl

theorem frozen_step (h : Inv s) (hr : i.resetn = true) (ht : (mainStep p s i).trap = true)
    (hm : (memStep s i).memState = .idle) : (mainStep p s i).Quiet := by
  have hc : s.main.cpuState = .trap := by
    have := (mainStep_trap (p := p) hr).symm.trans ht
    simpa using this
  have hreq := @mainStep_request_trap p s i hr hc
  have hquiet : memDone s i = true ∨ s.main.Quiet := by
    cases ht : s.main.trap
    · rw [memStep_memState hr ht] at hm
      cases hs : s.mem.memState <;> rw [hs] at hm
      · right
        rw [quiet_iff]
        cases hw : s.main.memDoWdata <;> cases hb : s.main.busy <;> simp [hw, hb] at hm
        rfl
      · left
        cases hx : memXfer s i <;> cases hR : s.main.memDoRinst <;> cases hD : s.main.memDoRdata <;>
          simp_all [memDone]
      · left
        have hw : s.main.memDoWdata = true := by simpa [ht] using h.writing hs
        cases hx : memXfer s i <;> simp_all [memDone]
      · left
        cases hR : s.main.memDoRinst <;> simp_all [memDone]
    · right
      rw [(memStep_of_trap hr ht).1] at hm
      exact h.frozen ht hm
  have hflags : (mainStep p s i).Quiet ↔ ((defaults p s i).request (memDone s i)).prefetch = false
      ∧ ((defaults p s i).request (memDone s i)).rinst = false
      ∧ ((defaults p s i).request (memDone s i)).rdata = false
      ∧ ((defaults p s i).request (memDone s i)).wdata = false := by
    rw [← hreq]
    exact Iff.rfl
  rw [hflags]
  rcases hquiet with hdone | ⟨hP, hR, hD, hW⟩
  · simp [Work.request, hdone, defaults]
  · simp [Work.request, defaults, hP, hR, hD, hW]

theorem inv_step (h : Inv s) (hr : i.resetn = true) : Inv (step p i s) where
  requests := ok_step h hr
  decoded := decoded_step h hr
  valid := (valid_step h hr).1
  fetched := (valid_step h hr).2
  writing := writing_step h hr
  trapped := by
    intro ht
    have hc : s.main.cpuState = .trap := by
      have := (mainStep_trap (p := p) hr).symm.trans ht
      simpa using this
    have := congrArg Request.cpuState (@mainStep_request_trap p s i hr hc)
    exact this.trans hc
  frozen := frozen_step h hr

/-- The requests after reset. -/
theorem mainStep_request_reset (hr : i.resetn = false) :
    Request.OrTrapped ⟨.fetch, false, false, false, false, false⟩ (mainStep p s i).request := by
  have hstart : (resetState p (defaults p s i)).request true
      = ⟨.fetch, false, false, false, false, false⟩ := by
    unfold resetState
    cases ~~~p.stackaddr != 0 <;> simp [Work.request, defaults, memDone, hr]
  have hmain : (mainStep p s i).request
      = (checks p s i (irqInputs p s i (resetState p (defaults p s i)))).request true := by
    unfold mainStep
    rw [finish_request]
    simp [hr]
  rw [hmain, ← hstart, ← irqInputs_request]
  exact checks_request

theorem mainStep_trap_reset (hr : i.resetn = false) : (mainStep p s i).trap = false := by
  have hmain : (mainStep p s i).trap = (resetState p (defaults p s i)).main.trap := by
    unfold mainStep
    simp only [hr, Bool.not_false, ↓reduceIte]
    rw [← irqInputs_main (p := p) (s := s) (i := i), ← checks_trap (p := p) (s := s) (i := i)]
    rfl
  rw [hmain]
  unfold resetState
  cases ~~~p.stackaddr != 0 <;> rfl

theorem memStep_of_reset (hr : i.resetn = false) :
    (memStep s i).memState = .idle ∧ (memStep s i).memValid = false := by
  cases hx : memXfer s i <;> simp [memStep, hr, hx]

theorem inv_reset (hr : i.resetn = false) : Inv (step p i s) := by
  obtain ⟨hstate, hvalid⟩ := memStep_of_reset (s := s) hr
  have htrap := mainStep_trap_reset (p := p) (s := s) hr
  have hreq := mainStep_request_reset (p := p) (s := s) hr
  have hok : ∀ f, (mainStep p s i).request.Ok f := by
    intro f
    rcases hreq with h | h <;> rw [h] <;>
      simp [Request.Ok, Request.trapped, Request.Exclusive]
  refine ⟨hok _, ?_, ?_, ?_, ?_, ?_, ?_⟩
  · rcases hreq with h | h
    · right; left
      exact ⟨congrArg Request.cpuState h, congrArg Request.trigger h⟩
    · left
      exact congrArg Request.cpuState h
  · intro hv
    exact absurd hv (by simp [step, hvalid])
  · intro hs
    exact absurd hs (by simp [step, hstate])
  · intro hs
    exact absurd hs (by simp [step, hstate])
  · intro ht
    exact absurd ht (by simp [step, htrap])
  · intro ht
    exact absurd ht (by simp [step, htrap])

/-- Every cycle after one with reset. -/
theorem inv_run {env : ℕ → Inputs} {s₀ : State} {r n : ℕ} (hr : (env r).resetn = false)
    (hn : r < n) : Inv (run (step p) env s₀ n) := by
  induction n with
  | zero => exact absurd hn (by omega)
  | succ n ih =>
      rw [run_succ]
      cases hres : (env n).resetn
      · exact inv_reset hres
      · rcases Nat.lt_or_ge r n with h | h
        · exact inv_step (ih h) hres
        · have : r = n := by omega
          rw [← this, hr] at hres
          exact absurd hres (by simp)

/-! ## Pulses and transactions -/

/-- The look-ahead pulse of cycle `n` and the bus around it, in a run with the states `st`. -/
structure Corresponds (env : ℕ → Inputs) (st : ℕ → State) (n : ℕ) : Prop where
  not_both : ¬(memLaRead (st n) (env n) = true ∧ memLaWrite (st n) (env n) = true)
  not_busy : memLaPulse (st n) (env n) = true →
    ¬((st n).mem.memValid = true ∧ (env n).memReady = false)
  not_consecutive : memLaPulse (st n) (env n) = true →
    memLaPulse (st (n + 1)) (env (n + 1)) = false
  -- a transaction begins after a pulse and only then
  begins : memLaPulse (st n) (env n) = true ↔
    (st n).mem.memValid = false ∧ (st (n + 1)).mem.memValid = true
  addr : memLaPulse (st n) (env n) = true → (st (n + 1)).mem.memAddr = memLaAddr (st n)
  read : memLaRead (st n) (env n) = true → (st (n + 1)).mem.memWstrb = 0
  write : memLaWrite (st n) (env n) = true →
    (st (n + 1)).mem.memWstrb = memLaWstrb (st n) (env n)
      ∧ (st (n + 1)).mem.memWdata = memLaWdata (st n) (env n)
  -- it is held until `mem_ready`
  held : memLaPulse (st n) (env n) = true → ∀ m, n < m →
    (∀ k, n < k → k < m → (env k).memReady = false ∧ (env k).resetn = true) →
    (st m).mem.bus = (st (n + 1)).mem.bus

/-- Pulses and transactions correspond one to one, in every cycle after a reset, whatever the
    memory answers and whatever the program does. -/
theorem pulses_correspond (p : Params) (env : ℕ → Inputs) (s₀ : State) (r n : ℕ)
    (hr : (env r).resetn = false) (hn : r < n) :
    Corresponds env (run (step p) env s₀) n := by
  have hinv : ∀ m, r < m → Inv (run (step p) env s₀ m) := fun m hm => inv_run hr hm
  have hnext : ∀ m, run (step p) env s₀ (m + 1) = step p (env m) (run (step p) env s₀ m) :=
    fun m => run_succ _ _ _ m
  have h := hinv n hn
  have hidle : memLaPulse (run (step p) env s₀ n) (env n) = true →
      (run (step p) env s₀ n).mem.memState = .idle := by
    intro hp
    by_contra hs
    rw [pulse_of_not_idle hs] at hp
    exact absurd hp (by simp)
  have hlow : memLaPulse (run (step p) env s₀ n) (env n) = true →
      (run (step p) env s₀ n).mem.memValid = false := by
    intro hp
    by_contra hv
    exact h.valid (by simpa using hv) (hidle hp)
  -- a pulse needs the idle state, and the next cycle is not idle
  refine ⟨?_, ?_, ?_, ⟨?_, ?_⟩, ?_, ?_, ?_, ?_⟩
  · rintro ⟨hread, hwrite⟩
    simp only [memLaRead, memLaWrite, Bool.and_eq_true, Bool.or_eq_true] at hread hwrite
    obtain ⟨hP, hR, hD⟩ := h.requests.exclusive hwrite.2
    have hP : (run (step p) env s₀ n).main.memDoPrefetch = false := hP
    have hR : (run (step p) env s₀ n).main.memDoRinst = false := hR
    have hD : (run (step p) env s₀ n).main.memDoRdata = false := hD
    simp [hP, hR, hD] at hread
  · intro hp hv
    rw [hlow hp] at hv
    exact absurd hv.1 (by simp)
  · intro hp
    rw [hnext]
    exact pulse_of_not_idle (memStep_of_pulse h hp).1
  · intro hp
    refine ⟨hlow hp, ?_⟩
    rw [hnext]
    exact (memStep_of_pulse h hp).2.1
  · rintro ⟨hv, hv'⟩
    by_contra hp
    rw [hnext] at hv'
    have := memStep_of_no_pulse (i := env n) hv (by simpa using hp)
    exact absurd (this.symm.trans hv') (by simp)
  · intro hp
    rw [hnext]
    exact (memStep_of_pulse h hp).2.2.1
  · intro hread
    rw [hnext]
    exact (memStep_of_pulse h (by simp [memLaPulse, hread])).2.2.2.1 hread
  · intro hwrite
    rw [hnext]
    exact (memStep_of_pulse h (by simp [memLaPulse, hwrite])).2.2.2.2 hwrite
  · intro hp m hm
    -- on the cycles the memory keeps the core waiting
    induction m, hm using Nat.le_induction with
    | base => exact fun _ => rfl
    | succ m hm ih =>
        intro hwait
        have hbus := ih (fun k hk hkm => hwait k hk (by omega))
        obtain ⟨hready, hres⟩ := hwait m hm (by omega)
        have hv : (run (step p) env s₀ m).mem.memValid = true := by
          have hv : (run (step p) env s₀ (n + 1)).mem.memValid = true := by
            rw [hnext]
            exact (memStep_of_pulse h hp).2.1
          exact (congrArg Prod.fst hbus).trans hv
        rw [hnext m, ← hbus]
        exact memStep_of_waiting (hinv m (by omega)) hres hv hready

/-- Inputs with one cycle of reset and a silent memory. -/
def afterReset : ℕ → Inputs := fun k => { (default : Inputs) with resetn := k != 0 }

theorem pulses_correspond_after_reset :
    memLaRead (run (step {}) afterReset default 2) (afterReset 2) = true
      ∧ Corresponds afterReset (run (step {}) afterReset default) 2 :=
  ⟨rfl, pulses_correspond {} afterReset default 0 2 rfl (by decide)⟩

end PicoSoc.Picorv32
