import PicoSoc.Cpu.Refinement

set_option autoImplicit false

/-! # The timing options

What the processor shows is what the instructions of the hart show, one after the other, up to the
first that traps. How many cycles an instruction takes leaves no trace in it, so two processors with
different timing options show the same. -/

namespace PicoSoc.Picorv32

open Clocked Rv32i

/-! ## The harts of a program -/

/-- The hart after `k` instructions, unless one of them traps. -/
def hartAfter (h : Hart) : ℕ → Option Hart
  | 0 => some h
  | k + 1 => (hartAfter h k).bind fun g => (commit g).2

/-- What the first `k` instructions show. -/
def trace (h : Hart) : ℕ → List Event
  | 0 => []
  | k + 1 => trace h k ++ (hartAfter h k).elim [] fun g => (commit g).1

/-- The program traps, at `pc`. -/
def Traps (h : Hart) (pc : BitVec 32) : Prop :=
  ∃ k g, hartAfter h k = some g ∧ (commit g).2 = none ∧ g.pc = pc

/-- No instruction is FENCE, and none changes the one after it. -/
structure Ordinary (h : Hart) : Prop where
  fence : ∀ k g, hartAfter h k = some g → isFence (g.mem.word g.pc) = false
  code : ∀ k g g', hartAfter h k = some g → (commit g).2 = some g' →
    g'.mem.word g'.pc = g.mem.word g'.pc

variable {p : Params} {r : Run p} {h g : Hart} {n k : ℕ}

theorem hartAfter_succ {g' : Hart} (hk : hartAfter h k = some g) (hcommit : (commit g).2 = some g') :
    hartAfter h (k + 1) = some g' := by
  rw [hartAfter, hk, Option.bind_some, hcommit]

theorem trace_succ (hk : hartAfter h k = some g) : trace h (k + 1) = trace h k ++ (commit g).1 := by
  rw [trace, hk]
  rfl

/-- The program goes on for ever, or a trap ends it. -/
theorem goes_on_or_traps (h : Hart) : (∀ k, ∃ g, hartAfter h k = some g) ∨
    ∃ k g, hartAfter h k = some g ∧ (commit g).2 = none := by
  by_cases hall : ∀ k, ∃ g, hartAfter h k = some g
  · exact .inl hall
  · right
    by_contra hnone
    refine hall fun k => ?_
    induction k with
    | zero => exact ⟨h, rfl⟩
    | succ k ih =>
        obtain ⟨g, hk⟩ := ih
        cases hcommit : (commit g).2 with
        | none => exact absurd ⟨k, g, hk, hcommit⟩ hnone
        | some g' => exact ⟨g', hartAfter_succ hk hcommit⟩

/-! ## Trap -/

/-- The state `trap` is never left, and the program counter stays. -/
theorem trap_stays {s : Machine} {i : Inputs} (hp : Plain p) (hr : i.resetn = true)
    (hcpu : s.core.main.cpuState = .trap) : (s.step p i).core.main.cpuState = .trap
      ∧ (s.step p i).core.main.regPc = s.core.main.regPc := by
  have hr' : (s.inputs i).resetn = true := by rw [inputs_resetn, hr]
  have hmain : (s.step p i).core.main = _ := mainStep_plain hp hr'
  rw [cpuStateCase, hcpu] at hmain
  rw [hmain]
  cases Faulty s.core.main with
  | true => exact ⟨rfl, rfl⟩
  | false => exact ⟨hcpu, rfl⟩

theorem Run.trap_stays (hp : Plain p) (hcpu : (r.state n).core.main.cpuState = .trap) {m : ℕ}
    (hm : n ≤ m) : (r.state m).core.main.cpuState = .trap
      ∧ (r.state m).core.main.regPc = (r.state n).core.main.regPc := by
  induction m, hm using Nat.le_induction with
  | base => exact ⟨hcpu, rfl⟩
  | succ m hm ih =>
      obtain ⟨hcpu', hpc⟩ := Picorv32.trap_stays hp (r.resetn m) ih.1
      exact ⟨hcpu', hpc.trans ih.2⟩

/-- `trap` is set a cycle after the state is `trap`. -/
theorem Run.trap_succ : (r.state (n + 1)).core.main.trap = ((r.state n).core.main.cpuState == .trap) :=
  mainStep_trap (by rw [inputs_resetn, r.resetn])

/-- Nothing is shown after a trap. -/
theorem Halted.shown {pc : BitVec 32} (hp : Plain p) (h₀ : Halted pc (r.state n)) {m : ℕ}
    (hm : n ≤ m) : Halted pc (r.state m) ∧ shown r.events 0 m = shown r.events 0 n := by
  induction m, hm using Nat.le_induction with
  | base => exact ⟨h₀, rfl⟩
  | succ m hm ih =>
      obtain ⟨hhalted, hshown⟩ := ih
      refine ⟨(hhalted.next hp (r.resetn m)).1, ?_⟩
      have hne : (r.state m).core.main.cpuState ≠ .fetch := by
        rw [hhalted.cpuState]
        decide
      rw [shown_succ (Nat.zero_le m), hshown,
        events_of_cpuState hne (transfers_of_valid hhalted.memInstr), List.append_nil]

/-! ## Runs -/

section

variable (hp : Plain p) (hcount : p.enableCounters = false) (hord : Ordinary h)
  (hstart : Unasked p h [] (r.state 0))

include hp hord hstart

/-- Every hart of the program is reached, after what the instructions before it show. -/
theorem reaches (hk : hartAfter h k = some g) : ∃ n l₁ l₂, k ≤ n ∧ shown r.events 0 n = l₁
    ∧ l₁ ++ l₂ = trace h k ∧ Settled p g l₂ (r.state n) := by
  induction k generalizing g with
  | zero =>
      cases hk
      obtain ⟨l₁, l₂, hl, m, -, hP, -, hshown⟩ := Unasked.arrives hp hstart
      exact ⟨m, l₁, l₂, Nat.zero_le m, hshown, hl, hP⟩
  | succ k ih =>
      obtain ⟨g₀, hk₀, hcommit⟩ := Option.bind_eq_some_iff.1 hk
      obtain ⟨n, l₁, l₂, hkn, hshown, hl, hP⟩ := ih hk₀
      rcases hP with hlaunch | ⟨hstray, -⟩
      · obtain ⟨l₁', l₂', hl', m, hnm, hP', -, hshown'⟩ :=
          hlaunch.commits hp (Prod.ext rfl hcommit) (hord.code k g₀ g hk₀ hcommit)
        refine ⟨m, trace h k ++ l₁', l₂', by omega, ?_, ?_, hP'⟩
        · rw [← shown_append (Nat.zero_le (n + 1)) hnm, hshown', shown_succ (Nat.zero_le n),
            hshown, hlaunch.events, hl]
        · rw [List.append_assoc, hl', trace_succ hk₀]
      · rw [commit, if_neg hstray] at hcommit
        cases hcommit

include hcount

/-- Where the program traps, the processor does. -/
theorem halts (hk : hartAfter h k = some g) (hcommit : (commit g).2 = none) :
    ∃ n, shown r.events 0 n = trace h (k + 1) ∧ Halted g.pc (r.state n) := by
  obtain ⟨n, l₁, l₂, -, hshown, hl, hP⟩ := reaches hp hord hstart hk
  rcases hP with hlaunch | ⟨hstray, rfl, hhalted⟩
  · obtain ⟨m, hnm, hP', -, hshown'⟩ :=
      hlaunch.traps hp hcount (Prod.ext rfl hcommit) (hord.fence k g hk)
    refine ⟨m, ?_, hP'⟩
    rw [← shown_append (Nat.zero_le (n + 1)) hnm, hshown', shown_succ (Nat.zero_le n), hshown,
      hlaunch.events, hl, trace_succ hk]
  · refine ⟨n, ?_, hhalted⟩
    rw [hshown, trace_succ hk, commit, if_neg hstray, List.append_nil, ← hl, List.append_nil]

/-- The whole trace is shown. -/
theorem exists_shown (k : ℕ) : ∃ n, trace h k <+: shown r.events 0 n := by
  induction k with
  | zero => exact ⟨0, List.nil_prefix⟩
  | succ k ih =>
      cases hk : hartAfter h k with
      | none =>
          rw [trace, hk]
          simpa using ih
      | some g =>
          cases hcommit : (commit g).2 with
          | none =>
              obtain ⟨n, hshown, -⟩ := halts hp hcount hord hstart hk hcommit
              exact ⟨n, hshown ▸ List.prefix_rfl⟩
          | some g' =>
              have hk' : hartAfter h (k + 1) = some g' := hartAfter_succ hk hcommit
              obtain ⟨n, l₁, l₂, -, hshown, hl, hP⟩ := reaches hp hord hstart hk'
              rcases hP with hlaunch | ⟨-, rfl, -⟩
              · refine ⟨n + 1, ?_⟩
                rw [shown_succ (Nat.zero_le n), hshown, hlaunch.events, hl]
              · refine ⟨n, ?_⟩
                rw [hshown, ← hl, List.append_nil]

/-- Only the trace is shown. -/
theorem shown_trace (n : ℕ) : ∃ k, shown r.events 0 n <+: trace h k := by
  rcases goes_on_or_traps h with hall | ⟨k, g, hk, hcommit⟩
  · obtain ⟨g, hk⟩ := hall n
    obtain ⟨m, l₁, l₂, hnm, hshown, hl, -⟩ := reaches hp hord hstart hk
    exact ⟨n, (shown_extends (Nat.zero_le n) hnm).trans ⟨l₂, by rw [hshown, hl]⟩⟩
  · obtain ⟨m, hshown, hhalted⟩ := halts hp hcount hord hstart hk hcommit
    refine ⟨k + 1, ?_⟩
    rcases Nat.le_total n m with hnm | hmn
    · exact hshown ▸ shown_extends (Nat.zero_le n) hnm
    · rw [(hhalted.shown hp hmn).2, hshown]

/-- The processor traps where the program does. -/
theorem trap_iff (pc : BitVec 32) : (∃ n, (r.state n).core.main.trap = true
    ∧ (r.state n).core.main.regPc = pc) ↔ Traps h pc := by
  constructor
  · rintro ⟨n, htrap, hpc⟩
    have hcpu : (r.state n).core.main.cpuState = .trap := by
      cases n with
      | zero => exact absurd (htrap.symm.trans hstart.trap) (by decide)
      | succ n =>
          rw [Run.trap_succ, beq_iff_eq] at htrap
          exact (Run.trap_stays hp htrap (Nat.le_succ n)).1
    rcases goes_on_or_traps h with hall | ⟨k, g, hk, hcommit⟩
    · obtain ⟨g, hk⟩ := hall n
      obtain ⟨g', hk'⟩ := hall (n + 1)
      obtain ⟨m, l₁, l₂, hnm, -, -, hP⟩ := reaches hp hord hstart hk
      rcases hP with hlaunch | ⟨hstray, -⟩
      · have hfetch := hlaunch.cpuState
        rw [(Run.trap_stays hp hcpu hnm).1] at hfetch
        cases hfetch
      · rw [hartAfter, hk, Option.bind_some, commit, if_neg hstray] at hk'
        cases hk'
    · obtain ⟨m, -, hhalted⟩ := halts hp hcount hord hstart hk hcommit
      refine ⟨k, g, hk, hcommit, ?_⟩
      have hleft := Run.trap_stays hp hcpu (Nat.le_max_left n m)
      have hright := Run.trap_stays hp hhalted.cpuState (Nat.le_max_right n m)
      rw [← hpc, ← hleft.2, hright.2, hhalted.regPc]
  · rintro ⟨k, g, hk, hcommit, rfl⟩
    obtain ⟨n, -, hhalted⟩ := halts hp hcount hord hstart hk hcommit
    obtain ⟨hnext, htrap⟩ := hhalted.next hp (r.resetn n)
    exact ⟨n + 1, htrap, hnext.regPc⟩

end

/-! ## Two processors -/

/-- **The timing options change nothing that is seen.** From the same registers and memory two
    processors show the same events, as far as each has come, and trap at the same program counter,
    whatever their options and however long their memories wait. -/
theorem timing_independent {p₁ p₂ : Params} (hp₁ : Plain p₁) (hp₂ : Plain p₂)
    (hcount₁ : p₁.enableCounters = false) (hcount₂ : p₂.enableCounters = false)
    (haddr : p₁.progaddrReset = p₂.progaddrReset) {r₁ : Run p₁} {r₂ : Run p₂} {i₁ i₂ : Inputs}
    {s₁ s₂ : State} {m : Memory} (hregs : fileRegs s₁ = fileRegs s₂)
    (hstart₁ : r₁.start = .afterReset p₁ i₁ s₁ m) (hstart₂ : r₂.start = .afterReset p₂ i₂ s₂ m)
    (hord : Ordinary (resetHart p₁ s₁ m)) :
    (∀ n, ∃ k, shown r₁.events 0 n <+: shown r₂.events 0 k)
      ∧ (∀ n, ∃ k, shown r₂.events 0 n <+: shown r₁.events 0 k)
      ∧ ∀ pc, (∃ n, (r₁.state n).core.main.trap = true ∧ (r₁.state n).core.main.regPc = pc)
        ↔ ∃ n, (r₂.state n).core.main.trap = true ∧ (r₂.state n).core.main.regPc = pc := by
  have hhart : resetHart p₂ s₂ m = resetHart p₁ s₁ m := by
    rw [resetHart, resetHart, haddr, hregs]
  have h₁ : Unasked p₁ (resetHart p₁ s₁ m) [] (r₁.state 0) := by
    show Unasked _ _ _ r₁.start
    rw [hstart₁]
    exact unasked_afterReset hp₁ i₁ s₁ m
  have h₂ : Unasked p₂ (resetHart p₁ s₁ m) [] (r₂.state 0) := by
    show Unasked _ _ _ r₂.start
    rw [hstart₂, ← hhart]
    exact unasked_afterReset hp₂ i₂ s₂ m
  refine ⟨fun n => ?_, fun n => ?_, fun pc => ?_⟩
  · obtain ⟨k, hk⟩ := shown_trace hp₁ hcount₁ hord h₁ n
    obtain ⟨m, hm⟩ := exists_shown hp₂ hcount₂ hord h₂ k
    exact ⟨m, hk.trans hm⟩
  · obtain ⟨k, hk⟩ := shown_trace hp₂ hcount₂ hord h₂ n
    obtain ⟨m, hm⟩ := exists_shown hp₁ hcount₁ hord h₁ k
    exact ⟨m, hk.trans hm⟩
  · rw [trap_iff hp₁ hcount₁ hord h₁, trap_iff hp₂ hcount₂ hord h₂]

/-- The harts of the loop. -/
theorem hartAfter_loop (k : ℕ) : hartAfter (loopHart 0) k = some (loopHart k) := by
  have haligned : ∀ k, Aligned 4 (loopHart k).pc :=
    aligned_of_steps plain_default (loopHart_zero {} rfl) loopHart_step
  induction k with
  | zero => rfl
  | succ k ih =>
      rw [hartAfter, ih]
      exact (commit_of_step (haligned k) (loopHart_step k)).1

theorem ordinary_loop : Ordinary (loopHart 0) where
  fence := fun k g hk => by
    rw [hartAfter_loop] at hk
    cases hk
    have hplain : ∀ j < 5, isFence (loopCode.word (BitVec.ofNat 32 (4 * j))) = false := by
      decide +kernel
    have hword : (loopHart k).mem.word (loopHart k).pc
        = loopCode.word (BitVec.ofNat 32 (4 * (k % 5))) :=
      loopState_code _ _ _ _ (Nat.mod_lt k (by decide))
    rw [hword]
    exact hplain _ (Nat.mod_lt k (by decide))
  code := fun k g g' hk hcommit => by
    have hnext := hartAfter_succ hk hcommit
    rw [hartAfter_loop] at hk hnext
    cases hk
    cases hnext
    exact loopHart_code k

/-- The parameters of a fast processor and of a slow one. -/
def fastParams : Params := { enableCounters := false, barrelShifter := true }

def slowParams : Params :=
  { enableCounters := false, twoStageShift := false, twoCycleCompare := true, twoCycleAlu := true
    enableRegsDualport := false }

theorem loopRun_start (p : Params) (d : ℕ) (hd : 0 < d) :
    (loopRun p d hd).start = .afterReset p default default loopCode := rfl

/-- The loop on both, on a memory that answers at once and on one that does not. -/
theorem timing_independent_loop :
    (∀ n, ∃ k, shown (loopRun fastParams 1 (by decide)).events 0 n
      <+: shown (loopRun slowParams 5 (by decide)).events 0 k)
      ∧ (∀ n, ∃ k, shown (loopRun slowParams 5 (by decide)).events 0 n
        <+: shown (loopRun fastParams 1 (by decide)).events 0 k)
      ∧ ∀ pc, (∃ n, ((loopRun fastParams 1 (by decide)).state n).core.main.trap = true
          ∧ ((loopRun fastParams 1 (by decide)).state n).core.main.regPc = pc)
        ↔ ∃ n, ((loopRun slowParams 5 (by decide)).state n).core.main.trap = true
          ∧ ((loopRun slowParams 5 (by decide)).state n).core.main.regPc = pc := by
  have hord : Ordinary (resetHart fastParams default loopCode) := by
    rw [← loopHart_zero fastParams rfl]
    exact ordinary_loop
  have hfast : Plain fastParams := by constructor <;> rfl
  have hslow : Plain slowParams := by constructor <;> rfl
  exact timing_independent hfast hslow rfl rfl rfl rfl (loopRun_start fastParams 1 (by decide))
    (loopRun_start slowParams 5 (by decide)) hord

end PicoSoc.Picorv32
