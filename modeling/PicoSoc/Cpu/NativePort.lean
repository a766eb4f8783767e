import PicoSoc.Cpu.Refinement

set_option autoImplicit false

/-! # The processor on a bus

Whatever stands between the processor and a memory, the transfers on the native port say what the
memory holds. When each read brings what they have left, the processor runs as with a memory of its
own. -/

namespace PicoSoc.Picorv32

open Clocked Rv32i

variable {p : Params}

/-! ## The native port -/

/-- What the transfer of a cycle leaves in the memory. -/
def transferMem (s : State) (i : Inputs) (m : Memory) : Memory :=
  if memXfer s i then busStore m s.mem.memAddr s.mem.memWdata s.mem.memWstrb else m

/-- A run of the core on a bus, and the memory that its transfers leave. -/
structure PortRun (p : Params) where
  env : ℕ → Inputs
  core : ℕ → State
  mem : ℕ → Memory
  resetn : ∀ n, (env n).resetn = true
  core_succ : ∀ n, core (n + 1) = step p (env n) (core n)
  mem_succ : ∀ n, mem (n + 1) = transferMem (core n) (env n) (mem n)
  reads : ∀ n, memXfer (core n) (env n) = true → (core n).mem.memWstrb = 0 →
    (env n).memRdata = (mem n).word (core n).mem.memAddr
  answers : ∀ n, (core n).mem.memValid = true → ∃ k, n ≤ k ∧ (env k).memReady = true

namespace PortRun

variable (c : PortRun p)

/-- The memory answers with what the bus brings. -/
theorem inputs_eq (n : ℕ) : Machine.inputs (c.env n) ⟨c.core n, c.mem n⟩ = c.env n := by
  unfold Machine.inputs
  split_ifs with hread
  · obtain ⟨hx, hstrb⟩ := Bool.and_eq_true_iff.1 hread
    rw [← c.reads n hx (by simpa using hstrb)]
  · rfl

theorem run_eq (n : ℕ) :
    Clocked.run (Machine.step p) c.env ⟨c.core 0, c.mem 0⟩ n = ⟨c.core n, c.mem n⟩ := by
  induction n with
  | zero => rfl
  | succ n ih =>
      rw [Clocked.run_succ, ih, Machine.step, c.inputs_eq, ← c.core_succ, c.mem_succ]
      rfl

/-- It is a run of the processor with a memory. -/
def run : Run p where
  env := c.env
  start := ⟨c.core 0, c.mem 0⟩
  resetn := c.resetn
  answers := fun n hn => by
    rw [c.run_eq] at hn
    exact c.answers n hn

@[simp] theorem run_state (n : ℕ) : c.run.state n = ⟨c.core n, c.mem n⟩ := c.run_eq n

end PortRun

/-! ## Requests -/

/-- A request stays until it is answered. -/
theorem request_held {s : State} {i : Inputs} (h : Inv s) (hr : i.resetn = true)
    (hv : s.mem.memValid = true) (hready : i.memReady = false) :
    (step p i s).mem.bus = s.mem.bus :=
  memStep_of_waiting h hr hv hready

/-- The cycle after an answer has no request. -/
theorem request_dropped {s : State} {i : Inputs} (h : Inv s) (hr : i.resetn = true)
    (hx : memXfer s i = true) : (step p i s).mem.memValid = false := by
  obtain ⟨hv, hready⟩ := Bool.and_eq_true_iff.1 hx
  have hidle := h.valid hv
  show (memStep s i).memValid = false
  cases ht : s.main.trap with
  | true => simp [memStep, hr, ht, hready]
  | false =>
      cases hs : s.mem.memState with
      | idle => exact absurd hs hidle
      | read => simp [memStep, hr, ht, hs, hx]
      | write => simp [memStep, hr, ht, hs, hx]
      | prefetched =>
          have hlow := h.fetched hs
          rw [hv] at hlow
          exact absurd hlow (by decide)

end PicoSoc.Picorv32
