import PicoSoc.Cpu.NativePort

set_option autoImplicit false

/-! # The processor on a Wishbone bus (`picorv32_wb`)

The adapter takes a native request, holds it on the bus until the slave acknowledges it, and hands
the answer on one cycle later. -/

namespace PicoSoc.Wishbone

open Clocked Rv32i

/-! ## The adapter -/

/-- `state`; `other` is the value that is never assigned. -/
inductive Phase
  | idle
  | wbstart
  | wbend
  | other
  deriving DecidableEq, Inhabited

/-- The registers of the adapter. -/
structure Adapter where
  state : Phase
  adr : BitVec 32
  dat : BitVec 32
  we : Bool
  sel : BitVec 4
  stb : Bool
  cyc : Bool
  memReady : Bool
  memRdata : BitVec 32
  deriving Inhabited

/-- Reset leaves `mem_ready` and `mem_rdata` as they are. -/
def Adapter.reset (s : Adapter) : Adapter :=
  { s with adr := 0, dat := 0, we := false, sel := 0, stb := false, cyc := false, state := .idle }

/-- The clock edge out of reset, for the native request `m`. -/
def Adapter.step (m : Picorv32.Mem) (ack : Bool) (datI : BitVec 32) (s : Adapter) : Adapter :=
  match s.state with
  | .idle =>
    if m.memValid then
      { s with
        adr := m.memAddr
        dat := m.memWdata
        we := m.memWstrb != 0
        sel := m.memWstrb
        stb := true
        cyc := true
        state := .wbstart }
    else { s with memReady := false, stb := false, cyc := false, we := false }
  | .wbstart =>
    if ack then
      { s with
        memRdata := datI
        memReady := true
        state := .wbend
        stb := false
        cyc := false
        we := false }
    else s
  | .wbend => { s with memReady := false, state := .idle }
  | .other => { s with state := .idle }

/-! ## The processor, the adapter and a slave -/

/-- What the slave and the outside drive in a cycle. -/
structure In where
  ack : Bool
  datI : BitVec 32
  rest : Picorv32.Inputs
  deriving Inhabited

/-- The core and its adapter. -/
structure System where
  core : Picorv32.State
  wb : Adapter

namespace System

variable (p : Picorv32.Params) (i : In) (s : System)

/-- The inputs of the core, `resetn` high. -/
def inputs : Picorv32.Inputs :=
  { i.rest with resetn := true, memReady := s.wb.memReady, memRdata := s.wb.memRdata }

/-- The clock edge of both. -/
def step : System where
  core := Picorv32.step p (s.inputs i) s.core
  wb := s.wb.step s.core.mem i.ack i.datI

/-- The system after a cycle of reset. -/
def afterReset : System where
  core := Picorv32.step p { i.rest with resetn := false } s.core
  wb := s.wb.reset

/-- The slave acknowledges. -/
def Acked : Prop := s.wb.stb = true ∧ i.ack = true

instance instDecidableAcked : Decidable (s.Acked i) :=
  inferInstanceAs (Decidable (_ ∧ _))

end System

/-- A run out of reset. -/
def run (p : Picorv32.Params) (env : ℕ → In) (i : In) (s : System) (n : ℕ) : System :=
  Clocked.run (System.step p) env (s.afterReset p i) n

variable {p : Picorv32.Params} {s : System} {i : In}

/-! ## Transactions -/

/-- The bus carries the native request. -/
structure Adapter.Carries (wb : Adapter) (m : Picorv32.Mem) : Prop where
  adr : wb.adr = m.memAddr
  dat : wb.dat = m.memWdata
  sel : wb.sel = m.memWstrb
  we : wb.we = (m.memWstrb != 0)

/-- Where a transaction stands. -/
inductive Stage (m : Picorv32.Mem) (wb : Adapter) : Prop
  | idle (hs : wb.state = .idle) (hstb : wb.stb = false) (hcyc : wb.cyc = false)
      (hready : m.memValid = true → wb.memReady = false)
  | asked (hs : wb.state = .wbstart) (hstb : wb.stb = true) (hcyc : wb.cyc = true)
      (hready : wb.memReady = false) (hv : m.memValid = true) (hreq : wb.Carries m)
  | answered (hs : wb.state = .wbend) (hstb : wb.stb = false) (hcyc : wb.cyc = false)
      (hready : wb.memReady = true) (hv : m.memValid = true)

/-- What holds of core and adapter from reset on. -/
structure Linked (s : System) : Prop where
  inv : Picorv32.Inv s.core
  stage : Stage s.core.mem s.wb

theorem linked_afterReset (p : Picorv32.Params) (i : In) (s : System) :
    Linked (s.afterReset p i) := by
  have hlow : (s.afterReset p i).core.mem.memValid = false :=
    (Picorv32.memStep_of_reset (s := s.core) (i := { i.rest with resetn := false }) rfl).2
  refine ⟨Picorv32.inv_reset rfl, .idle rfl rfl rfl fun hv => ?_⟩
  rw [hlow] at hv
  exact absurd hv (by decide)

/-- A native transfer comes a cycle after an acknowledge. -/
theorem Linked.xfer_of_stage (h : Linked s) (hs : s.wb.state ≠ .wbend) :
    Picorv32.memXfer s.core (s.inputs i) = false := by
  show (s.core.mem.memValid && s.wb.memReady) = false
  cases h.stage with
  | idle _ _ _ hready =>
      cases hv : s.core.mem.memValid with
      | false => rfl
      | true => rw [hready hv, Bool.and_false]
  | asked _ _ _ hready => rw [hready, Bool.and_false]
  | answered hs' => exact absurd hs' hs

/-- A request that is not answered is the same in the next cycle. -/
theorem Linked.held (h : Linked s) (hv : s.core.mem.memValid = true)
    (hready : s.wb.memReady = false) : (s.step p i).core.mem.bus = s.core.mem.bus :=
  Picorv32.request_held h.inv rfl hv hready

theorem bus_fields {m m' : Picorv32.Mem} (h : m'.bus = m.bus) : m'.memValid = m.memValid
    ∧ m'.memAddr = m.memAddr ∧ m'.memWdata = m.memWdata ∧ m'.memWstrb = m.memWstrb := by
  simp only [Picorv32.Mem.bus, Prod.mk.injEq] at h
  obtain ⟨hv, -, ha, hd, hs⟩ := h
  exact ⟨hv, ha, hd, hs⟩

/-- What the adapter carries it goes on carrying. -/
theorem Adapter.Carries.of_bus {wb : Adapter} {m m' : Picorv32.Mem} (h : wb.Carries m)
    (hbus : m'.bus = m.bus) : wb.Carries m' := by
  obtain ⟨-, ha, hd, hs⟩ := bus_fields hbus
  exact ⟨h.adr.trans ha.symm, h.dat.trans hd.symm, h.sel.trans hs.symm, hs ▸ h.we⟩

/-! ### Edges of the adapter -/

section

variable (m : Picorv32.Mem) (ack : Bool) (datI : BitVec 32) {wb : Adapter}

theorem Adapter.step_take {m : Picorv32.Mem} (hs : wb.state = .idle) (hv : m.memValid = true) :
    (wb.step m ack datI).state = .wbstart ∧ (wb.step m ack datI).stb = true
      ∧ (wb.step m ack datI).cyc = true ∧ (wb.step m ack datI).memReady = wb.memReady
      ∧ (wb.step m ack datI).Carries m := by
  simp only [Adapter.step, hs, hv, if_true]
  exact ⟨trivial, trivial, trivial, trivial, rfl, rfl, rfl, rfl⟩

theorem Adapter.step_rest {m : Picorv32.Mem} (hs : wb.state = .idle) (hv : m.memValid = false) :
    (wb.step m ack datI).state = .idle ∧ (wb.step m ack datI).stb = false
      ∧ (wb.step m ack datI).cyc = false ∧ (wb.step m ack datI).memReady = false := by
  simp [Adapter.step, hs, hv]

theorem Adapter.step_wait (hs : wb.state = .wbstart) : wb.step m false datI = wb := by
  simp [Adapter.step, hs]

theorem Adapter.step_ack (hs : wb.state = .wbstart) :
    (wb.step m true datI).state = .wbend ∧ (wb.step m true datI).stb = false
      ∧ (wb.step m true datI).cyc = false ∧ (wb.step m true datI).memReady = true
      ∧ (wb.step m true datI).memRdata = datI := by
  simp [Adapter.step, hs]

theorem Adapter.step_end (hs : wb.state = .wbend) :
    wb.step m ack datI = { wb with memReady := false, state := .idle } := by
  simp [Adapter.step, hs]

end

theorem Linked.step (h : Linked s) : Linked (s.step p i) := by
  refine ⟨Picorv32.inv_step h.inv rfl, ?_⟩
  show Stage (s.step p i).core.mem (s.wb.step s.core.mem i.ack i.datI)
  cases h.stage with
  | idle hs hstb hcyc hready =>
      cases hv : s.core.mem.memValid with
      | true =>
          have hbus := h.held (p := p) (i := i) hv (hready hv)
          obtain ⟨hs', hstb', hcyc', hready', hreq⟩ :=
            Adapter.step_take i.ack i.datI hs hv
          exact .asked hs' hstb' hcyc' (hready'.trans (hready hv)) ((bus_fields hbus).1.trans hv)
            (hreq.of_bus hbus)
      | false =>
          obtain ⟨hs', hstb', hcyc', hready'⟩ :=
            Adapter.step_rest i.ack i.datI hs hv
          exact .idle hs' hstb' hcyc' fun _ => hready'
  | asked hs hstb hcyc hready hv hreq =>
      have hbus := h.held (p := p) (i := i) hv hready
      have hv' := (bus_fields hbus).1.trans hv
      cases hack : i.ack with
      | true =>
          obtain ⟨hs', hstb', hcyc', hready', -⟩ := Adapter.step_ack s.core.mem i.datI hs
          exact .answered hs' hstb' hcyc' hready' hv'
      | false =>
          rw [Adapter.step_wait _ _ hs]
          exact .asked hs hstb hcyc hready hv' (hreq.of_bus hbus)
  | answered hs hstb hcyc hready hv =>
      rw [Adapter.step_end _ _ _ hs]
      exact .idle rfl hstb hcyc fun _ => rfl

theorem linked (p : Picorv32.Params) (env : ℕ → In) (i : In) (s : System) (n : ℕ) :
    Linked (run p env i s n) := by
  induction n with
  | zero => exact linked_afterReset p i s
  | succ n ih => exact ih.step

/-! ### What a transaction does -/

/-- Cycle `n` of a run with the states `st`. -/
structure Transacts (env : ℕ → In) (st : ℕ → System) (n : ℕ) : Prop where
  cyc : (st n).wb.cyc = (st n).wb.stb
  -- the bus carries a native request, and no other
  carried : (st n).wb.stb = true →
    (st n).core.mem.memValid = true ∧ (st n).wb.Carries (st n).core.mem
  -- a request without an answer is on the bus a cycle later, waits there for the slave, and leaves
  -- the bus after the acknowledge
  raised : (st n).core.mem.memValid = true →
    Picorv32.memXfer (st n).core ((st n).inputs (env n)) = false → (st n).wb.stb = false →
    (st (n + 1)).wb.stb = true ∧ (st (n + 1)).wb.cyc = true ∧
      (st (n + 1)).wb.Carries (st (n + 1)).core.mem
  held : (st n).wb.stb = true → (env n).ack = false → (st (n + 1)).wb = (st n).wb
  released : (st n).Acked (env n) → (st (n + 1)).wb.stb = false ∧ (st (n + 1)).wb.cyc = false
  -- a native transfer for each acknowledge, with what was on the bus
  once : Picorv32.memXfer (st (n + 1)).core ((st (n + 1)).inputs (env (n + 1))) = true ↔
    (st n).Acked (env n)
  payload : (st n).Acked (env n) → (st n).wb.Carries (st (n + 1)).core.mem
  rdata : (st n).Acked (env n) →
    ((st (n + 1)).inputs (env (n + 1))).memRdata = (env n).datI

theorem Linked.acked (h : Linked s) (hack : s.Acked i) : s.wb.state = .wbstart
    ∧ (s.step p i).wb.state = .wbend ∧ (s.step p i).wb.memReady = true
    ∧ (s.step p i).wb.memRdata = i.datI ∧ s.wb.Carries (s.step p i).core.mem
    ∧ (s.step p i).core.mem.memValid = true := by
  obtain ⟨hstb, hack⟩ := hack
  cases h.stage with
  | idle _ hlow =>
      rw [hlow] at hstb
      exact absurd hstb (by decide)
  | asked hs _ _ hready hv hreq =>
      have hbus := h.held (p := p) (i := i) hv hready
      have hnext : (s.step p i).wb = s.wb.step s.core.mem true i.datI := by rw [← hack]; rfl
      obtain ⟨hs', -, -, hready', hdata⟩ := Adapter.step_ack s.core.mem i.datI hs
      exact ⟨hs, hnext ▸ hs', hnext ▸ hready', hnext ▸ hdata, hreq.of_bus hbus,
        (bus_fields hbus).1.trans hv⟩
  | answered _ hlow =>
      rw [hlow] at hstb
      exact absurd hstb (by decide)

theorem Linked.not_acked (h : Linked s) (hack : ¬s.Acked i) : (s.step p i).wb.state ≠ .wbend := by
  show (s.wb.step s.core.mem i.ack i.datI).state ≠ .wbend
  cases h.stage with
  | idle hs =>
      cases hv : s.core.mem.memValid with
      | true => rw [(Adapter.step_take i.ack i.datI hs hv).1]; decide
      | false => rw [(Adapter.step_rest i.ack i.datI hs hv).1]; decide
  | asked hs hstb =>
      have hlow : i.ack = false := by simpa [System.Acked, hstb] using hack
      rw [hlow, Adapter.step_wait _ _ hs, hs]
      decide
  | answered hs =>
      rw [Adapter.step_end _ _ _ hs]
      exact fun hc => by cases hc

theorem Linked.once (h : Linked s) (j : In) :
    Picorv32.memXfer (s.step p i).core ((s.step p i).inputs j) = true ↔ s.Acked i := by
  by_cases hack : s.Acked i
  · obtain ⟨-, -, hready, -, -, hv⟩ := h.acked (p := p) hack
    refine ⟨fun _ => hack, fun _ => ?_⟩
    show ((s.step p i).core.mem.memValid && (s.step p i).wb.memReady) = true
    rw [hv, hready]
    rfl
  · rw [(h.step (p := p) (i := i)).xfer_of_stage (h.not_acked hack)]
    exact ⟨fun hx => absurd hx (by decide), fun hx => absurd hx hack⟩

/-- An acknowledge takes the request off the bus. -/
theorem Linked.released (h : Linked s) (hack : s.Acked i) :
    (s.step p i).wb.stb = false ∧ (s.step p i).wb.cyc = false := by
  have hnext := (h.acked (p := p) hack).2.1
  cases (h.step (p := p) (i := i)).stage with
  | idle hs => exact absurd (hnext.symm.trans hs) (by decide)
  | asked hs => exact absurd (hnext.symm.trans hs) (by decide)
  | answered _ hstb hcyc => exact ⟨hstb, hcyc⟩

/-- A request that waits for the bus is on it in the next cycle. -/
theorem Linked.raised (h : Linked s) (hv : s.core.mem.memValid = true)
    (hx : Picorv32.memXfer s.core (s.inputs i) = false) (hlow : s.wb.stb = false) :
    (s.step p i).wb.stb = true ∧ (s.step p i).wb.cyc = true ∧
      (s.step p i).wb.Carries (s.step p i).core.mem := by
  cases h.stage with
  | idle hs _ _ hready =>
      obtain ⟨-, hstb, hcyc, -, hreq⟩ := Adapter.step_take i.ack i.datI hs hv
      exact ⟨hstb, hcyc, hreq.of_bus (h.held hv (hready hv))⟩
  | asked _ hstb => exact absurd (hlow.symm.trans hstb) (by decide)
  | answered _ _ _ hready =>
      have hxfer : Picorv32.memXfer s.core (s.inputs i) = true := by
        show (s.core.mem.memValid && s.wb.memReady) = true
        rw [hv, hready]
        rfl
      exact absurd (hx.symm.trans hxfer) (by decide)

theorem Linked.waits (h : Linked s) (hstb : s.wb.stb = true) (hack : i.ack = false) :
    (s.step p i).wb = s.wb := by
  cases h.stage with
  | idle _ hlow => exact absurd (hlow.symm.trans hstb) (by decide)
  | asked hs =>
      show s.wb.step _ i.ack i.datI = _
      rw [hack, Adapter.step_wait _ _ hs]
  | answered _ hlow => exact absurd (hlow.symm.trans hstb) (by decide)

theorem Linked.carried (h : Linked s) (hstb : s.wb.stb = true) :
    s.core.mem.memValid = true ∧ s.wb.Carries s.core.mem := by
  cases h.stage with
  | idle _ hlow => exact absurd (hlow.symm.trans hstb) (by decide)
  | asked _ _ _ _ hv hreq => exact ⟨hv, hreq⟩
  | answered _ hlow => exact absurd (hlow.symm.trans hstb) (by decide)

/-! ### A slave that acknowledges -/

section

variable {env : ℕ → In} {st : ℕ → System} (hlinked : ∀ n, Linked (st n))
  (hstep : ∀ n, st (n + 1) = (st n).step p (env n))
  (hacks : ∀ n, (st n).wb.stb = true → ∃ k, n ≤ k ∧ (env k).ack = true)
include hlinked hstep hacks

/-- A request on the bus is acknowledged. -/
theorem acked_of_stb {n : ℕ} (hstb : (st n).wb.stb = true) :
    ∃ k, n ≤ k ∧ (st k).Acked (env k) := by
  obtain ⟨k, hk, hack⟩ := hacks n hstb
  obtain ⟨d, rfl⟩ := Nat.exists_eq_add_of_le hk
  clear hk
  induction d generalizing n with
  | zero => exact ⟨n, le_rfl, hstb, hack⟩
  | succ d ih =>
      by_cases hnow : (env n).ack = true
      · exact ⟨n, le_rfl, hstb, hnow⟩
      · -- the bus stays as it is for another cycle
        have hwb : (st (n + 1)).wb = (st n).wb := by
          rw [hstep]
          exact (hlinked n).waits hstb (by simpa using hnow)
        obtain ⟨k, hk, hacked⟩ := ih (n := n + 1) (by rw [hwb]; exact hstb)
          (by rw [Nat.add_right_comm]; exact hack)
        exact ⟨k, by omega, hacked⟩

/-- A request is answered. -/
theorem xfer_of_valid {n : ℕ} (hv : (st n).core.mem.memValid = true) :
    ∃ k, n ≤ k ∧ Picorv32.memXfer (st k).core ((st k).inputs (env k)) = true := by
  have hanswer {m : ℕ} (hm : n ≤ m) (hstb : (st m).wb.stb = true) :
      ∃ k, n ≤ k ∧ Picorv32.memXfer (st k).core ((st k).inputs (env k)) = true := by
    obtain ⟨k, hk, hack⟩ := acked_of_stb hlinked hstep hacks hstb
    refine ⟨k + 1, by omega, ?_⟩
    rw [hstep k]
    exact ((hlinked k).once _).2 hack
  by_cases hx : Picorv32.memXfer (st n).core ((st n).inputs (env n)) = true
  · exact ⟨n, le_rfl, hx⟩
  · by_cases hstb : (st n).wb.stb = true
    · exact hanswer le_rfl hstb
    · refine hanswer (Nat.le_succ n) ?_
      rw [hstep]
      exact ((hlinked n).raised hv (by simpa using hx) (by simpa using hstb)).1

end

/-- **Every native transaction is one bus transaction.** After reset, whatever the slave and the
    program do, a request goes on the bus, stays there until it is acknowledged and then leaves it,
    and the processor gets its answer in the cycle after, once. A slave that acknowledges answers
    every request. -/
theorem transactions_once (p : Picorv32.Params) (env : ℕ → In) (i : In) (s : System) :
    Picorv32.memXfer (run p env i s 0).core ((run p env i s 0).inputs (env 0)) = false
      ∧ (∀ n, Transacts env (run p env i s) n)
      ∧ ((∀ n, (run p env i s n).wb.stb = true → ∃ k, n ≤ k ∧ (env k).ack = true) →
        ∀ n, (run p env i s n).core.mem.memValid = true → ∃ k, n ≤ k ∧
          Picorv32.memXfer (run p env i s k).core ((run p env i s k).inputs (env k)) = true) := by
  refine ⟨(linked p env i s 0).xfer_of_stage fun hs => ?_, fun n => ?_, fun hacks n hv =>
    xfer_of_valid (linked p env i s) (fun _ => rfl) hacks hv⟩
  · cases hs
  · have h := linked p env i s n
    refine ⟨?_, h.carried, h.raised, h.waits, h.released, h.once _,
      fun hack => (h.acked hack).2.2.2.2.1, fun hack => (h.acked hack).2.2.2.1⟩
    cases h.stage with
    | idle _ hstb hcyc => rw [hstb, hcyc]
    | asked _ hstb hcyc => rw [hstb, hcyc]
    | answered _ hstb hcyc => rw [hstb, hcyc]

/-- A slave that acknowledges in every third cycle, with `addi x0, x0, 0` at each address. -/
def thirds (n : ℕ) : In := ⟨n % 3 == 0, 0x13, default⟩

theorem transactions_once_thirds :
    let st := run {} thirds default ⟨default, default⟩
    -- the first fetch is on the bus in cycle 3 and answered in cycle 4
    ((st 2).core.mem.memValid = true ∧ (st 3).wb.stb = true ∧ (st 4).wb.stb = false ∧
        Picorv32.memXfer (st 4).core ((st 4).inputs (thirds 4)) = true ∧
        ((st 4).inputs (thirds 4)).memRdata = 0x13)
      ∧ ∀ n, (st n).core.mem.memValid = true → ∃ k, n ≤ k ∧
        Picorv32.memXfer (st k).core ((st k).inputs (thirds k)) = true := by
  intro st
  obtain ⟨-, htransacts, hanswered⟩ := transactions_once {} thirds default ⟨default, default⟩
  have hvalid : (st 2).core.mem.memValid = true := by decide +kernel
  have hstb : (st 3).wb.stb = true :=
    ((htransacts 2).raised hvalid (by decide +kernel) (by decide +kernel)).1
  have hacked : (st 3).Acked (thirds 3) := ⟨hstb, rfl⟩
  exact ⟨⟨hvalid, hstb, ((htransacts 3).released hacked).1, (htransacts 3).once.2 hacked,
    (htransacts 3).rdata hacked⟩, hanswered fun n _ => ⟨3 * n, by omega, by simp [thirds]⟩⟩

/-! ## A memory as slave -/

/-- The system and a memory that gives the word at the address and takes the selected bytes, in the
    cycle of its acknowledge. -/
structure Closed where
  sys : System
  mem : Memory

namespace Closed

variable (p : Picorv32.Params) (i : In) (s : Closed)

/-- The slave gives the word at the address. -/
def inputs : In := { i with datI := s.mem.word s.sys.wb.adr }

/-- The clock edge of both. -/
def step : Closed where
  sys := s.sys.step p (s.inputs i)
  mem :=
    if s.sys.Acked i ∧ s.sys.wb.we = true then
      Picorv32.busStore s.mem s.sys.wb.adr s.sys.wb.dat s.sys.wb.sel
    else s.mem

end Closed

/-- The system after a reset, with the memory `m`. -/
def Closed.afterReset (p : Picorv32.Params) (i : In) (s : System) (m : Memory) : Closed :=
  ⟨s.afterReset p i, m⟩

/-- A run after the reset of the system `before`, with `mem` in the slave, which acknowledges. -/
structure MemRun (p : Picorv32.Params) where
  env : ℕ → In
  reset : In
  before : System
  mem : Memory
  acks : ∀ n, (Clocked.run (Closed.step p) env (.afterReset p reset before mem) n).sys.wb.stb = true →
    ∃ k, n ≤ k ∧ (env k).ack = true

namespace MemRun

variable {p : Picorv32.Params} (r : MemRun p) {n : ℕ}

/-- The system and its memory in cycle `n`. -/
def state (n : ℕ) : Closed :=
  Clocked.run (Closed.step p) r.env (.afterReset p r.reset r.before r.mem) n

theorem linked_state (n : ℕ) : Linked (r.state n).sys := by
  induction n with
  | zero => exact linked_afterReset p r.reset r.before
  | succ n ih => exact ih.step

/-- The inputs of the core. -/
def inputs (n : ℕ) : Picorv32.Inputs := (r.state n).sys.inputs ((r.state n).inputs (r.env n))

/-- The memory as the native transfers leave it: a cycle behind the slave. -/
def nativeMem : ℕ → Memory
  | 0 => (r.state 0).mem
  | n + 1 => (r.state n).mem

theorem once (n : ℕ) : Picorv32.memXfer (r.state (n + 1)).sys.core (r.inputs (n + 1)) = true ↔
    (r.state n).sys.Acked (r.env n) :=
  (r.linked_state n).once _

theorem no_xfer_zero : Picorv32.memXfer (r.state 0).sys.core (r.inputs 0) = false := by
  refine (r.linked_state 0).xfer_of_stage fun hs => ?_
  cases hs

theorem nativeMem_succ (n : ℕ) : r.nativeMem (n + 1) =
    Picorv32.transferMem (r.state n).sys.core (r.inputs n) (r.nativeMem n) := by
  cases n with
  | zero =>
      rw [Picorv32.transferMem, r.no_xfer_zero]
      rfl
  | succ n =>
      show (r.state (n + 1)).mem = Picorv32.transferMem _ _ (r.state n).mem
      rw [Picorv32.transferMem]
      by_cases hack : (r.state n).sys.Acked (r.env n)
      · obtain ⟨-, -, -, -, hreq, -⟩ := (r.linked_state n).acked (p := p)
          (i := (r.state n).inputs (r.env n)) hack
        have hreq : (r.state n).sys.wb.Carries (r.state (n + 1)).sys.core.mem := hreq
        rw [if_pos ((r.once n).2 hack), ← hreq.adr, ← hreq.dat, ← hreq.sel]
        show (if _ then _ else _) = _
        split_ifs with hwe
        · rfl
        · -- a read selects no byte
          have hwstrb : (r.state (n + 1)).sys.core.mem.memWstrb = 0 := by
            have hwe := hreq.we.symm.trans (Bool.eq_false_iff.2 fun hc => hwe ⟨hack, hc⟩)
            simpa using hwe
          rw [hreq.sel, hwstrb, Picorv32.busStore_zero]
          rfl
      · rw [if_neg fun hx => hack ((r.once n).1 hx)]
        exact if_neg fun hc => hack hc.1

theorem reads (n : ℕ) (hx : Picorv32.memXfer (r.state n).sys.core (r.inputs n) = true)
    (hstrb : (r.state n).sys.core.mem.memWstrb = 0) :
    (r.inputs n).memRdata = (r.nativeMem n).word (r.state n).sys.core.mem.memAddr := by
  cases n with
  | zero =>
      rw [r.no_xfer_zero] at hx
      exact absurd hx (by decide)
  | succ n =>
      obtain ⟨-, -, -, hdata, hreq, -⟩ := (r.linked_state n).acked (p := p)
        (i := (r.state n).inputs (r.env n)) ((r.once n).1 hx)
      have hreq : (r.state n).sys.wb.Carries (r.state (n + 1)).sys.core.mem := hreq
      rw [← hreq.adr]
      exact hdata

theorem answers (n : ℕ) (hv : (r.state n).sys.core.mem.memValid = true) :
    ∃ k, n ≤ k ∧ (r.inputs k).memReady = true := by
  have hstep (n : ℕ) : (r.state (n + 1)).sys =
      (r.state n).sys.step p ((r.state n).inputs (r.env n)) := rfl
  obtain ⟨k, hk, hx⟩ := xfer_of_valid r.linked_state hstep r.acks hv
  exact ⟨k, hk, (Bool.and_eq_true_iff.1 hx).2⟩

/-- The core on the bus. -/
def port : Picorv32.PortRun p where
  env := r.inputs
  core := fun n => (r.state n).sys.core
  mem := r.nativeMem
  resetn := fun _ => rfl
  core_succ := fun _ => rfl
  mem_succ := r.nativeMem_succ
  reads := r.reads
  answers := r.answers

end MemRun

/-- **The processor implements RV32I on a Wishbone bus.** On every slave with a memory that
    acknowledges in the end, the launches are those of the harts of the instruction set, and at each
    launch the memory of the slave is that of the hart. -/
theorem wishbone_implements_rv32i {r : MemRun {}} {h : ℕ → Hart}
    (hfirst : h 0 = Picorv32.resetHart {} r.before.core r.mem)
    (hstep : ∀ k, (h k).step = some (h (k + 1)))
    (hcode : ∀ k, (h (k + 1)).mem.word (h (k + 1)).pc = (h k).mem.word (h (k + 1)).pc) :
    ∃ t : ℕ → ℕ, StrictMono t
      ∧ (∀ n, Picorv32.launchNextInsn {} (r.state n).sys.core = true ↔ ∃ k, t k = n)
      ∧ ∀ k, Picorv32.Presents (h k) ⟨(r.state (t k + 1)).sys.core, (r.state (t k)).mem⟩ := by
  have hrun : r.port.run.start = .afterReset {} r.reset.rest r.before.core r.mem := rfl
  obtain ⟨t, hmono, hmarks, hpresents⟩ :=
    Picorv32.launches_of_steps Picorv32.plain_default hrun hfirst hstep hcode
  refine ⟨t, hmono, fun n => ?_, fun k => ?_⟩
  · rw [← hmarks n, Picorv32.Run.launches, r.port.run_state]
    rfl
  · have hk := hpresents k
    rw [r.port.run_state] at hk
    exact hk

/-- The loop, with the slave that acknowledges in every third cycle. -/
def loopRun : MemRun {} where
  env := thirds
  reset := default
  before := ⟨default, default⟩
  mem := Picorv32.loopCode
  acks := fun n _ => ⟨3 * n, by omega, by simp [thirds]⟩

/-- The loop on the bus. -/
theorem wishbone_implements_rv32i_loop : ∃ t : ℕ → ℕ, StrictMono t
    ∧ (∀ n, Picorv32.launchNextInsn {} (loopRun.state n).sys.core = true ↔ ∃ k, t k = n)
    ∧ ∀ k, Picorv32.Presents (Picorv32.loopHart k)
      ⟨(loopRun.state (t k + 1)).sys.core, (loopRun.state (t k)).mem⟩ :=
  wishbone_implements_rv32i (Picorv32.loopHart_zero {} rfl) Picorv32.loopHart_step
    Picorv32.loopHart_code

end PicoSoc.Wishbone
