import PicoSoc.Cpu.Core
import PicoSoc.Library.Leads
import PicoSoc.Library.Rv32i

set_option autoImplicit false

/-! # The processor with a memory

The memory answers a read with the word at the address and takes the strobed bytes of a write, both in
the cycle in which `mem_ready` meets `mem_valid`. When that is, the inputs say. -/

namespace PicoSoc.Picorv32

open Clocked

/-! ## Machines -/

/-- What a cycle shows: a write to the register file or a transfer of data. -/
inductive Event
  | reg (rd : BitVec 6) (value : BitVec 32)
  | load (addr value : BitVec 32)
  | store (addr data : BitVec 32) (strb : BitVec 4)
  deriving DecidableEq

/-- The core and the memory. -/
structure Machine where
  core : State
  mem : Rv32i.Memory

/-- The strobed bytes of `data` at a word. -/
def busStore (m : Rv32i.Memory) (addr data : BitVec 32) (strb : BitVec 4) : Rv32i.Memory := fun x =>
  if (x - addr).toNat < 4 ∧ strb.getLsbD (x - addr).toNat = true then
    data.extractLsb' (8 * (x - addr).toNat) 8
  else m x

namespace Machine

variable (p : Params) (i : Inputs) (s : Machine)

/-- The inputs, with the answer of the memory. -/
def inputs : Inputs :=
  if memXfer s.core i && s.core.mem.memWstrb == 0 then
    { i with memRdata := s.mem.word s.core.mem.memAddr }
  else i

/-- The clock edge of both. -/
def step : Machine where
  core := Picorv32.step p (s.inputs i) s.core
  mem :=
    if memXfer s.core i then
      busStore s.mem s.core.mem.memAddr s.core.mem.memWdata s.core.mem.memWstrb
    else s.mem

/-- The transfers that are not instruction fetches. -/
def transfers : List Event :=
  let m := s.core.mem
  if memXfer s.core i && !m.memInstr then
    [if m.memWstrb = 0 then .load m.memAddr (s.mem.word m.memAddr)
      else .store m.memAddr m.memWdata m.memWstrb]
  else []

end Machine

/-- The write to the register file in a cycle. -/
def retires (p : Params) (s : State) : List Event :=
  match cpuregsWrite p s with
  | some v => if s.main.latchedRd = 0 then [] else [.reg s.main.latchedRd v]
  | none => []

/-- The events of a cycle: a transfer and the end of an instruction. -/
def Machine.events (p : Params) (i : Inputs) (s : Machine) : List Event :=
  s.transfers i ++ retires p s.core

/-- The processor after a reset, from any registers. -/
def Machine.afterReset (p : Params) (i : Inputs) (s : State) (m : Rv32i.Memory) : Machine where
  core := Picorv32.step p { i with resetn := false } s
  mem := m

/-- A run out of reset, and the memory answers in it. -/
structure Run (p : Params) where
  env : ℕ → Inputs
  start : Machine
  resetn : ∀ n, (env n).resetn = true
  answers : ∀ n, (Clocked.run (Machine.step p) env start n).core.mem.memValid = true →
    ∃ k, n ≤ k ∧ (env k).memReady = true

namespace Run

variable {p : Params} (r : Run p)

/-- The machine in cycle `n`. -/
def state (n : ℕ) : Machine := Clocked.run (Machine.step p) r.env r.start n

/-- The inputs of the core in a cycle. -/
def inputs (n : ℕ) : Inputs := (r.state n).inputs (r.env n)

/-- The events of cycle `n`. -/
def events (n : ℕ) : List Event := (r.state n).events p (r.env n)

/-- The cycles that launch an instruction. -/
def launches (n : ℕ) : Prop := launchNextInsn p (r.state n).core = true

end Run

/-! ## The memory interface -/

section

variable {s : State} {i : Inputs}

theorem inputs_resetn (i : Inputs) (s : Machine) : (s.inputs i).resetn = i.resetn := by
  unfold Machine.inputs
  split <;> rfl

theorem busStore_zero (m : Rv32i.Memory) (addr data : BitVec 32) : busStore m addr data 0 = m := by
  funext x
  rw [busStore, if_neg]
  rintro ⟨-, h⟩
  simp at h

/-- Nothing on the bus. -/
structure Free (s : State) : Prop where
  memState : s.mem.memState = .idle
  memValid : s.mem.memValid = false

/-- A read of the word at `addr`. -/
structure Reading (instr : Bool) (addr : BitVec 32) (s : State) : Prop where
  memState : s.mem.memState = .read
  memValid : s.mem.memValid = true
  memInstr : s.mem.memInstr = instr
  memAddr : s.mem.memAddr = addr
  memWstrb : s.mem.memWstrb = 0

/-- A store is on the bus. -/
structure Writing (addr data : BitVec 32) (strb : BitVec 4) (s : State) : Prop where
  memState : s.mem.memState = .write
  memValid : s.mem.memValid = true
  memInstr : s.mem.memInstr = false
  memAddr : s.mem.memAddr = addr
  memWdata : s.mem.memWdata = data
  memWstrb : s.mem.memWstrb = strb

/-- A word fetched ahead. -/
structure Prefetched (v : BitVec 32) (s : State) : Prop where
  memState : s.mem.memState = .prefetched
  memValid : s.mem.memValid = false
  memRdataQ : s.mem.memRdataQ = v

/-- The requests of the main state machine. -/
structure Asks (m : Main) (prefetch rinst rdata wdata : Bool) : Prop where
  prefetch : m.memDoPrefetch = prefetch
  rinst : m.memDoRinst = rinst
  rdata : m.memDoRdata = rdata
  wdata : m.memDoWdata = wdata

theorem Free.xfer (h : Free s) (i : Inputs) : memXfer s i = false := by
  rw [memXfer, h.memValid, Bool.false_and]

theorem Prefetched.xfer {v : BitVec 32} (h : Prefetched v s) (i : Inputs) : memXfer s i = false := by
  rw [memXfer, h.memValid, Bool.false_and]

theorem Free.done (h : Free s) (i : Inputs) : memDone s i = false := by
  simp [memDone, h.xfer i, h.memState]

theorem Prefetched.done {v : BitVec 32} (h : Prefetched v s) {i : Inputs} (hr : i.resetn = true) :
    memDone s i = s.main.memDoRinst := by
  simp [memDone, h.xfer i, h.memState, hr]

theorem Reading.xfer {b : Bool} {a : BitVec 32} (h : Reading b a s) (i : Inputs) :
    memXfer s i = i.memReady := by
  rw [memXfer, h.memValid, Bool.true_and]

theorem Reading.done {b : Bool} {a : BitVec 32} (h : Reading b a s) {i : Inputs}
    (hr : i.resetn = true) : memDone s i =
      (i.memReady && (s.main.memDoRinst || s.main.memDoRdata || s.main.memDoWdata)) := by
  simp [memDone, h.xfer i, h.memState, hr,
    show (MemState.read != MemState.idle) = true from rfl,
    show (MemState.read == MemState.prefetched) = false from rfl]

theorem Writing.xfer {a d : BitVec 32} {b : BitVec 4} (h : Writing a d b s) (i : Inputs) :
    memXfer s i = i.memReady := by
  rw [memXfer, h.memValid, Bool.true_and]

theorem Writing.done {a d : BitVec 32} {b : BitVec 4} (h : Writing a d b s) {i : Inputs}
    (hr : i.resetn = true) : memDone s i =
      (i.memReady && (s.main.memDoRinst || s.main.memDoRdata || s.main.memDoWdata)) := by
  simp [memDone, h.xfer i, h.memState, hr,
    show (MemState.write != MemState.idle) = true from rfl,
    show (MemState.write == MemState.prefetched) = false from rfl]

variable (hr : i.resetn = true) (ht : s.main.trap = false)

include hr ht

/-- Without a request nothing happens. -/
theorem Free.edge_none (h : Free s) (ha : Asks s.main false false false false) :
    memStep s i = s.mem := by
  have hx := h.xfer i
  simp [memStep, memIdle, memLaRead, memLaWrite, hr, ht, hx, h.memState, ha.prefetch, ha.rinst,
    ha.rdata, ha.wdata]

/-- A fetch begins. -/
theorem Free.edge_fetch (h : Free s) {b c : Bool} (hbc : (b || c) = true)
    (ha : Asks s.main b c false false) :
    memStep s i = { s.mem with
      memAddr := (nextPc s).extractLsb' 2 30 ++ 0#2
      memWstrb := 0
      memValid := true
      memInstr := true
      memState := .read } := by
  have hx := h.xfer i
  have hcb : (c || b) = true := by rw [Bool.or_comm, hbc]
  simp [memStep, memIdle, memLaRead, memLaWrite, memLaAddr, hr, ht, hx, h.memState, ha.prefetch,
    ha.rinst, ha.rdata, ha.wdata, hbc, hcb]

/-- A load begins. -/
theorem Free.edge_load (h : Free s) (ha : Asks s.main false false true false) :
    memStep s i = { s.mem with
      memAddr := s.main.regOp1.extractLsb' 2 30 ++ 0#2
      memWstrb := 0
      memValid := true
      memInstr := false
      memState := .read } := by
  have hx := h.xfer i
  simp [memStep, memIdle, memLaRead, memLaWrite, memLaAddr, hr, ht, hx, h.memState, ha.prefetch,
    ha.rinst, ha.rdata, ha.wdata]

/-- A store begins. -/
theorem Free.edge_store (h : Free s) (ha : Asks s.main false false false true) :
    memStep s i = { s.mem with
      memAddr := s.main.regOp1.extractLsb' 2 30 ++ 0#2
      memWstrb := memLaWstrb s i
      memWdata := memLaWdata s i
      memValid := true
      memInstr := false
      memState := .write } := by
  have hx := h.xfer i
  simp [memStep, memIdle, memLaRead, memLaWrite, memLaAddr, hr, ht, hx, h.memState, ha.prefetch,
    ha.rinst, ha.rdata, ha.wdata]

/-- A read waits or ends. -/
theorem Reading.edge {b : Bool} {a : BitVec 32} (h : Reading b a s) :
    memStep s i =
      if i.memReady then
        { s.mem with
          memRdataQ := i.memRdata
          memValid := false
          memState := if s.main.memDoRinst || s.main.memDoRdata then .idle else .prefetched }
      else s.mem := by
  have hx := h.xfer i
  cases hready : i.memReady <;>
    simp [memStep, memLaRead, memLaWrite, hr, ht, hx, hready, h.memState]

theorem Writing.edge {a d : BitVec 32} {b : BitVec 4} (h : Writing a d b s) :
    memStep s i =
      if i.memReady then
        { s.mem with memRdataQ := i.memRdata, memValid := false, memState := .idle }
      else s.mem := by
  have hx := h.xfer i
  cases hready : i.memReady <;>
    simp [memStep, memLaRead, memLaWrite, hr, ht, hx, hready, h.memState]

/-- A word fetched ahead waits to be taken. -/
theorem Prefetched.edge {v : BitVec 32} (h : Prefetched v s) :
    memStep s i = if s.main.memDoRinst then { s.mem with memState := .idle } else s.mem := by
  have hx := h.xfer i
  cases hrinst : s.main.memDoRinst <;>
    simp [memStep, memLaRead, memLaWrite, hr, ht, hx, h.memState, hrinst]

end

/-! ## Fetching ahead -/

section

variable {p : Params} {s : Machine} {i : Inputs} {addr : BitVec 32}

/-- The next instruction is on its way, or it has come. -/
def Fetching (addr : BitVec 32) (s : Machine) : Prop :=
  Reading true addr s.core ∨ Prefetched (s.mem.word addr) s.core

theorem step_mem_of_not_xfer (h : memXfer s.core i = false) : (s.step p i).mem = s.mem := by
  rw [Machine.step, h]
  rfl

theorem Reading.step_mem {b : Bool} (h : Reading b addr s.core) : (s.step p i).mem = s.mem := by
  show (if _ then busStore s.mem _ _ s.core.mem.memWstrb else s.mem) = s.mem
  rw [h.memWstrb, busStore_zero, ite_self]

theorem Reading.rdata {b : Bool} (h : Reading b addr s.core) (hready : i.memReady = true) :
    (s.inputs i).memRdata = s.mem.word addr := by
  have hx : memXfer s.core i = true := by rw [h.xfer, hready]
  simp [Machine.inputs, hx, h.memWstrb, h.memAddr]

theorem inputs_memReady (i : Inputs) (s : Machine) : (s.inputs i).memReady = i.memReady := by
  unfold Machine.inputs
  split <;> rfl

theorem transfers_of_not_xfer (h : memXfer s.core i = false) : s.transfers i = [] := by
  simp [Machine.transfers, h]

theorem transfers_of_instr (h : s.core.mem.memInstr = true) : s.transfers i = [] := by
  simp [Machine.transfers, h]

theorem Fetching.transfers (h : Fetching addr s) : s.transfers i = [] := by
  rcases h with h | h
  · exact transfers_of_instr h.memInstr
  · exact transfers_of_not_xfer (h.xfer i)

theorem Fetching.step_mem (h : Fetching addr s) : (s.step p i).mem = s.mem := by
  rcases h with h | h
  · exact h.step_mem
  · exact step_mem_of_not_xfer (h.xfer i)

variable (hr : i.resetn = true) (ht : s.core.main.trap = false)

include hr ht

/-- While the instruction is not wanted yet, it stays on its way. -/
theorem Fetching.hold (h : Fetching addr s) {b : Bool} (ha : Asks s.core.main b false false false) :
    Fetching addr (s.step p i) ∧ memDone s.core (s.inputs i) = false := by
  have hr' : (s.inputs i).resetn = true := by rw [inputs_resetn, hr]
  have hmem : (s.step p i).mem = s.mem := h.step_mem
  rcases h with h | h
  · refine ⟨?_, by rw [h.done hr', ha.rinst, ha.rdata, ha.wdata, Bool.or_false, Bool.or_false,
      Bool.and_false]⟩
    have hstep := h.edge hr' ht
    rw [inputs_memReady, ha.rinst, ha.rdata] at hstep
    by_cases hready : i.memReady = true
    · right
      rw [if_pos hready, h.rdata hready] at hstep
      exact ⟨by rw [show (s.step p i).core.mem = _ from hstep]; rfl,
        by rw [show (s.step p i).core.mem = _ from hstep],
        by rw [show (s.step p i).core.mem = _ from hstep, hmem]⟩
    · left
      rw [if_neg hready] at hstep
      obtain ⟨h₁, h₂, h₃, h₄, h₅⟩ := h
      rw [← hstep] at h₁ h₂ h₃ h₄ h₅
      exact ⟨h₁, h₂, h₃, h₄, h₅⟩
  · refine ⟨.inr ?_, by rw [h.done hr', ha.rinst]⟩
    have hstep := h.edge hr' ht
    rw [ha.rinst, if_neg (by decide)] at hstep
    obtain ⟨h₁, h₂, h₃⟩ := h
    rw [← hstep] at h₁ h₂ h₃
    exact ⟨h₁, h₂, by rw [hmem]; exact h₃⟩

/-- A wanted instruction comes when the memory answers, or is there. -/
theorem Fetching.take (hl : p.latchedMemRdata = false) (h : Fetching addr s) {b : Bool}
    (ha : Asks s.core.main b true false false) :
    (Reading true addr s.core ∧ i.memReady = false ∧ Reading true addr (s.step p i).core
        ∧ memDone s.core (s.inputs i) = false)
      ∨ (memDone s.core (s.inputs i) = true ∧ Free (s.step p i).core
        ∧ (s.step p i).core.mem.memRdataQ = s.mem.word addr
        ∧ memRdataLatched p s.core (s.inputs i) = s.mem.word addr) := by
  have hr' : (s.inputs i).resetn = true := by rw [inputs_resetn, hr]
  -- the word is being read, or was prefetched
  rcases h with h | h
  · have hstep := h.edge hr' ht
    rw [inputs_memReady, ha.rinst] at hstep
    by_cases hready : i.memReady = true
    · right
      have hx : memXfer s.core (s.inputs i) = true := by rw [h.xfer, inputs_memReady, hready]
      rw [if_pos hready, h.rdata hready] at hstep
      have hstep : (s.step p i).core.mem = _ := hstep
      refine ⟨by rw [h.done hr', inputs_memReady, hready, ha.rinst]; rfl, ⟨?_, ?_⟩, ?_, ?_⟩
      · rw [hstep]
        rfl
      · rw [hstep]
      · rw [hstep]
      · rw [memRdataLatched, hx, h.rdata hready]
        rfl
    · left
      have hlow : i.memReady = false := by simpa using hready
      rw [if_neg hready] at hstep
      refine ⟨h, hlow, ?_, by rw [h.done hr', inputs_memReady, hlow, Bool.false_and]⟩
      obtain ⟨h₁, h₂, h₃, h₄, h₅⟩ := h
      rw [← hstep] at h₁ h₂ h₃ h₄ h₅
      exact ⟨h₁, h₂, h₃, h₄, h₅⟩
  · right
    have hstep := h.edge hr' ht
    rw [ha.rinst, if_pos rfl] at hstep
    have hstep : (s.step p i).core.mem = _ := hstep
    refine ⟨by rw [h.done hr', ha.rinst], ⟨?_, ?_⟩, ?_, ?_⟩
    · rw [hstep]
    · rw [hstep]
      exact h.memValid
    · rw [hstep]
      exact h.memRdataQ
    · rw [memRdataLatched, h.xfer, hl]
      exact h.memRdataQ

end

end PicoSoc.Picorv32
