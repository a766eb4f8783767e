import PicoSoc.Cpu.AxiAdapter
import PicoSoc.Cpu.NativePort

set_option autoImplicit false

/-! # The processor on an AXI4-Lite bus (`picorv32_axi`)

The core is the native master of the adapter: it holds a request until the answer and pauses after
it. With a slave that serves a memory it runs as on a memory of its own. -/

namespace PicoSoc.AxiAdapter

open Clocked Rv32i

/-! ## The core as master -/

/-- What the slave drives in a cycle. -/
structure SlaveOut where
  awready : Bool
  wready : Bool
  bvalid : Bool
  arready : Bool
  rvalid : Bool
  rdata : BitVec 32

/-- A run after the reset of the core `before`; reset clears one flag of the adapter only. -/
structure CoreRun (p : Picorv32.Params) where
  slave : ℕ → SlaveOut
  rest : ℕ → Picorv32.Inputs
  reset : Picorv32.Inputs
  before : Picorv32.State
  flags : Adapter

namespace CoreRun

variable {p : Picorv32.Params} (r : CoreRun p)

/-- The inputs of the core: the adapter passes the answers on. -/
def inputs (n : ℕ) : Picorv32.Inputs :=
  { r.rest n with
    resetn := true
    memReady := (r.slave n).bvalid || (r.slave n).rvalid
    memRdata := (r.slave n).rdata }

def core (n : ℕ) : Picorv32.State :=
  Clocked.run (Picorv32.step p) r.inputs (Picorv32.step p { r.reset with resetn := false } r.before) n

/-- The inputs of the adapter. -/
def wires (n : ℕ) : Wires where
  resetn := true
  memValid := (r.core n).mem.memValid
  memInstr := (r.core n).mem.memInstr
  memAddr := (r.core n).mem.memAddr
  memWdata := (r.core n).mem.memWdata
  memWstrb := (r.core n).mem.memWstrb
  awready := (r.slave n).awready
  wready := (r.slave n).wready
  bvalid := (r.slave n).bvalid
  arready := (r.slave n).arready
  rvalid := (r.slave n).rvalid
  rdata := (r.slave n).rdata

def adapter (n : ℕ) : Adapter := Clocked.run Adapter.step r.wires r.flags n

theorem inv (n : ℕ) : Picorv32.Inv (r.core n) := by
  induction n with
  | zero => exact Picorv32.inv_reset rfl
  | succ n ih => exact Picorv32.inv_step ih rfl

theorem xfer_eq (n : ℕ) : Picorv32.memXfer (r.core n) (r.inputs n) =
    ((r.wires n).memValid && memReady (r.wires n)) := rfl

/-- The core keeps the contract of a native master. -/
theorem master : Master r.wires where
  idle := (Picorv32.memStep_of_reset (s := r.before) (i := { r.reset with resetn := false }) rfl).2
  hold := fun n hv hready => by
    have hbus : (r.core (n + 1)).mem.bus = (r.core n).mem.bus :=
      Picorv32.request_held (r.inv n) rfl hv hready
    simp only [Picorv32.Mem.bus, Prod.mk.injEq] at hbus
    obtain ⟨hvalid, hrest⟩ := hbus
    refine ⟨hvalid.trans hv, ?_⟩
    simp only [request, wires, Prod.mk.injEq]
    exact hrest
  pause := fun n hv hready => by
    have hx : Picorv32.memXfer (r.core n) (r.inputs n) = true := by
      rw [xfer_eq, hv, hready]
      rfl
    exact .inl (Picorv32.request_dropped (r.inv n) rfl hx)

/-! ## A slave with a memory -/

/-- The slave keeps its contract, takes what it is offered and answers what it has taken. It stores
    what it has taken when it answers a write, and gives the word of the address it has taken. -/
structure Serves (mem : ℕ → Memory) : Prop where
  slave : Slave r.wires r.flags
  takesAw : ∀ n, awvalid (r.wires n) (r.adapter n) = true → ∃ k, n ≤ k ∧ (r.slave k).awready = true
  takesW : ∀ n, wvalid (r.wires n) (r.adapter n) = true → ∃ k, n ≤ k ∧ (r.slave k).wready = true
  takesAr : ∀ n, arvalid (r.wires n) (r.adapter n) = true → ∃ k, n ≤ k ∧ (r.slave k).arready = true
  answersWrite : ∀ a n, Current r.wires a n → Since (Aw r.wires r.flags) a (n + 1) →
    Since (W r.wires r.flags) a (n + 1) → ∃ k, n ≤ k ∧ (r.slave k).bvalid = true
  answersRead : ∀ a n, Current r.wires a n → Since (Ar r.wires r.flags) a (n + 1) →
    ∃ k, n ≤ k ∧ (r.slave k).rvalid = true
  stores : ∀ a j k n, (r.slave n).bvalid = true → Current r.wires a n → a ≤ j → j ≤ n →
    Aw r.wires r.flags j → a ≤ k → k ≤ n → W r.wires r.flags k →
    mem (n + 1) = Picorv32.busStore (mem n) (awaddr (r.wires j)) (wdata (r.wires k))
      (wstrb (r.wires k))
  keeps : ∀ n, (r.slave n).bvalid = false → mem (n + 1) = mem n
  reads : ∀ a k n, (r.slave n).rvalid = true → Current r.wires a n → a ≤ k → k ≤ n →
    Ar r.wires r.flags k → (r.slave n).rdata = (mem n).word (araddr (r.wires k))

variable {r} {mem : ℕ → Memory}

theorem payload {a k n : ℕ} (ha : Current r.wires a n) (hk : a ≤ k) (hkn : k ≤ n) :
    (r.wires k).memAddr = (r.wires n).memAddr ∧ (r.wires k).memWdata = (r.wires n).memWdata
      ∧ (r.wires k).memWstrb = (r.wires n).memWstrb := by
  have heq := (r.master.request_eq ha k hk hkn).trans (r.master.request_eq ha n ha.le le_rfl).symm
  simp only [request, Prod.mk.injEq] at heq
  exact heq.2

/-- The memory is what the native transfers leave. -/
theorem Serves.mem_succ (h : r.Serves mem) (n : ℕ) :
    mem (n + 1) = Picorv32.transferMem (r.core n) (r.inputs n) (mem n) := by
  rw [Picorv32.transferMem, r.xfer_eq]
  by_cases hready : memReady (r.wires n) = true
  · have hv := h.slave.valid_of_ready hready
    obtain ⟨a, ha⟩ := Current.exists hv
    rw [hv, hready, Bool.and_self, if_pos rfl]
    by_cases hread : IsRead r.wires n
    · obtain ⟨-, hb, -⟩ := h.slave.read_since r.master ha hread hready
      have hstrb : (r.core n).mem.memWstrb = 0 := hread
      rw [h.keeps n hb, hstrb, Picorv32.busStore_zero]
    · obtain ⟨hb, -, ⟨j, hj, hjn, haw⟩, k, hk, hkn, hw⟩ :=
        h.slave.write_since r.master ha hread hready
      obtain ⟨haddr, -, -⟩ := payload ha hj (Nat.le_of_lt_succ hjn)
      obtain ⟨-, hdata, hstrb⟩ := payload ha hk (Nat.le_of_lt_succ hkn)
      rw [h.stores a j k n hb ha hj (Nat.le_of_lt_succ hjn) haw hk (Nat.le_of_lt_succ hkn) hw]
      show Picorv32.busStore _ (r.wires j).memAddr (r.wires k).memWdata (r.wires k).memWstrb = _
      rw [haddr, hdata, hstrb]
      rfl
  · have hlow : memReady (r.wires n) = false := by simpa using hready
    rw [hlow, Bool.and_false, if_neg (by decide)]
    refine h.keeps n ?_
    rw [memReady, Bool.or_eq_false_iff] at hlow
    exact hlow.1

theorem Serves.rdata (h : r.Serves mem) (n : ℕ)
    (hx : Picorv32.memXfer (r.core n) (r.inputs n) = true)
    (hstrb : (r.core n).mem.memWstrb = 0) :
    (r.inputs n).memRdata = (mem n).word (r.core n).mem.memAddr := by
  rw [r.xfer_eq, Bool.and_eq_true] at hx
  obtain ⟨a, ha⟩ := Current.exists hx.1
  obtain ⟨hr, -, k, hk, hkn, har⟩ := h.slave.read_since r.master ha hstrb hx.2
  obtain ⟨haddr, -, -⟩ := payload ha hk (Nat.le_of_lt_succ hkn)
  show (r.slave n).rdata = _
  rw [h.reads a k n hr ha hk (Nat.le_of_lt_succ hkn) har]
  show (mem n).word (r.wires k).memAddr = _
  rw [haddr]
  rfl

theorem Serves.answering (h : r.Serves mem) : Answering r.wires r.flags :=
  ⟨h.takesAw, h.takesW, h.takesAr, h.answersWrite, h.answersRead⟩

/-- Every request is answered. -/
theorem Serves.answers (h : r.Serves mem) (n : ℕ) (hv : (r.core n).mem.memValid = true) :
    ∃ k, n ≤ k ∧ (r.inputs k).memReady = true := by
  obtain ⟨a, ha⟩ := @Current.exists r.wires n hv
  obtain ⟨c, hc, -, hready⟩ := h.answering.answered (fun _ => rfl) r.master h.slave ha
  exact ⟨c, hc, hready⟩

/-- The core on the bus. -/
def Serves.port (h : r.Serves mem) : Picorv32.PortRun p where
  env := r.inputs
  core := r.core
  mem := mem
  resetn := fun _ => rfl
  core_succ := fun _ => rfl
  mem_succ := h.mem_succ
  reads := h.rdata
  answers := h.answers

end CoreRun

/-- **The processor implements RV32I on an AXI4-Lite bus.** On every slave that serves a memory,
    however it times its handshakes and answers, the launches are those of the harts of the
    instruction set, and at each launch its memory is that of the hart. -/
theorem axi_implements_rv32i {r : CoreRun {}} {mem : ℕ → Memory} {h : ℕ → Hart}
    (hserves : r.Serves mem) (hfirst : h 0 = Picorv32.resetHart {} r.before (mem 0))
    (hstep : ∀ k, (h k).step = some (h (k + 1)))
    (hcode : ∀ k, (h (k + 1)).mem.word (h (k + 1)).pc = (h k).mem.word (h (k + 1)).pc) :
    ∃ t : ℕ → ℕ, StrictMono t
      ∧ (∀ n, Picorv32.launchNextInsn {} (r.core n) = true ↔ ∃ k, t k = n)
      ∧ ∀ k, Picorv32.Presents (h k) ⟨r.core (t k + 1), mem (t k + 1)⟩ := by
  have hrun : hserves.port.run.start = .afterReset {} r.reset r.before (mem 0) := rfl
  obtain ⟨t, hmono, hmarks, hpresents⟩ :=
    Picorv32.launches_of_steps Picorv32.plain_default hrun hfirst hstep hcode
  refine ⟨t, hmono, fun n => ?_, fun k => ?_⟩
  · rw [← hmarks n, Picorv32.Run.launches, hserves.port.run_state]
    rfl
  · have hk := hpresents k
    rw [hserves.port.run_state] at hk
    exact hk

/-! ## A slave that answers at once -/

/-- The memory is ready for every request. -/
def atOnce (m : Picorv32.Machine) : Picorv32.Inputs :=
  { (default : Picorv32.Inputs) with resetn := true, memReady := m.core.mem.memValid }

/-- The loop, from reset. -/
def loopMachine (n : ℕ) : Picorv32.Machine :=
  Clocked.run (fun (_ : Unit) m => m.step {} (atOnce m)) (fun _ => ())
    (.afterReset {} default default Picorv32.loopCode) n

def loopSlave (n : ℕ) : SlaveOut :=
  let m := loopMachine n
  { awready := true
    wready := true
    bvalid := m.core.mem.memValid && m.core.mem.memWstrb != 0
    arready := true
    rvalid := m.core.mem.memValid && m.core.mem.memWstrb == 0
    rdata := (m.inputs (atOnce m)).memRdata }

def loopCoreRun : CoreRun {} where
  slave := loopSlave
  rest := fun _ => default
  reset := default
  before := default
  flags := powerUp

theorem loopCoreRun_ready (n : ℕ) :
    ((loopSlave n).bvalid || (loopSlave n).rvalid) = (loopMachine n).core.mem.memValid := by
  show ((_ && _) || (_ && _)) = _
  cases (loopMachine n).core.mem.memValid with
  | false => rfl
  | true =>
      rw [Bool.true_and, Bool.true_and, bne]
      cases (loopMachine n).core.mem.memWstrb == 0 <;> rfl

theorem loopCoreRun_inputs (n : ℕ) :
    loopCoreRun.inputs n = (loopMachine n).inputs (atOnce (loopMachine n)) := by
  show ({ (default : Picorv32.Inputs) with
    resetn := true
    memReady := (loopSlave n).bvalid || (loopSlave n).rvalid
    memRdata := ((loopMachine n).inputs (atOnce (loopMachine n))).memRdata } : Picorv32.Inputs) = _
  rw [loopCoreRun_ready]
  unfold Picorv32.Machine.inputs
  split_ifs <;> rfl

theorem loopCoreRun_core (n : ℕ) : loopCoreRun.core n = (loopMachine n).core := by
  induction n with
  | zero => rfl
  | succ n ih =>
      show Picorv32.step {} (loopCoreRun.inputs n) (loopCoreRun.core n) = _
      rw [ih, loopCoreRun_inputs]
      rfl

theorem loopCoreRun_wires (n : ℕ) : (loopCoreRun.wires n).memValid = (loopMachine n).core.mem.memValid
    ∧ (loopCoreRun.wires n).memAddr = (loopMachine n).core.mem.memAddr
    ∧ (loopCoreRun.wires n).memWdata = (loopMachine n).core.mem.memWdata
    ∧ (loopCoreRun.wires n).memWstrb = (loopMachine n).core.mem.memWstrb := by
  rw [← loopCoreRun_core]
  exact ⟨rfl, rfl, rfl, rfl⟩

/-- Every request is a transaction of its own, and finds the flags cleared. -/
theorem loopCoreRun_fresh {n : ℕ} (hv : (loopCoreRun.wires n).memValid = true) :
    Current loopCoreRun.wires n n ∧ (loopCoreRun.adapter n).ackAwvalid = false
      ∧ (loopCoreRun.adapter n).ackWvalid = false ∧ (loopCoreRun.adapter n).ackArvalid = false := by
  cases n with
  | zero =>
      rw [loopCoreRun.master.idle] at hv
      cases hv
  | succ n =>
      have hlow : (loopCoreRun.wires n).memValid = false := by
        by_contra hprev
        have hprev : (loopCoreRun.wires n).memValid = true := by simpa using hprev
        have hready : memReady (loopCoreRun.wires n) = true := by
          rw [(loopCoreRun_wires n).1, ← loopCoreRun_ready] at hprev
          exact hprev
        have hx : Picorv32.memXfer (loopCoreRun.core n) (loopCoreRun.inputs n) = true := by
          rw [loopCoreRun.xfer_eq, hprev, hready]
          rfl
        have hdrop := Picorv32.request_dropped (p := {}) (loopCoreRun.inv n) rfl hx
        rw [show (loopCoreRun.wires (n + 1)).memValid = false from hdrop] at hv
        cases hv
      exact ⟨.start hv (.inl hlow), run_clear rfl (.inr hlow)⟩

/-- The cycles of a transaction are one. -/
theorem loopCoreRun_current {a k n : ℕ} (ha : Current loopCoreRun.wires a n) (hk : a ≤ k)
    (hkn : k ≤ n) : k = n := by
  have := ha.unique (loopCoreRun_fresh ha.valid).1
  omega

/-- A write response of the slave: the request writes. -/
theorem loopSlave_bvalid {n : ℕ} : (loopSlave n).bvalid = true ↔
    (loopCoreRun.wires n).memValid = true ∧ ¬ IsRead loopCoreRun.wires n := by
  obtain ⟨hv, -, -, hstrb⟩ := loopCoreRun_wires n
  rw [IsRead, hv, hstrb]
  show (_ && _) = true ↔ _
  rw [Bool.and_eq_true, bne_iff_ne]

/-- A read response: the request reads. -/
theorem loopSlave_rvalid {n : ℕ} : (loopSlave n).rvalid = true ↔
    (loopCoreRun.wires n).memValid = true ∧ IsRead loopCoreRun.wires n := by
  obtain ⟨hv, -, -, hstrb⟩ := loopCoreRun_wires n
  rw [IsRead, hv, hstrb]
  show (_ && _) = true ↔ _
  rw [Bool.and_eq_true, beq_iff_eq]

/-- A request is stored in its cycle. -/
theorem loopMachine_mem (n : ℕ) : (loopMachine (n + 1)).mem =
    if (loopMachine n).core.mem.memValid then
      Picorv32.busStore (loopMachine n).mem (loopMachine n).core.mem.memAddr
        (loopMachine n).core.mem.memWdata (loopMachine n).core.mem.memWstrb
    else (loopMachine n).mem := by
  have hx : Picorv32.memXfer (loopMachine n).core (atOnce (loopMachine n)) =
      (loopMachine n).core.mem.memValid := Bool.and_self _
  rw [← hx]
  rfl

theorem loopCoreRun_serves : loopCoreRun.Serves fun n => (loopMachine n).mem := by
  refine { slave := ⟨fun n hb => ?_, fun n hr => ?_⟩, takesAw := fun n _ => ⟨n, le_rfl, rfl⟩
           takesW := fun n _ => ⟨n, le_rfl, rfl⟩, takesAr := fun n _ => ⟨n, le_rfl, rfl⟩
           answersWrite := fun a n ha haw _ => ⟨n, le_rfl, ?_⟩
           answersRead := fun a n ha har => ⟨n, le_rfl, ?_⟩
           stores := fun a j k n hb ha hj hjn _ hk hkn _ => ?_, keeps := fun n hb => ?_
           reads := fun a k n hr ha hk hkn _ => ?_ }
  · obtain ⟨hv, hwrite⟩ := loopSlave_bvalid.1 hb
    obtain ⟨hc, haw, hw, -⟩ := loopCoreRun_fresh hv
    have hstrb : ((loopCoreRun.wires n).memWstrb != 0) = true := bne_iff_ne.2 hwrite
    refine ⟨n, hc, ⟨n, le_rfl, le_rfl, rfl, ?_⟩, n, le_rfl, le_rfl, rfl, ?_⟩
    · show awvalid (loopCoreRun.wires n) (loopCoreRun.adapter n) = true
      rw [awvalid, hv, hstrb, haw]
      rfl
    · show wvalid (loopCoreRun.wires n) (loopCoreRun.adapter n) = true
      rw [wvalid, hv, hstrb, hw]
      rfl
  · obtain ⟨hv, hread⟩ := loopSlave_rvalid.1 hr
    obtain ⟨hc, -, -, har⟩ := loopCoreRun_fresh hv
    have hstrb : ((loopCoreRun.wires n).memWstrb == 0) = true := beq_iff_eq.2 hread
    refine ⟨n, hc, n, le_rfl, le_rfl, rfl, ?_⟩
    show arvalid (loopCoreRun.wires n) (loopCoreRun.adapter n) = true
    rw [arvalid, hv, hstrb, har]
    rfl
  · obtain ⟨j, hj, hjn, haw⟩ := haw
    obtain rfl := loopCoreRun_current ha hj (Nat.le_of_lt_succ hjn)
    exact loopSlave_bvalid.2 ⟨haw.parts.1, haw.parts.2.1⟩
  · obtain ⟨j, hj, hjn, har⟩ := har
    obtain rfl := loopCoreRun_current ha hj (Nat.le_of_lt_succ hjn)
    exact loopSlave_rvalid.2 ⟨har.parts.1, har.parts.2.1⟩
  · obtain rfl := loopCoreRun_current ha hj hjn
    obtain rfl := loopCoreRun_current ha hk hkn
    obtain ⟨hv, haddr, hdata, hstrb⟩ := loopCoreRun_wires k
    show _ = Picorv32.busStore _ (loopCoreRun.wires k).memAddr (loopCoreRun.wires k).memWdata
      (loopCoreRun.wires k).memWstrb
    rw [haddr, hdata, hstrb, loopMachine_mem, if_pos (hv.symm.trans ha.valid)]
  · show (loopMachine (n + 1)).mem = (loopMachine n).mem
    rw [loopMachine_mem]
    have hb : ((loopMachine n).core.mem.memValid && (loopMachine n).core.mem.memWstrb != 0) =
        false := hb
    split_ifs with hv
    · have hstrb : (loopMachine n).core.mem.memWstrb = 0 := by simpa [hv] using hb
      rw [hstrb, Picorv32.busStore_zero]
    · rfl
  · obtain rfl := loopCoreRun_current ha hk hkn
    obtain ⟨hv, hread⟩ := loopSlave_rvalid.1 hr
    obtain ⟨hv', haddr, -, hstrb'⟩ := loopCoreRun_wires k
    have hstrb : ((loopCoreRun.wires k).memWstrb == 0) = true := beq_iff_eq.2 hread
    show ((loopMachine k).inputs (atOnce (loopMachine k))).memRdata =
      (loopMachine k).mem.word (loopCoreRun.wires k).memAddr
    rw [hv'] at hv
    rw [hstrb'] at hstrb
    rw [haddr, Picorv32.Machine.inputs, Picorv32.memXfer, hv,
      show (atOnce (loopMachine k)).memReady = true from hv, hstrb]
    rfl

/-- The loop on the bus. -/
theorem axi_implements_rv32i_loop : ∃ t : ℕ → ℕ, StrictMono t
    ∧ (∀ n, Picorv32.launchNextInsn {} (loopCoreRun.core n) = true ↔ ∃ k, t k = n)
    ∧ ∀ k, Picorv32.Presents (Picorv32.loopHart k)
      ⟨loopCoreRun.core (t k + 1), (loopMachine (t k + 1)).mem⟩ :=
  axi_implements_rv32i loopCoreRun_serves (Picorv32.loopHart_zero {} rfl) Picorv32.loopHart_step
    Picorv32.loopHart_code

end PicoSoc.AxiAdapter
