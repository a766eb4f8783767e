import PicoSoc.Cpu.Refinement

set_option autoImplicit false

/-! # Where the processor is, cycle by cycle

In every cycle the processor stands before an instruction of the hart or works on one. A cycle leads
on inside the instruction, or to the next hart. What is on the bus follows from where it stands. -/

namespace PicoSoc.Picorv32

open Clocked Rv32i

variable {p : Params} {h : Hart} {s : Machine} {i : Inputs} {instr : Instr} {l : List Event}

/-! ## Executing -/

/-- The access of a load or store: its address, and the data of a store. -/
inductive Accesses (h : Hart) : Instr → LoadOp ⊕ StoreOp → BitVec 32 → BitVec 32 → Prop
  | load (k : LoadOp) (rd rs1 : RegIndex) (imm y : BitVec 32) :
      Accesses h (.load k rd rs1 imm) (.inl k) (h.x.read rs1 + imm) y
  | store (k : StoreOp) (rs1 rs2 : RegIndex) (imm : BitVec 32) :
      Accesses h (.store k rs1 rs2 imm) (.inr k) (h.x.read rs1 + imm) (h.x.read rs2)

/-- The instruction of the hart is launched and not over. -/
inductive Executing (p : Params) (h : Hart) (s : Machine) (instr : Instr) : Prop
  | ldRs1 (hjal : (controlOf instr).jal = false)
      (h₀ : LdRs1 p h (!(controlOf instr).jalr) s)
  | ldRs2 {q : RegIndex × RegIndex} (hregs : operandRegs instr = some q)
      (h₀ : LdRs2 p h (h.x.read q.1) s)
  | ready (h₀ : Ready p h s instr)
  | requested {q : LoadOp ⊕ StoreOp} {a y : BitVec 32} (ha : Accesses h instr q a y)
      (h₀ : Requested p h q a y s)
  | transfer {q : LoadOp ⊕ StoreOp} {a y : BitVec 32} (ha : Accesses h instr q a y)
      (h₀ : Transfer p h q a y s)

/-- In the instruction, or past it. -/
def Goes (p : Params) (h : Hart) (instr : Instr) (s : Machine) : Prop :=
  Executing p h s instr ∨ ∃ l, Between p (after h instr) l s

theorem Accesses.aligned {q : LoadOp ⊕ StoreOp} {a y : BitVec 32} (ha : Accesses h instr q a y)
    (hacc : Accessible h instr) : Aligned (accessSize q) a := by
  cases ha with
  | load k rd rs1 imm y => exact hacc _ rfl
  | store k rs1 rs2 imm => exact hacc _ rfl

/-- A cycle of an instruction with its operands. -/
theorem Ready.goes (hp : Plain p) (hr : i.resetn = true) (henc : Encodes (h.mem.word h.pc) instr)
    (h₀ : Ready p h s instr) : Goes p h instr (s.step p i) := by
  cases h₀ with
  | @alu instr op x y wait wait2 hop hvalue hbarrel hexec =>
      cases wait with
      | true => exact .inl (.ready (.alu hop hvalue hbarrel (hexec.wait hp hr henc).1))
      | false =>
          cases wait2 with
          | true => exact absurd (hexec.waits2 rfl) (by decide)
          | false => exact .inr ⟨_, (hexec.finish hp hr henc hop hvalue hbarrel).1⟩
  | @compare c rs1 rs2 imm wait wait2 hexec =>
      cases wait with
      | true => exact .inl (.ready (.compare (hexec.wait hp hr henc).1))
      | false =>
          cases wait2 with
          | true => exact absurd (hexec.waits2 rfl) (by decide)
          | false =>
              cases hdone : memDone s.core (s.inputs i) with
              | true => exact .inr ⟨_, hexec.branch hp hr henc hdone⟩
              | false => exact .inl (.ready (.compare (hexec.hold hp hr henc hdone)))
  | @shift instr op x n hop hvalue hshift =>
      by_cases hzero : n = 0
      · subst hzero
        exact .inr ⟨_, (hshift.finish hp hr henc hop ((shiftBy_zero x op).symm.trans hvalue)).1⟩
      · obtain ⟨⟨y, m, -, hsame, hnext⟩, -⟩ := hshift.next hp hr henc hop hzero
        exact .inl (.ready (.shift hop (hsame.trans hvalue) hnext))
  | @load k rd rs1 imm y haccess =>
      cases hdone : memDone s.core (s.inputs i) with
      | true =>
          have hnext := Access.request (q := .inl k) hp hr henc rfl haccess hdone
          exact .inl (.requested (.load k rd rs1 imm y) hnext)
      | false => exact .inl (.ready (.load (Access.hold (q := .inl k) hp hr haccess hdone)))
  | @store k rs1 rs2 imm haccess =>
      cases hdone : memDone s.core (s.inputs i) with
      | true =>
          have hnext := Access.request (q := .inr k) hp hr henc rfl haccess hdone
          exact .inl (.requested (.store k rs1 rs2 imm) hnext)
      | false => exact .inl (.ready (.store (Access.hold (q := .inr k) hp hr haccess hdone)))

/-- The end of a transfer is the launch of the next instruction. -/
theorem Transfer.launches (hp : Plain p) (hr : i.resetn = true)
    (henc : Encodes (h.mem.word h.pc) instr) {q : LoadOp ⊕ StoreOp} {a y : BitVec 32}
    (ha : Accesses h instr q a y) (haligned : Aligned (accessSize q) a)
    (hcode : (after h instr).mem.word (after h instr).pc = h.mem.word (after h instr).pc)
    (h₀ : Transfer p h q a y s) (hready : i.memReady = true) :
    ∃ l, Launch p (after h instr) l (s.step p i) := by
  cases ha with
  | load k rd rs1 imm y =>
      refine ⟨regEvents h (.load k rd rs1 imm), h₀.finish hp hr haligned hready rfl rfl rfl
        (fun k' hk => ?_) fun k' hk => by cases hk⟩
      cases hk
      cases henc
      exact ⟨rfl, rfl⟩
  | store k rs1 rs2 imm =>
      exact ⟨[], h₀.finish hp hr haligned hready rfl rfl hcode (fun k' hk => by cases hk)
        fun k' hk => ⟨rfl, rfl⟩⟩

/-- A cycle of an instruction. -/
theorem Executing.goes (hp : Plain p) (hr : i.resetn = true)
    (henc : Encodes (h.mem.word h.pc) instr) (hacc : Accessible h instr)
    (hcode : (after h instr).mem.word (after h instr).pc = h.mem.word (after h instr).pc)
    (h₀ : Executing p h s instr) : Goes p h instr (s.step p i) := by
  cases h₀ with
  | ldRs1 hjal h₀ =>
      obtain ⟨hready | ⟨q, hregs, -, hsecond⟩, -⟩ := h₀.next hp hr henc hjal
      · exact .inl (.ready hready)
      · exact .inl (.ldRs2 hregs hsecond)
  | ldRs2 hregs h₀ => exact .inl (.ready (h₀.next hp hr henc hregs).1)
  | ready h₀ => exact h₀.goes hp hr henc
  | requested ha h₀ => exact .inl (.transfer ha (h₀.next hp hr (ha.aligned hacc)))
  | transfer ha h₀ =>
      cases hready : i.memReady with
      | true =>
          obtain ⟨l, hlaunch⟩ := h₀.launches hp hr henc ha (ha.aligned hacc) hcode hready
          exact .inr ⟨l, .launch hlaunch⟩
      | false => exact .inl (.transfer ha (h₀.hold hp hr (ha.aligned hacc) hready))

/-- A launch. -/
theorem Launch.goes (hp : Plain p) (hr : i.resetn = true) (henc : Encodes (h.mem.word h.pc) instr)
    (h₀ : Launch p h l s) : Goes p h instr (s.step p i) := by
  by_cases hjal : (controlOf instr).jal = false
  · have hcontrol := control_of_encodes (p := p) henc i.undef
    have hj : (decodeFirst p (h.mem.word h.pc)).instrJal = false :=
      (congrArg Control.jal hcontrol).trans hjal
    have hjalr : (decodeFirst p (h.mem.word h.pc)).instrJalr = (controlOf instr).jalr :=
      congrArg Control.jalr hcontrol
    have hfirst := h₀.ldRs1 hp hr hj
    rw [hjalr] at hfirst
    exact .inl (.ldRs1 hjal hfirst)
  · cases instr with
    | jal rd imm => exact .inr ⟨_, .asked (h₀.jal hp hr henc)⟩
    | opImm op => cases op <;> exact absurd rfl hjal
    | _ => exact absurd rfl hjal

/-- A cycle before the launch. -/
theorem Between.goes (hp : Plain p) (hr : i.resetn = true) (haligned : Aligned 4 h.pc)
    (henc : Encodes (h.mem.word h.pc) instr) (h₀ : Between p h l s) :
    (∃ l, Between p h l (s.step p i)) ∨ Goes p h instr (s.step p i) := by
  cases h₀ with
  | unasked h₀ =>
      have hnext := h₀.asked hp hr (i := i)
      rw [if_pos haligned] at hnext
      exact .inl ⟨_, .asked hnext⟩
  | asked h₀ =>
      have hnext := h₀.coming hp hr (i := i)
      rw [if_pos haligned] at hnext
      exact .inl ⟨_, .coming hnext⟩
  | coming h₀ =>
      cases hdone : memDone s.core (s.inputs i) with
      | true => exact .inl ⟨_, .launch (h₀.launch hp hr hdone)⟩
      | false => exact .inl ⟨_, .coming (h₀.coming hp hr hdone)⟩
  | launch h₀ => exact .inr (h₀.goes hp hr henc)

/-! ## Runs -/

/-- The processor stands before the instruction of the hart, or works on it. -/
inductive At (p : Params) (h : Hart) (s : Machine) : Prop
  | between {l : List Event} (h₀ : Between p h l s)
  | executing {instr : Instr} (hfetch : h.fetch = some instr) (h₀ : Executing p h s instr)

/-- A cycle leads to the same hart or to the next one. -/
theorem At.goes {h' : Hart} (hp : Plain p) (hr : i.resetn = true) (haligned : Aligned 4 h.pc)
    (hstep : h.step = some h') (hcode : h'.mem.word h'.pc = h.mem.word h'.pc) (h₀ : At p h s) :
    At p h (s.step p i) ∨ At p h' (s.step p i) := by
  obtain ⟨instr, hfetch, hexec⟩ := Option.bind_eq_some_iff.1 hstep
  obtain ⟨hacc, rfl, -⟩ := exec_some haligned hexec
  have henc : Encodes (h.mem.word h.pc) instr := encodes_of_decode hfetch
  have hgoes : Goes p h instr (s.step p i) →
      At p h (s.step p i) ∨ At p (after h instr) (s.step p i) := by
    rintro (hnext | ⟨l, hnext⟩)
    · exact .inl (.executing hfetch hnext)
    · exact .inr (.between hnext)
  cases h₀ with
  | between h₀ =>
      rcases h₀.goes hp hr haligned henc with ⟨l, hnext⟩ | hnext
      · exact .inl (.between hnext)
      · exact hgoes hnext
  | executing hfetch' h₀ =>
      obtain rfl := Option.some.inj (hfetch'.symm.trans hfetch)
      exact hgoes (h₀.goes hp hr henc hacc hcode)

/-- In every cycle of a run the processor is at one of the harts. -/
theorem Run.at {r : Run p} {h : ℕ → Hart} (hp : Plain p) {i : Inputs} {s : State} {m : Memory}
    (hstart : r.start = .afterReset p i s m) (hfirst : h 0 = resetHart p s m)
    (hstep : ∀ k, (h k).step = some (h (k + 1)))
    (hcode : ∀ k, (h (k + 1)).mem.word (h (k + 1)).pc = (h k).mem.word (h (k + 1)).pc) (n : ℕ) :
    ∃ k, At p (h k) (r.state n) := by
  induction n with
  | zero =>
      refine ⟨0, .between (.unasked (l := []) ?_)⟩
      show Unasked p (h 0) [] r.start
      rw [hstart, hfirst]
      exact unasked_afterReset hp i s m
  | succ n ih =>
      obtain ⟨k, hk⟩ := ih
      have haligned := aligned_of_steps hp hfirst hstep k
      rcases hk.goes hp (r.resetn n) haligned (hstep k) (hcode k) with hnext | hnext
      · exact ⟨k, hnext⟩
      · exact ⟨k + 1, hnext⟩

/-! ## What is on the bus -/

/-- The read of the instruction of the hart, or of the one after it. -/
def ReadsCode (h : Hart) (s : State) : Prop :=
  s.mem.memAddr = h.pc ∨ s.mem.memAddr = h.pc + 4

/-- The request of an instruction: a read of code, or the access of a load or store. -/
inductive Requests (h : Hart) (s : State) : Prop
  | code (hstrb : s.mem.memWstrb = 0) (haddr : ReadsCode h s)
  | load (k : LoadOp) (rd rs1 : RegIndex) (imm : BitVec 32)
      (hfetch : h.fetch = some (.load k rd rs1 imm)) (hstrb : s.mem.memWstrb = 0)
      (haddr : s.mem.memAddr = wordAddr (h.x.read rs1 + imm))
  | store (k : StoreOp) (rs1 rs2 : RegIndex) (imm : BitVec 32)
      (hfetch : h.fetch = some (.store k rs1 rs2 imm))
      (hstrb : s.mem.memWstrb = storeStrb (h.x.read rs1 + imm) k)
      (haddr : s.mem.memAddr = wordAddr (h.x.read rs1 + imm))

theorem storeStrb_ne_zero (a : BitVec 32) (k : StoreOp) : storeStrb a k ≠ 0 := by
  cases k with
  | sb =>
      have hlanes : ∀ n : Fin 4, (0b0001#4 <<< n.val) ≠ 0 := by decide
      exact hlanes ⟨(a.extractLsb' 0 2).toNat, (a.extractLsb' 0 2).isLt⟩
  | sh =>
      rw [storeStrb]
      split_ifs <;> decide
  | sw =>
      rw [storeStrb]
      decide

theorem Free.not_valid {s : State} (h₀ : Free s) : s.mem.memValid ≠ true := by
  rw [h₀.memValid]
  decide

theorem Fetching.requests {addr : BitVec 32} (h₀ : Fetching addr s)
    (haddr : addr = h.pc ∨ addr = h.pc + 4) (hv : s.core.mem.memValid = true) :
    Requests h s.core := by
  rcases h₀ with h₀ | h₀
  · refine .code h₀.memWstrb ?_
    rw [ReadsCode, h₀.memAddr]
    exact haddr
  · rw [h₀.memValid] at hv
    cases hv

theorem Ready.requests (h₀ : Ready p h s instr) (hv : s.core.mem.memValid = true) :
    Requests h s.core := by
  have hexec {b wait wait2 : Bool} {x y : BitVec 32} (h₁ : Exec p h b x y wait wait2 s) :
      Requests h s.core := by
    have hahead := h₁.ahead
    cases b with
    | true => exact Fetching.requests hahead (.inr rfl) hv
    | false => exact absurd hv (Free.not_valid hahead)
  cases h₀ with
  | alu hop hvalue hbarrel h₁ => exact hexec h₁
  | compare h₁ => exact hexec h₁
  | shift hop hvalue h₁ => exact h₁.fetching.requests (.inr rfl) hv
  | load h₁ => exact h₁.fetching.requests (.inr rfl) hv
  | store h₁ => exact h₁.fetching.requests (.inr rfl) hv

/-- Every request belongs to the hart at which the processor is. -/
theorem At.requests (h₀ : At p h s) (hv : s.core.mem.memValid = true) : Requests h s.core := by
  cases h₀ with
  | between h₀ =>
      cases h₀ with
      | unasked h₀ => exact absurd hv h₀.free.not_valid
      | asked h₀ => exact absurd hv h₀.free.not_valid
      | coming h₀ => exact h₀.fetching.requests (.inl rfl) hv
      | launch h₀ => exact absurd hv h₀.free.not_valid
  | executing hfetch h₀ =>
      cases h₀ with
      | ldRs1 _ h₀ => exact absurd hv h₀.free.not_valid
      | ldRs2 _ h₀ => exact h₀.fetching.requests (.inr rfl) hv
      | ready h₀ => exact h₀.requests hv
      | requested _ h₀ => exact absurd hv h₀.free.not_valid
      | transfer ha h₀ =>
          have hbus := h₀.bus
          cases ha with
          | load k rd rs1 imm y =>
              have hbus : Reading false (wordAddr (h.x.read rs1 + imm)) s.core := hbus
              exact .load k rd rs1 imm hfetch hbus.memWstrb hbus.memAddr
          | store k rs1 rs2 imm =>
              have hbus : Writing (wordAddr (h.x.read rs1 + imm)) _ _ s.core := hbus
              exact .store k rs1 rs2 imm hfetch hbus.memWstrb hbus.memAddr

end PicoSoc.Picorv32
