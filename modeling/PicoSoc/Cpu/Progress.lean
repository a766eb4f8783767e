import PicoSoc.Cpu.DataAccess

set_option autoImplicit false

/-! # From one launch to the next

In a run every instruction that is launched comes to its end: the ALU waits at most two cycles, the
shifter has fewer places left after each, and what waits for the memory is answered. -/

namespace PicoSoc.Picorv32

open Rv32i (Instr AluOp Cond LoadOp StoreOp Hart Aligned)

variable {p : Params} {h : Hart} {r : Run p} {n : ℕ} {instr : Instr}

/-! ## Quiet cycles -/

/-- A cycle outside `fetch` without a transfer of data shows nothing. -/
theorem events_of_cpuState (hcpu : (r.state n).core.main.cpuState ≠ .fetch)
    (ht : (r.state n).transfers (r.env n) = []) : r.events n = [] := by
  rw [Run.events, Machine.events, ht, retires_of_cpuState hcpu, List.append_nil]

theorem Run.Arrives.quiet {l : List Event} (hcpu : (r.state n).core.main.cpuState ≠ .fetch)
    (ht : (r.state n).transfers (r.env n) = []) (h₀ : r.Arrives (n + 1) h l) : r.Arrives n h l := by
  obtain ⟨l₁, l₂, hl, hlead⟩ := h₀
  exact ⟨l₁, l₂, hl, .quiet (not_launches_of_cpuState hcpu) (events_of_cpuState hcpu ht) hlead⟩

theorem Run.Leads.quiet {l : List Event} {Q : Machine → Prop}
    (hcpu : (r.state n).core.main.cpuState ≠ .fetch)
    (ht : (r.state n).transfers (r.env n) = []) (h₀ : r.Leads (n + 1) l Q) : r.Leads n l Q :=
  Clocked.Leads.quiet (not_launches_of_cpuState hcpu) (events_of_cpuState hcpu ht) h₀

theorem Exec.cpuState_ne {b wait wait2 : Bool} {x y : BitVec 32} {s : Machine}
    (h₀ : Exec p h b x y wait wait2 s) : s.core.main.cpuState ≠ .fetch := by
  rw [h₀.cpuState]
  decide

/-! ## ALU -/

/-- The waits of the ALU. -/
theorem Exec.leads (hp : Plain p) (henc : Encodes (h.mem.word h.pc) instr) {b wait wait2 : Bool}
    {x y : BitVec 32} (h₀ : Exec p h b x y wait wait2 (r.state n)) :
    r.Leads n [] (Exec p h b x y false false) := by
  have hone : ∀ {m}, Exec p h b x y true false (r.state m) →
      r.Leads m [] (Exec p h b x y false false) := by
    intro m hm
    obtain ⟨hnext, ht⟩ := hm.wait hp (r.resetn m) henc
    exact .quiet hm.cpuState_ne ht (.here hnext)
  cases wait with
  | true =>
      cases wait2 with
      | true =>
          obtain ⟨hnext, ht⟩ := h₀.wait hp (r.resetn n) henc
          exact .quiet h₀.cpuState_ne ht (hone hnext)
      | false => exact hone h₀
  | false =>
      cases wait2 with
      | true => exact absurd (h₀.waits2 rfl) (by decide)
      | false => exact .here h₀

theorem Run.Arrives.of_leads {Q : ℕ → Prop} {l : List Event}
    (hlead : Clocked.Leads r.events r.launches n [] Q) (hQ : ∀ m, Q m → r.Arrives m h l) :
    r.Arrives n h l := by
  obtain ⟨m, hm, hrest⟩ := hlead.reached
  obtain ⟨l₁, l₂, hl, hP⟩ := hQ m hm
  exact ⟨l₁, l₂, hl, hrest hP⟩

/-- The result of the ALU. -/
theorem Exec.arrives (hp : Plain p) (henc : Encodes (h.mem.word h.pc) instr) {op : AluOp}
    {wait wait2 : Bool} {x y : BitVec 32} (hop : aluOp instr = some op)
    (hvalue : op.eval x y = aluResult h instr) (hbarrel : isShift op = true → p.barrelShifter = true)
    (h₀ : Exec p h (!(controlOf instr).jalr) x y wait wait2 (r.state n)) :
    r.Arrives n (after h instr) (regEvents h instr) := by
  refine .of_leads (h₀.leads hp henc) fun m hm => ?_
  obtain ⟨hnext, ht⟩ := hm.finish hp (r.resetn m) henc hop hvalue hbarrel
  exact .quiet hm.cpuState_ne ht (hnext.arrives hp)

/-- A branch. -/
theorem Exec.branches (hp : Plain p) {c : Cond} {rs1 rs2 : BitVec 5} {imm : BitVec 32}
    {wait wait2 : Bool} (henc : Encodes (h.mem.word h.pc) (.branch c rs1 rs2 imm))
    (h₀ : Exec p h true (h.x.read rs1) (h.x.read rs2) wait wait2 (r.state n)) :
    r.Arrives n (after h (.branch c rs1 rs2 imm)) [] := by
  refine .of_leads (h₀.leads hp henc) fun m hm => ?_
  refine .of_leads (Run.fetched (W := Exec p h true (h.x.read rs1) (h.x.read rs2) false false) hp hm
    (fun s hs => hs.trap) (fun s hs => hs.ahead) (fun s hs => ⟨true, hs.asks⟩)
    (fun k hk => ⟨not_launches_of_cpuState hk.cpuState_ne, retires_of_cpuState hk.cpuState_ne⟩)
    fun s i hr hs hd => hs.hold hp hr henc hd) fun k hk => ?_
  exact .quiet hk.1.cpuState_ne (hk.1.ahead.step_mem (p := p)).2
    ((hk.1.branch hp (r.resetn k) henc hk.2).arrives hp)

/-! ## Shifter -/

/-- A shift; `n` places are left. -/
theorem Shift.arrives (hp : Plain p) (henc : Encodes (h.mem.word h.pc) instr) {op : AluOp}
    (hop : shiftOp instr = some op) {x : BitVec 32} {places : BitVec 5}
    (hvalue : shiftBy x places.toNat op = aluResult h instr)
    (h₀ : Shift p h x places (r.state n)) :
    r.Arrives n (after h instr) (regEvents h instr) := by
  have hne : (r.state n).core.main.cpuState ≠ .fetch := by
    rw [h₀.cpuState]
    decide
  induction hk : places.toNat using Nat.strong_induction_on generalizing n x places with
  | h k ih =>
    by_cases hzero : places = 0
    · subst hzero
      obtain ⟨hnext, ht⟩ := h₀.finish hp (r.resetn n) henc hop
        ((shiftBy_zero x op).symm.trans hvalue)
      exact .quiet hne ht (hnext.arrives hp)
    · obtain ⟨⟨y, m, hm, hsame, hnext⟩, ht⟩ := h₀.next hp (r.resetn n) henc hop hzero
      refine .quiet hne ht (ih m.toNat (hk ▸ hm) (hsame.trans hvalue) hnext ?_ rfl)
      rw [show (r.state (n + 1)).core.main.cpuState = .shift from hnext.cpuState]
      decide

/-! ## Loads and stores -/

section

variable {q : LoadOp ⊕ StoreOp} {imm x y a : BitVec 32}

theorem Access.cpuState_ne {s : Machine} (h₀ : Access p h (accessState q) x y s) :
    s.core.main.cpuState ≠ .fetch := by
  rw [h₀.cpuState]
  exact accessState_ne q

/-- The next instruction comes, and the access is asked for. -/
theorem Access.leads (hp : Plain p) (henc : Encodes (h.mem.word h.pc) instr)
    (hq : accessOp instr = some (q, imm)) (h₀ : Access p h (accessState q) x y (r.state n)) :
    r.Leads n [] (Requested p h q (x + imm) y) := by
  have hfetched := Run.fetched (W := Access p h (accessState q) x y) hp h₀ (fun s hs => hs.trap)
    (fun s hs => hs.fetching) (fun s hs => ⟨true, hs.asks⟩)
    (fun k hk => ⟨not_launches_of_cpuState hk.cpuState_ne, retires_of_cpuState hk.cpuState_ne⟩)
    fun s i hr hs hd => hs.hold hp hr hd
  rw [← List.append_nil []]
  exact hfetched.trans fun m hm => Run.Leads.quiet hm.1.cpuState_ne hm.1.fetching.transfers
    (.here (hm.1.request hp (r.resetn m) henc hq hm.2))

theorem Phase.cpuState_ne {s : Machine} (h₀ : Phase p h q a y s) :
    s.core.main.cpuState ≠ .fetch := by
  rw [h₀.cpuState]
  exact accessState_ne q

/-- A transfer that has been asked for waits for the memory. -/
theorem Transfer.leads (hp : Plain p) (haligned : Aligned (accessSize q) a)
    (h₀ : Transfer p h q a y (r.state n)) :
    Clocked.Leads r.events r.launches n [] fun m =>
      Transfer p h q a y (r.state m) ∧ (r.env m).memReady = true := by
  refine Clocked.Leads.wait (W := fun m => Transfer p h q a y (r.state m)) h₀
    (fun m hm => r.answers m hm.bus.memValid.1) fun m hm hlow => ?_
  have hlow : (r.env m).memReady = false := by simpa using hlow
  refine ⟨hm.hold hp (r.resetn m) haligned hlow, not_launches_of_cpuState hm.cpuState_ne,
    events_of_cpuState hm.cpuState_ne ?_⟩
  rw [hm.bus.transfers, hlow]
  rfl

/-- The transfer, and the launch after it. -/
theorem Requested.arrives (hp : Plain p) (haligned : Aligned (accessSize q) a)
    (h₀ : Requested p h q a y (r.state n)) {h' : Hart} {l : List Event}
    (hpc : h'.pc = h.pc + 4) (hmem : h'.mem = accessMem h.mem q a y)
    (hcode : h'.mem.word (h.pc + 4) = h.mem.word (h.pc + 4))
    (hload : ∀ k, q = .inl k → h'.x = h.x.write (fieldRd (h.mem.word h.pc)) (k.value h.mem a)
      ∧ l = regWrite (fieldRd (h.mem.word h.pc)) (k.value h.mem a))
    (hstore : ∀ k, q = .inr k → h'.x = h.x ∧ l = []) :
    r.Arrives n h' (busEvent h.mem q a y :: l) := by
  have hbus := transfers_of_not_xfer (h₀.free.xfer (r.env n))
  refine .quiet h₀.cpuState_ne hbus (.of_leads ((h₀.next hp (r.resetn n) haligned).leads hp haligned)
    fun m hm => ?_)
  obtain ⟨htransfer, hready⟩ := hm
  have hevents : r.events m = [busEvent h.mem q a y] := by
    rw [Run.events, Machine.events, htransfer.bus.transfers, hready,
      retires_of_cpuState htransfer.cpuState_ne, htransfer.mem]
    rfl
  refine ⟨[busEvent h.mem q a y], l, rfl, ?_⟩
  rw [← hevents]
  exact .next (not_launches_of_cpuState htransfer.cpuState_ne) (.inl
    (htransfer.finish hp (r.resetn m) haligned hready hpc hmem hcode hload hstore))

/-! ## Traps -/

/-- An access that is not aligned is transferred, and the processor has trapped. -/
theorem Requested.traps (hp : Plain p) (haligned : ¬Aligned (accessSize q) a)
    (h₀ : Requested p h q a y (r.state n)) :
    r.Leads n [busEvent h.mem q a y] (Halted h.pc) := by
  have hbus := transfers_of_not_xfer (h₀.free.xfer (r.env n))
  have hne {m : ℕ} (hm : Failing h q a y (r.state m)) :
      (r.state m).core.main.cpuState ≠ .fetch := by
    rw [hm.cpuState]
    decide
  refine Run.Leads.quiet h₀.cpuState_ne hbus ?_
  have hwait : Clocked.Leads r.events r.launches (n + 1) [] fun m =>
      Failing h q a y (r.state m) ∧ (r.env m).memReady = true := by
    refine Clocked.Leads.wait (W := fun m => Failing h q a y (r.state m))
      (h₀.fails hp (r.resetn n) haligned) (fun m hm => r.answers m hm.bus.memValid.1)
      fun m hm hlow => ?_
    have hlow : (r.env m).memReady = false := by simpa using hlow
    refine ⟨hm.hold hp (r.resetn m) hlow, not_launches_of_cpuState (hne hm),
      events_of_cpuState (hne hm) ?_⟩
    rw [hm.bus.transfers, hlow]
    rfl
  rw [← List.nil_append [busEvent h.mem q a y]]
  refine hwait.trans fun m hm => ?_
  obtain ⟨hfail, hready⟩ := hm
  have hevents : r.events m = [busEvent h.mem q a y] := by
    rw [Run.events, Machine.events, hfail.bus.transfers, hready, retires_of_cpuState (hne hfail),
      hfail.mem]
    rfl
  rw [← hevents]
  exact .next (not_launches_of_cpuState (hne hfail)) (hfail.finish hp (r.resetn m) hready)

end

/-! ## Instructions -/

theorem busEvents_of_aluOp {op : AluOp} (hop : aluOp instr = some op) :
    busEvents h instr = [] ∧ accessAddr h instr = none := by
  cases instr with
  | load | store | jal | branch => cases hop
  | _ => exact ⟨rfl, rfl⟩

theorem busEvents_of_shiftOp {op : AluOp} (hop : shiftOp instr = some op) :
    busEvents h instr = [] ∧ accessAddr h instr = none := by
  cases instr with
  | opImm | opReg => exact ⟨rfl, rfl⟩
  | _ => cases hop

/-- An instruction with its operands comes to its end. -/
theorem Ready.arrives (hp : Plain p) (henc : Encodes (h.mem.word h.pc) instr)
    (hacc : Accessible h instr)
    (hcode : (after h instr).mem.word (after h instr).pc = h.mem.word (after h instr).pc)
    (h₀ : Ready p h (r.state n) instr) :
    r.Arrives n (after h instr) (busEvents h instr ++ regEvents h instr) := by
  cases h₀ with
  | alu hop hvalue hbarrel hexec =>
      rw [(busEvents_of_aluOp hop).1]
      exact hexec.arrives hp henc hop hvalue hbarrel
  | compare hexec => exact hexec.branches hp henc
  | shift hop hvalue hshift =>
      rw [(busEvents_of_shiftOp hop).1]
      exact hshift.arrives hp henc hop hvalue
  | @load k rd rs1 imm y haccess =>
      have haligned : Aligned (accessSize (.inl k)) (h.x.read rs1 + imm) := hacc _ rfl
      have hlead := Access.leads (q := .inl k) hp henc rfl haccess
      refine .of_leads hlead fun m hm => ?_
      refine hm.arrives hp haligned rfl rfl rfl (fun k' hk => ?_) fun k' hk => by cases hk
      cases hk
      cases henc
      exact ⟨rfl, rfl⟩
  | @store k rs1 rs2 imm haccess =>
      have haligned : Aligned (accessSize (.inr k)) (h.x.read rs1 + imm) := hacc _ rfl
      have hlead := Access.leads (q := .inr k) hp henc rfl haccess
      refine .of_leads hlead fun m hm => ?_
      exact hm.arrives hp haligned rfl rfl hcode (fun k' hk => by cases hk)
        fun k' hk => ⟨rfl, rfl⟩

/-- An access that is not aligned ends in a trap. -/
theorem Ready.traps (hp : Plain p) (henc : Encodes (h.mem.word h.pc) instr)
    (hacc : ¬Accessible h instr) (h₀ : Ready p h (r.state n) instr) :
    r.Leads n (busEvents h instr) (Halted h.pc) := by
  have hnone (hq : accessAddr h instr = none) : False := by
    refine hacc fun q hq' => ?_
    rw [hq] at hq'
    exact absurd hq' (Option.not_mem_none q)
  have hmem {size : ℕ} {a : BitVec 32} (hq : accessAddr h instr = some (size, a)) :
      ¬Aligned size a := by
    intro ha
    refine hacc fun q hq' => ?_
    rw [hq] at hq'
    cases hq'
    exact ha
  cases h₀ with
  | alu hop => exact absurd (busEvents_of_aluOp hop).2 hnone
  | compare => exact absurd rfl hnone
  | shift hop => exact absurd (busEvents_of_shiftOp hop).2 hnone
  | @load k rd rs1 imm y haccess =>
      have hlead := Access.leads (q := .inl k) hp henc rfl haccess
      rw [← List.nil_append (busEvents _ _)]
      exact hlead.trans fun m hm => hm.traps hp (hmem rfl)
  | @store k rs1 rs2 imm haccess =>
      have hlead := Access.leads (q := .inr k) hp henc rfl haccess
      rw [← List.nil_append (busEvents _ _)]
      exact hlead.trans fun m hm => hm.traps hp (hmem rfl)

/-! ## Launches -/

section

variable {l : List Event}

theorem Launch.events (h₀ : Launch p h l (r.state n)) : r.events n = l :=
  h₀.toBoundary.events (transfers_of_not_xfer (h₀.free.xfer _))

theorem Launch.launches (hp : Plain p) (h₀ : Launch p h l (r.state n)) : r.launches n := by
  rw [Run.launches, launchNextInsn, h₀.cpuState, h₀.decoderTrigger, hp.enableIrq]
  rfl

/-- Every instruction but `jal` comes to have its operands. -/
theorem Launch.ready (hp : Plain p) (h₀ : Launch p h l (r.state n))
    (henc : Encodes (h.mem.word h.pc) instr) (hjal : (controlOf instr).jal = false) :
    r.Leads (n + 1) [] fun s => Ready p h s instr := by
  have hcontrol := control_of_encodes (p := p) henc (r.env n).undef
  have hj : (decodeFirst p (h.mem.word h.pc)).instrJal = false :=
    (congrArg Control.jal hcontrol).trans hjal
  have hjalr : (decodeFirst p (h.mem.word h.pc)).instrJalr = (controlOf instr).jalr :=
    congrArg Control.jalr hcontrol
  have hfirst := h₀.ldRs1 hp (r.resetn n) hj
  rw [hjalr] at hfirst
  have hne : (r.state (n + 1)).core.main.cpuState ≠ .fetch := by
    rw [show (r.state (n + 1)).core.main.cpuState = .ldRs1 from hfirst.cpuState]
    decide
  obtain ⟨hready | ⟨q, hregs, -, hsecond⟩, ht⟩ := hfirst.next hp (r.resetn (n + 1)) henc hjal
  · exact Run.Leads.quiet hne ht (.here hready)
  · have hne' : (r.state (n + 1 + 1)).core.main.cpuState ≠ .fetch := by
      rw [show (r.state (n + 1 + 1)).core.main.cpuState = .ldRs2 from hsecond.cpuState]
      decide
    obtain ⟨hready, ht'⟩ := LdRs2.next hp (r.resetn (n + 1 + 1)) henc hregs hsecond
    exact Run.Leads.quiet hne ht (Run.Leads.quiet hne' ht' (.here hready))

/-- A launched instruction shows what it does, and the next hart is reached. -/
theorem Launch.commits (hp : Plain p) (h₀ : Launch p h l (r.state n)) {ev : List Event} {h' : Hart}
    (hcommit : commit h = (ev, some h')) (hcode : h'.mem.word h'.pc = h.mem.word h'.pc) :
    r.Arrives (n + 1) h' ev := by
  rw [commit, if_pos h₀.aligned] at hcommit
  cases hfetch : h.fetch with
  | none =>
      rw [hfetch] at hcommit
      cases hcommit
  | some instr =>
      rw [hfetch] at hcommit
      have henc : Encodes (h.mem.word h.pc) instr := encodes_of_decode hfetch
      dsimp only at hcommit
      by_cases hacc : Accessible h instr
      · rw [if_pos hacc] at hcommit
        cases hcommit
        by_cases hjal : (controlOf instr).jal = false
        · exact .of_leads (h₀.ready hp henc hjal) fun m hm => hm.arrives hp henc hacc hcode
        · cases instr with
          | jal rd imm => exact (h₀.jal hp (r.resetn n) henc).arrives hp
          | opImm op => cases op <;> exact absurd rfl hjal
          | _ => exact absurd rfl hjal
      · rw [if_neg hacc] at hcommit
        cases hcommit

/-- A word that is no instruction is a trap. -/
theorem LdRs1.illegal {s : Machine} {i : Inputs} {b : Bool} (hp : Plain p) (hr : i.resetn = true)
    (h₀ : LdRs1 p h b s) (htrap : instrTrap p s.core.first s.core.second = true) :
    Halted h.pc (s.step p i) := by
  have hr' : (s.inputs i).resetn = true := by rw [inputs_resetn, hr]
  have hf := not_faulty h₀.asks fun hc => absurd hc (by decide)
  have hmain : (s.step p i).core.main = _ := mainStep_plain hp hr'
  rw [cpuStateCase, h₀.cpuState] at hmain
  dsimp only at hmain
  rw [ldRs1State, htrap, hp.withPcpi, hp.catchIllinsn] at hmain
  simp only [Bool.or_false, Bool.and_true, if_true, Bool.false_eq_true, if_false] at hmain
  rw [trapOrIrq_plain hp] at hmain
  refine .of_main hmain (fun _ => rfl) h₀.regPc h₀.asks.rdata h₀.asks.wdata rfl rfl ?_
  refine memStep_instr (fun hv => ?_) h₀.asks.rdata h₀.asks.wdata
  rw [h₀.free.memValid] at hv
  exact absurd hv (by decide)

/-- A launched instruction that traps shows what it does before. -/
theorem Launch.traps (hp : Plain p) (hcount : p.enableCounters = false)
    (h₀ : Launch p h l (r.state n)) {ev : List Event} (hcommit : commit h = (ev, none))
    (hfence : Rv32i.isFence (h.mem.word h.pc) = false) : r.Leads (n + 1) ev (Halted h.pc) := by
  rw [commit, if_pos h₀.aligned] at hcommit
  cases hfetch : h.fetch with
  | none =>
      rw [hfetch] at hcommit
      cases hcommit
      have hdecode : Rv32i.decode (h.mem.word h.pc) = none := hfetch
      have hjal : (decodeFirst p (h.mem.word h.pc)).instrJal = false := by
        by_contra hj
        have hop : opcode (h.mem.word h.pc) = 0b1101111 := by
          simpa [decodeFirst] using hj
        have hop : Rv32i.opcode (h.mem.word h.pc) = 0b1101111 := hop
        simp [Rv32i.decode, hop] at hdecode
      have hfirst := h₀.ldRs1 hp (r.resetn n) hjal
      obtain ⟨u, hu⟩ := hfirst.second
      have htrap : instrTrap p (r.state (n + 1)).core.first (r.state (n + 1)).core.second = true := by
        rw [show (r.state (n + 1)).core.first = _ from hfirst.first,
          show (r.state (n + 1)).core.second = _ from hu]
        exact instrTrap_of_none hp.catchIllinsn hp.enableIrq hcount hfence hdecode u
      have hne : (r.state (n + 1)).core.main.cpuState ≠ .fetch := by
        rw [show (r.state (n + 1)).core.main.cpuState = .ldRs1 from hfirst.cpuState]
        decide
      exact Run.Leads.quiet hne (transfers_of_not_xfer (hfirst.free.xfer _))
        (.here (hfirst.illegal hp (r.resetn (n + 1)) htrap))
  | some instr =>
      rw [hfetch] at hcommit
      have henc : Encodes (h.mem.word h.pc) instr := encodes_of_decode hfetch
      dsimp only at hcommit
      by_cases hacc : Accessible h instr
      · rw [if_pos hacc] at hcommit
        cases hcommit
      · rw [if_neg hacc] at hcommit
        cases hcommit
        have hjal : (controlOf instr).jal = false := by
          cases instr with
          | jal rd imm => exact absurd (fun q hq => absurd hq (Option.not_mem_none q)) hacc
          | opImm op => cases op <;> rfl
          | _ => rfl
        rw [← List.nil_append (busEvents h instr)]
        exact (h₀.ready hp henc hjal).trans fun m hm => hm.traps hp henc hacc

end

end PicoSoc.Picorv32
