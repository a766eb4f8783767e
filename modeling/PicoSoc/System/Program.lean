import PicoSoc.Cpu.NativePort
import PicoSoc.Cpu.Simulation
import PicoSoc.System.AppMemory
import PicoSoc.System.Soc

set_option autoImplicit false

/-! # The processor in the system (`system.v`, `FAST_MEMORY = 1`)

The bus decodes the look-ahead signals: it reads and writes its memories a cycle before the transfer
and is always ready. A program that reads only from the boot memory and the application memory runs
on it as the instruction set says. -/

namespace PicoSoc.System

open Bytes Clocked Rv32i

/-! ## The board -/

/-- The processor and the system around it. -/
structure Board where
  core : Picorv32.State
  soc : Soc

/-- The inputs of a cycle; the look-ahead signals of `io` are those of the processor. -/
structure BoardIn where
  io : SocIn
  /-- The inputs that are not connected. -/
  rest : Picorv32.Inputs
  /-- An undefined word. -/
  undef : BitVec 32

namespace Board

variable (boot : Ram bootSize) (i : BoardIn) (s : Board)

/-- The inputs of the processor. -/
def inputs : Picorv32.Inputs :=
  { i.rest with
    resetn := true
    memReady := s.soc.bus.memReady
    memRdata := s.soc.bus.memRdata.getD i.undef }

/-- What the core shows of its next request. -/
def lookAhead : LookAhead where
  addr := Picorv32.memLaAddr s.core
  wdata := Picorv32.memLaWdata s.core (s.inputs i)
  wstrb := Picorv32.memLaWstrb s.core (s.inputs i)
  laRead := Picorv32.memLaRead s.core (s.inputs i)
  laWrite := Picorv32.memLaWrite s.core (s.inputs i)

/-- The clock edge of the board. -/
def step : Board where
  core := Picorv32.step {} (s.inputs i) s.core
  soc := s.soc.step boot { i.io with la := s.lookAhead i }

/-- The board after a cycle of reset. -/
def afterReset : Board where
  core := Picorv32.step {} { i.rest with resetn := false } s.core
  soc := s.soc.reset boot i.io

/-- The board in cycle `n` after reset. -/
def run (env : ℕ → BoardIn) (n : ℕ) : Board :=
  Clocked.run (Board.step boot) env (s.afterReset boot (env 0)) n

end Board

/-! ## The memory map -/

/-- The words of the boot memory. -/
def InBoot (a : Word) : Prop := a.toNat < 4 * bootSize

/-- The words of the application memory. -/
def InAppRam (a : Word) : Prop := 0x10000 ≤ a.toNat ∧ a.toNat < 0x10000 + 4 * appSize

/-- A word of either memory. -/
def Readable (a : Word) : Prop := InBoot a ∨ InAppRam a

instance decidableInBoot (a : Word) : Decidable (InBoot a) :=
  inferInstanceAs (Decidable (_ < _))

instance decidableReadable (a : Word) : Decidable (Readable a) :=
  inferInstanceAs (Decidable (_ < _ ∨ _ ∧ _))

/-- The memories hold what `m` holds at their addresses. -/
structure Holds (boot : Ram bootSize) (app : Ram appSize) (m : Rv32i.Memory) : Prop where
  boot : ∀ j (hj : j < bootSize), m.word (BitVec.ofNat 32 (4 * j)) = boot[j]
  app : ∀ j (hj : j < appSize), m.word (BitVec.ofNat 32 (0x10000 + 4 * j)) = app[j]

/-- The instruction of the hart and what it loads are in the memories, and it does not store to the
    boot memory; the instruction after it is read too. -/
structure InMemory (h : Hart) : Prop where
  code : Readable h.pc
  next : Readable (h.pc + 4)
  load : ∀ k rd rs1 imm, h.fetch = some (.load k rd rs1 imm) → Readable (h.x.read rs1 + imm)
  store : ∀ k rs1 rs2 imm, h.fetch = some (.store k rs1 rs2 imm) → ¬InBoot (h.x.read rs1 + imm)

/-! ## Words -/

theorem wordAddr_toNat (a : Word) : (Picorv32.wordAddr a).toNat = a.toNat - a.toNat % 4 := by
  have ha := a.isLt
  rw [Picorv32.wordAddr, BitVec.toNat_append, BitVec.extractLsb'_toNat, Nat.shiftRight_eq_div_pow]
  simp only [BitVec.toNat_ofNat, Nat.zero_mod, Nat.or_zero, Nat.shiftLeft_eq]
  omega

theorem readable_wordAddr {a : Word} (h : Readable a) : Readable (Picorv32.wordAddr a) := by
  rw [Readable, InBoot, InAppRam, wordAddr_toNat]
  rw [Readable, InBoot, InAppRam] at h
  have hb : bootSize = 1024 := rfl
  have hs : appSize = 4096 := rfl
  omega

theorem inBoot_wordAddr {a : Word} : InBoot (Picorv32.wordAddr a) ↔ InBoot a := by
  rw [InBoot, InBoot, wordAddr_toNat]
  have hb : bootSize = 1024 := rfl
  omega

theorem aligned_wordAddr (a : Word) : Aligned 4 (Picorv32.wordAddr a) := by
  rw [Aligned, wordAddr_toNat]
  omega

/-- A store to a word changes its bytes and no other word. -/
theorem word_busStore (m : Rv32i.Memory) {a b : Word} (ha : Aligned 4 a) (hb : Aligned 4 b)
    (d : Word) (strb : BitVec 4) :
    (Picorv32.busStore m a d strb).word b =
      if a = b then mergeBytes strb (m.word a) d else m.word b := by
  have ha : a.toNat % 4 = 0 := ha
  have hb : b.toNat % 4 = 0 := hb
  refine eq_of_byteLE 4 rfl fun k hk => ?_
  have hbyte (m : Rv32i.Memory) : byteLE (m.word b) k = m (b + BitVec.ofNat 32 k) :=
    m.byteLE_word b hk
  rw [hbyte, Picorv32.busStore]
  have hk' : (BitVec.ofNat 32 k).toNat = k := by
    rw [BitVec.toNat_ofNat, Nat.mod_eq_of_lt (by omega)]
  by_cases hab : a = b
  · subst hab
    have hplace : (a + BitVec.ofNat 32 k - a).toNat = k := by
      rw [BitVec.add_comm, BitVec.add_sub_cancel, hk']
    rw [if_pos rfl, byteLE_mergeBytes _ _ _ hk, hplace, hbyte]
    by_cases hs : strb.getLsbD k = true
    · rw [if_pos ⟨hk, hs⟩, if_pos hs]
      rfl
    · rw [if_neg fun hc => hs hc.2, if_neg hs]
  · have hplace : ¬(b + BitVec.ofNat 32 k - a).toNat < 4 := by
      have hne : a.toNat ≠ b.toNat := fun hc => hab (BitVec.eq_of_toNat_eq hc)
      have hla := a.isLt
      have hlb := b.isLt
      rw [BitVec.toNat_sub, BitVec.toNat_add, hk']
      omega
    rw [if_neg fun hc => hplace hc.1, if_neg hab, hbyte]

theorem bootSize_eq : bootSize = 1024 := rfl

theorem appSize_eq : appSize = 4096 := rfl

theorem inApp_iff {a : Word} : InApp a ↔ 0x10000 ≤ a.toNat ∧ a.toNat < 0x20000 := by
  have ha := a.isLt
  have hone : (0x0001 : BitVec 16).toNat = 1 := rfl
  rw [InApp, ← BitVec.toNat_inj, BitVec.extractLsb'_toNat, Nat.shiftRight_eq_div_pow, hone]
  omega

theorem appIndex_eq {a : Word} (h : InApp a) : appIndex a = (a.toNat - 0x10000) / 4 := by
  obtain ⟨hlow, -⟩ := inApp_iff.1 h
  have ha := a.isLt
  have hbase : (0x00010000 : Word).toNat = 0x10000 := rfl
  rw [appIndex, BitVec.toNat_ushiftRight, Nat.shiftRight_eq_div_pow, BitVec.toNat_sub, hbase]
  omega

/-- An aligned address is that of word `j` exactly when the bus decodes it so. -/
theorem eq_appWord_iff {a : Word} (ha : Aligned 4 a) {j : ℕ} (hj : j < appSize) :
    a = BitVec.ofNat 32 (0x10000 + 4 * j) ↔ InApp a ∧ appIndex a = j := by
  have ha : a.toNat % 4 = 0 := ha
  have hj' : (BitVec.ofNat 32 (0x10000 + 4 * j)).toNat = 0x10000 + 4 * j := by
    rw [appSize_eq] at hj
    rw [BitVec.toNat_ofNat, Nat.mod_eq_of_lt (by omega)]
  constructor
  · intro haj
    have hnat : a.toNat = 0x10000 + 4 * j := by rw [haj, hj']
    rw [appSize_eq] at hj
    have happ : InApp a := inApp_iff.2 (by omega)
    refine ⟨happ, ?_⟩
    rw [appIndex_eq happ]
    omega
  · rintro ⟨happ, hindex⟩
    obtain ⟨hlow, -⟩ := inApp_iff.1 happ
    rw [appIndex_eq happ] at hindex
    apply BitVec.eq_of_toNat_eq
    rw [hj']
    omega

/-! ## Reads and writes -/

section

variable {boot : Ram bootSize} {app : Ram appSize} {m : Rv32i.Memory} {a : Word}

theorem Holds.bramRead (hm : Holds boot app m) (ha : Aligned 4 a) (hread : Readable a) :
    bramRead boot app a = some (m.word a) := by
  have ha4 : a.toNat % 4 = 0 := ha
  have hbase : (0x00010000 : Word).toNat = 0x10000 := rfl
  rw [System.bramRead]
  rcases hread with hboot | happ
  · have hlt : a.toNat < 4 * bootSize := hboot
    have hj : a.toNat / 4 < bootSize := by omega
    have hword : BitVec.ofNat 32 (4 * (a.toNat / 4)) = a := by
      rw [Nat.mul_div_cancel' (Nat.dvd_of_mod_eq_zero ha4), BitVec.ofNat_toNat, BitVec.setWidth_eq]
    have hshift : (a >>> 2).toNat = a.toNat / 4 := by
      rw [BitVec.toNat_ushiftRight, Nat.shiftRight_eq_div_pow]
    rw [bootSize_eq] at hlt
    rw [if_pos (by rw [BitVec.lt_def, hbase]; omega), hshift, Ram.read_of_lt _ hj, ← hm.boot _ hj,
      hword]
  · obtain ⟨hlow, hhigh⟩ := happ
    rw [appSize_eq] at hhigh
    have happ : InApp a := inApp_iff.2 ⟨hlow, by omega⟩
    have hj : appIndex a < appSize := by
      rw [appIndex_eq happ, appSize_eq]
      omega
    rw [if_neg (by rw [BitVec.lt_def, hbase]; omega), if_pos happ, Ram.read_of_lt _ hj,
      ← hm.app _ hj, ← (eq_appWord_iff ha hj).2 ⟨happ, rfl⟩]

/-- No peripheral register is in the memories. -/
theorem fastReads_readable (p : Periph) (r : Regs) (hread : Readable a) :
    (fastReads p r).lookup a = none := by
  rw [lookup_eq_none_iff, fastReads_labels]
  have hlow : a.toNat < 0x20000 := by
    rw [Readable, InBoot, InAppRam, bootSize_eq, appSize_eq] at hread
    omega
  have hlabels : ∀ k ∈ readLabels, 0x20000 ≤ k.toNat := by simp [readLabels]
  exact fun hmem => absurd (hlabels a hmem) (by omega)

/-- What a store leaves in the memories. -/
theorem Holds.store (hm : Holds boot app m) (ha : Aligned 4 a) (d : Word) {strb : BitVec 4}
    (hboot : strb ≠ 0 → ¬InBoot a) :
    Holds boot (if InApp a then app.write ⟨appIndex a, strb, d⟩ else app)
      (Picorv32.busStore m a d strb) where
  boot j hj := by
    have haligned : Aligned 4 (BitVec.ofNat 32 (4 * j)) := by
      rw [Aligned, BitVec.toNat_ofNat]
      omega
    by_cases hstrb : strb = 0
    · rw [hstrb, Picorv32.busStore_zero, hm.boot j hj]
    · have hne : a ≠ BitVec.ofNat 32 (4 * j) := by
        rintro rfl
        apply hboot hstrb
        rw [bootSize_eq] at hj
        rw [InBoot, BitVec.toNat_ofNat, bootSize_eq]
        omega
      rw [word_busStore m ha haligned, if_neg hne, hm.boot j hj]
  app j hj := by
    have haligned : Aligned 4 (BitVec.ofNat 32 (0x10000 + 4 * j)) := by
      rw [Aligned, BitVec.toNat_ofNat]
      omega
    rw [word_busStore m ha haligned]
    by_cases hword : a = BitVec.ofNat 32 (0x10000 + 4 * j)
    · obtain ⟨happ, hindex⟩ := (eq_appWord_iff ha hj).1 hword
      have hwritten := Ram.read_write_self app ⟨appIndex a, strb, d⟩
      simp only [hindex, Ram.read_of_lt _ hj, Option.map_some, Option.some.injEq] at hwritten
      rw [if_pos hword, hword, hm.app j hj, ← hword]
      simp only [if_pos happ, hindex, hwritten]
    · rw [if_neg hword, hm.app j hj]
      by_cases happ : InApp a
      · have hindex : appIndex a ≠ j := fun hc => hword ((eq_appWord_iff ha hj).2 ⟨happ, hc⟩)
        have hkept := Ram.read_write_ne app ⟨appIndex a, strb, d⟩ hindex
        rw [Ram.read_of_lt _ hj, Ram.read_of_lt _ hj] at hkept
        simp only [if_pos happ]
        exact (Option.some.inj hkept).symm
      · simp only [if_neg happ]

end

/-! ## The bus in a cycle -/

section

variable {boot : Ram bootSize} {m : Rv32i.Memory} {i : BoardIn} {b : Board}

/-- The application memory after a cycle. -/
theorem Board.appMem_step : (b.step boot i).soc.bus.regs.appMem =
    if Picorv32.memLaWrite b.core (b.inputs i) ∧ InApp (Picorv32.memLaAddr b.core) then
      b.soc.bus.regs.appMem.write ⟨appIndex (Picorv32.memLaAddr b.core),
        Picorv32.memLaWstrb b.core (b.inputs i), Picorv32.memLaWdata b.core (b.inputs i)⟩
    else b.soc.bus.regs.appMem := by
  have hfast := appMem_fast boot
    ⟨true, b.soc.periph { i.io with la := b.lookAhead i }, b.lookAhead i⟩ b.soc.bus
  refine Eq.trans hfast ?_
  rw [BusIn.appStore]
  by_cases hw : Picorv32.memLaWrite b.core (b.inputs i) = true ∧ InApp (Picorv32.memLaAddr b.core)
  · rw [if_pos ⟨rfl, hw.1, hw.2⟩, if_pos hw]
    rfl
  · rw [if_neg fun hc => hw hc.2, if_neg hw]
    rfl

/-- The word that a look-ahead read brings. -/
theorem Board.memRdata_step (hm : Holds boot b.soc.bus.regs.appMem m)
    (hread : Readable (Picorv32.memLaAddr b.core)) (ha : Aligned 4 (Picorv32.memLaAddr b.core)) :
    (b.step boot i).soc.bus.memRdata = some (m.word (Picorv32.memLaAddr b.core)) := by
  show (if _ then _ else _ : Option Word).or _ = _
  have hnone := fastReads_readable (b.soc.periph { i.io with la := b.lookAhead i })
    b.soc.bus.regs hread
  have hbram := hm.bramRead ha hread
  rw [show (b.lookAhead i).addr = Picorv32.memLaAddr b.core from rfl, hnone, ite_self,
    Option.none_or, hbram]

theorem aligned_memLaAddr (s : Picorv32.State) : Aligned 4 (Picorv32.memLaAddr s) := by
  rw [Picorv32.memLaAddr]
  split_ifs <;> exact aligned_wordAddr _

end

/-! ## Runs -/

/-- A run of the board, out of a reset. -/
structure BoardRun where
  boot : Ram bootSize
  env : ℕ → BoardIn
  before : Board

namespace BoardRun

variable (b : BoardRun)

/-- The board in cycle `n`. -/
def state (n : ℕ) : Board := Board.run b.boot b.before b.env n

/-- The inputs of the core in cycle `n`. -/
def inputs (n : ℕ) : Picorv32.Inputs := (b.state n).inputs (b.env n)

theorem appMem_succ (n : ℕ) : (b.state (n + 1)).soc.bus.regs.appMem =
    if Picorv32.memLaWrite (b.state n).core (b.inputs n)
        ∧ InApp (Picorv32.memLaAddr (b.state n).core) then
      (b.state n).soc.bus.regs.appMem.write ⟨appIndex (Picorv32.memLaAddr (b.state n).core),
        Picorv32.memLaWstrb (b.state n).core (b.inputs n),
        Picorv32.memLaWdata (b.state n).core (b.inputs n)⟩
    else (b.state n).soc.bus.regs.appMem :=
  Board.appMem_step

/-- The processor with a memory of its own, under the same inputs. -/
def run (m : Rv32i.Memory) : Picorv32.Run {} where
  env := b.inputs
  start := .afterReset {} (b.env 0).rest b.before.core m
  resetn := fun _ => rfl
  answers := fun n _ => ⟨n + 1, Nat.le_succ n, rfl⟩

/-- The board and the processor with a memory of its own, in step. The memories of the board are a
    cycle ahead: a store is in them when its transfer begins. -/
structure InStep (m : Rv32i.Memory) (n : ℕ) : Prop where
  core : ((b.run m).state n).core = (b.state n).core
  inv : Picorv32.Inv (b.state n).core
  ready : (b.state n).core.mem.memValid = true → (b.inputs n).memReady = true
  mem : Holds b.boot (b.state n).soc.bus.regs.appMem
    (Picorv32.transferMem (b.state n).core (b.inputs n) ((b.run m).state n).mem)
  rdata : (b.state n).core.mem.memValid = true → (b.state n).core.mem.memWstrb = 0 →
    (b.inputs n).memRdata = ((b.run m).state n).mem.word (b.state n).core.mem.memAddr

variable {b} {m : Rv32i.Memory}

theorem inStep_zero (hm : Holds b.boot b.before.soc.bus.regs.appMem m) : b.InStep m 0 := by
  have hr : ({ (b.env 0).rest with resetn := false } : Picorv32.Inputs).resetn = false := rfl
  have hlow : (b.state 0).core.mem.memValid = false :=
    (Picorv32.memStep_of_reset (s := b.before.core) hr).2
  have hfree : (b.state 0).core.mem.memValid ≠ true := by
    rw [hlow]
    decide
  refine ⟨rfl, Picorv32.inv_reset hr, fun hv => absurd hv hfree, ?_, fun hv => absurd hv hfree⟩
  rw [Picorv32.transferMem, Picorv32.memXfer, hlow, Bool.false_and]
  exact hm

namespace InStep

variable {n : ℕ} (h₀ : b.InStep m n)

include h₀

/-- The processor of the board takes what the memory would answer. -/
theorem inputs_eq : ((b.run m).state n).inputs (b.inputs n) = b.inputs n := by
  unfold Picorv32.Machine.inputs
  split_ifs with hread
  · rw [h₀.core] at hread ⊢
    obtain ⟨hx, hstrb⟩ := Bool.and_eq_true_iff.1 hread
    rw [← h₀.rdata (Bool.and_eq_true_iff.1 hx).1 (by simpa using hstrb)]
  · rfl

theorem core_succ : ((b.run m).state (n + 1)).core = (b.state (n + 1)).core := by
  show Picorv32.step {} (((b.run m).state n).inputs (b.inputs n)) ((b.run m).state n).core = _
  rw [h₀.inputs_eq, h₀.core]
  rfl

theorem mem_succ : ((b.run m).state (n + 1)).mem =
    Picorv32.transferMem (b.state n).core (b.inputs n) ((b.run m).state n).mem := by
  rw [← h₀.core]
  rfl

/-- Without a pulse there is no request in the next cycle. -/
theorem quiet (hp : Picorv32.memLaPulse (b.state n).core (b.inputs n) = false) :
    (b.state (n + 1)).core.mem.memValid = false := by
  cases hv : (b.state n).core.mem.memValid with
  | false => exact Picorv32.memStep_of_no_pulse hv hp
  | true =>
      have hx : Picorv32.memXfer (b.state n).core (b.inputs n) = true := by
        rw [Picorv32.memXfer, hv, h₀.ready hv]
        rfl
      exact Picorv32.request_dropped h₀.inv rfl hx

/-- A cycle keeps the two in step, if what is requested next is in the memories. -/
theorem succ
    (hread : (b.state (n + 1)).core.mem.memValid = true → (b.state (n + 1)).core.mem.memWstrb = 0 →
      Readable (b.state (n + 1)).core.mem.memAddr)
    (hwrite : (b.state (n + 1)).core.mem.memValid = true →
      (b.state (n + 1)).core.mem.memWstrb ≠ 0 → ¬InBoot (b.state (n + 1)).core.mem.memAddr) :
    b.InStep m (n + 1) := by
  have hmem := h₀.mem
  rw [← h₀.mem_succ] at hmem
  have happ := b.appMem_succ n
  by_cases hp : Picorv32.memLaPulse (b.state n).core (b.inputs n) = true
  · obtain ⟨-, hv, haddr, hlaRead, hlaWrite⟩ := Picorv32.memStep_of_pulse h₀.inv hp
    have haddr : (b.state (n + 1)).core.mem.memAddr = Picorv32.memLaAddr (b.state n).core := haddr
    have hx : Picorv32.memXfer (b.state (n + 1)).core (b.inputs (n + 1)) = true := by
      show ((b.state (n + 1)).core.mem.memValid && true) = true
      rw [Bool.and_true]
      exact hv
    have haligned := aligned_memLaAddr (b.state n).core
    have hboot := hwrite hv
    rw [haddr] at hboot
    refine ⟨h₀.core_succ, Picorv32.inv_step h₀.inv rfl, fun _ => rfl, ?_, fun _ hstrb => ?_⟩
    · rw [happ, Picorv32.transferMem, if_pos hx, haddr]
      cases hw : Picorv32.memLaWrite (b.state n).core (b.inputs n) with
      | true =>
          -- the store is in the memories before its transfer
          obtain ⟨hstrb, hdata⟩ := hlaWrite hw
          have hstrb : (b.state (n + 1)).core.mem.memWstrb = _ := hstrb
          have hdata : (b.state (n + 1)).core.mem.memWdata = _ := hdata
          have hstore := hmem.store haligned (b.state (n + 1)).core.mem.memWdata hboot
          rw [hstrb, hdata] at hstore ⊢
          by_cases hin : InApp (Picorv32.memLaAddr (b.state n).core)
          · rw [if_pos hin] at hstore
            rw [if_pos ⟨rfl, hin⟩]
            exact hstore
          · rw [if_neg hin] at hstore
            rw [if_neg fun hc => hin hc.2]
            exact hstore
      | false =>
          have hr : Picorv32.memLaRead (b.state n).core (b.inputs n) = true := by
            simpa [Picorv32.memLaPulse, hw] using hp
          have hstrb : (b.state (n + 1)).core.mem.memWstrb = 0 := hlaRead hr
          rw [hstrb, Picorv32.busStore_zero, if_neg fun hc => absurd hc.1 (by decide)]
          exact hmem
    · have haddress := hread hv hstrb
      rw [haddr] at haddress
      have hdata := Board.memRdata_step (i := b.env n) hmem haddress haligned
      show ((b.state (n + 1)).soc.bus.memRdata).getD _ = _
      rw [haddr]
      exact congrArg (Option.getD · _) hdata
  · have hlow := h₀.quiet (by simpa using hp)
    have hfree : (b.state (n + 1)).core.mem.memValid ≠ true := by
      rw [hlow]
      decide
    have hw : Picorv32.memLaWrite (b.state n).core (b.inputs n) ≠ true := fun hc => hp (by
      rw [Picorv32.memLaPulse, hc, Bool.or_true])
    refine ⟨h₀.core_succ, Picorv32.inv_step h₀.inv rfl, fun _ => rfl, ?_, fun hv => absurd hv hfree⟩
    rw [happ, if_neg fun hc => hw hc.1, Picorv32.transferMem, Picorv32.memXfer, hlow,
      Bool.false_and]
    exact hmem

end InStep

/-- A program that stays in the memories keeps the board in step. -/
theorem inStep {h : ℕ → Hart} (hheld : Holds b.boot b.before.soc.bus.regs.appMem m)
    (hfirst : h 0 = Picorv32.resetHart {} b.before.core m)
    (hstep : ∀ k, (h k).step = some (h (k + 1)))
    (hcode : ∀ k, (h (k + 1)).mem.word (h (k + 1)).pc = (h k).mem.word (h (k + 1)).pc)
    (hin : ∀ k, InMemory (h k)) (n : ℕ) : b.InStep m n := by
  induction n with
  | zero => exact inStep_zero hheld
  | succ n ih =>
      obtain ⟨k, hk⟩ := Picorv32.Run.at (r := b.run m) Picorv32.plain_default rfl hfirst hstep
        hcode (n + 1)
      have hrequests := hk.requests
      rw [ih.core_succ] at hrequests
      refine ih.succ (fun hv hstrb => ?_) fun hv hstrb => ?_
      · cases hrequests hv with
        | code _ haddr =>
            rcases haddr with haddr | haddr
            · rw [haddr]
              exact (hin k).code
            · rw [haddr]
              exact (hin k).next
        | load q rd rs1 imm hfetch _ haddr =>
            rw [haddr]
            exact readable_wordAddr ((hin k).load q rd rs1 imm hfetch)
        | store q rs1 rs2 imm _ hstrb' _ =>
            exact absurd (hstrb'.symm.trans hstrb) (Picorv32.storeStrb_ne_zero _ q)
      · cases hrequests hv with
        | code hstrb' => exact absurd hstrb' hstrb
        | load _ _ _ _ _ hstrb' => exact absurd hstrb' hstrb
        | store q rs1 rs2 imm hfetch _ haddr =>
            rw [haddr, inBoot_wordAddr]
            exact (hin k).store q rs1 rs2 imm hfetch

end BoardRun

/-! ## The theorem -/

/-- An instruction is launched for the hart: the memories hold what it has in them, and the next
    cycle has its program counter and its registers. -/
structure BoardRun.LaunchesAt (b : BoardRun) (h : Hart) (n : ℕ) : Prop where
  pc : (b.state (n + 1)).core.main.regPc = h.pc
  regs : ∀ q : RegIndex, Picorv32.readReg (b.state (n + 1)).core (q.setWidth 6) = h.x.read q
  mem : Holds b.boot (b.state n).soc.bus.regs.appMem h.mem

/-- **The system runs programs as the instruction set says.** From reset, with any contents of the
    boot memory, the registers and the application memory, the board launches the instructions of a
    program that reads only from these memories, one by one and no others. -/
theorem system_implements_rv32i {b : BoardRun} {m : Rv32i.Memory} {h : ℕ → Hart}
    (hheld : Holds b.boot b.before.soc.bus.regs.appMem m)
    (hfirst : h 0 = Picorv32.resetHart {} b.before.core m)
    (hstep : ∀ k, (h k).step = some (h (k + 1)))
    (hcode : ∀ k, (h (k + 1)).mem.word (h (k + 1)).pc = (h k).mem.word (h (k + 1)).pc)
    (hin : ∀ k, InMemory (h k)) :
    ∃ t : ℕ → ℕ, StrictMono t
      ∧ (∀ n, Picorv32.launchNextInsn {} (b.state n).core = true ↔ ∃ k, t k = n)
      ∧ ∀ k, b.LaunchesAt (h k) (t k) := by
  have hstepped := BoardRun.inStep hheld hfirst hstep hcode hin
  obtain ⟨t, hmono, hmarks, hpresents⟩ :=
    Picorv32.launches_of_steps (r := b.run m) Picorv32.plain_default rfl hfirst hstep hcode
  refine ⟨t, hmono, fun n => ?_, fun k => ?_⟩
  · rw [← hmarks n, Picorv32.Run.launches, (hstepped n).core]
  · obtain ⟨hpc, hregs, hmem⟩ := hpresents k
    rw [(hstepped _).core] at hpc
    refine ⟨hpc, fun q => ?_, ?_⟩
    · rw [← hregs q, (hstepped _).core]
    · rw [← hmem, (hstepped (t k)).mem_succ]
      exact (hstepped (t k)).mem

/-! ## The loop in the boot memory -/

/-- The board with the loop as its program. -/
def loopBoard : BoardRun where
  boot := Vector.ofFn fun j => Picorv32.loopCode.word (BitVec.ofNat 32 (4 * j.val))
  env := fun _ => ⟨noAccess, default, 0⟩
  before := ⟨default, sampleSoc⟩

theorem loopBoard_holds :
    Holds loopBoard.boot loopBoard.before.soc.bus.regs.appMem Picorv32.loopCode where
  boot j hj := by
    have hboot : loopBoard.boot = Vector.ofFn fun j : Fin bootSize =>
      Picorv32.loopCode.word (BitVec.ofNat 32 (4 * j.val)) := rfl
    simp only [hboot, Vector.getElem_ofFn]
  app j hj := by
    have hzero (d : ℕ) (hd : d < 4) :
        Picorv32.loopCode (BitVec.ofNat 32 (0x10000 + 4 * j) + BitVec.ofNat 32 d) = 0 := by
      apply Picorv32.loopCode_zero
      rw [appSize_eq] at hj
      rw [← BitVec.ofNat_add, BitVec.toNat_ofNat, Nat.mod_eq_of_lt (by omega)]
      omega
    have hmem : loopBoard.before.soc.bus.regs.appMem = Vector.replicate appSize 0 := rfl
    refine eq_of_byteLE 4 rfl fun k hk => ?_
    rw [Rv32i.Memory.byteLE_word _ _ hk, hzero k hk]
    simp only [hmem, Vector.getElem_replicate]
    simp [byteLE]

/-- The loop reads and writes its count in application memory. -/
theorem loopHart_inMemory (k : ℕ) : InMemory (Picorv32.loopHart k) := by
  have hj : k % 5 < 5 := Nat.mod_lt k (by decide)
  have hcode : ∀ j < 5, Readable (BitVec.ofNat 32 (4 * j)) ∧ Readable (BitVec.ofNat 32 (4 * j) + 4) := by
    decide
  have hfetch : (Picorv32.loopHart k).fetch = Picorv32.loopProgram[k % 5]? :=
    Picorv32.loopState_fetch _ _ _ hj
  have hbase (hk : k % 5 ≠ 0) : (Picorv32.loopHart k).x.read 2 = 0x10000 :=
    if_neg fun hzero => hk (by rw [hzero])
  refine ⟨(hcode _ hj).1, (hcode _ hj).2, fun q rd rs1 imm hload => ?_,
    fun q rs1 rs2 imm hstore => ?_⟩
  · rw [hfetch] at hload
    have hk : k % 5 = 1 := by
      interval_cases k % 5 <;> first | rfl | cases hload
    rw [hk] at hload
    cases hload
    rw [hbase (by omega)]
    decide
  · rw [hfetch] at hstore
    have hk : k % 5 = 3 := by
      interval_cases k % 5 <;> first | rfl | cases hstore
    rw [hk] at hstore
    cases hstore
    rw [hbase (by omega)]
    decide

theorem system_implements_rv32i_loop : ∃ t : ℕ → ℕ, StrictMono t
    ∧ (∀ n, Picorv32.launchNextInsn {} (loopBoard.state n).core = true ↔ ∃ k, t k = n)
    ∧ ∀ k, loopBoard.LaunchesAt (Picorv32.loopHart k) (t k) :=
  system_implements_rv32i loopBoard_holds (Picorv32.loopHart_zero {} rfl) Picorv32.loopHart_step
    Picorv32.loopHart_code loopHart_inMemory

end PicoSoc.System
