import PicoSoc.Library.Mmio
import PicoSoc.System.Accelerators
import PicoSoc.System.SpiMaster

set_option autoImplicit false

/-! # `spi_xfer` on the bus

The SPI master in the system, with the sticky flag that the CPU polls. A write to DATA gives a start
pulse in the next cycle, clears the flag in the one after it and makes the master busy there; an
access never falls between them when accesses are two cycles apart. -/

namespace PicoSoc.System

open Bytes Clocked Mmio

/-! ## The master in the system -/

/-- The system with `simple_spi_master` and what the bus keeps of it. -/
structure SdSoc where
  soc : Soc
  sdspi : SpiMaster
  sdspiDoneSticky : Bool
  sdspiRxDataReg : BitVec 8

/-- What comes from outside in a cycle, the card's line instead of the outputs of the master. -/
structure SdIn where
  la : LookAhead
  uartRx : Bool
  swSync2 : BitVec 4
  btnSync2 : BitVec 4
  sdMiso : Bool

namespace SdSoc

variable (boot : Ram bootSize) (i : SdIn) (s : SdSoc)

/-- The bus sees the sticky flag and the byte of the last transfer. -/
def socIn : SocIn where
  la := i.la
  uartRx := i.uartRx
  swSync2 := i.swSync2
  btnSync2 := i.btnSync2
  sdspiRxDataReg := s.sdspiRxDataReg
  sdspiBusy := s.sdspi.busy
  sdspiDoneSticky := s.sdspiDoneSticky

/-- The registers that drive the master. -/
def spiIn : SpiIn where
  start := s.soc.bus.regs.spi.start
  txData := s.soc.bus.regs.spi.txData
  clkdiv := s.soc.bus.regs.spi.clkdiv
  csN := s.soc.bus.regs.spi.csN
  spiMiso := i.sdMiso

/-- The clock edge with `resetn` high; `done` comes after `start` in the source and wins. -/
def step : SdSoc where
  soc := s.soc.step boot (s.socIn i)
  sdspi := s.sdspi.step (s.spiIn i)
  sdspiDoneSticky :=
    if s.sdspi.done then true
    else if s.soc.bus.regs.spi.start then false
    else s.sdspiDoneSticky
  sdspiRxDataReg := if s.sdspi.done then s.sdspi.rxData else s.sdspiRxDataReg

/-- The clock edge with `resetn` low. -/
def reset : SdSoc where
  soc := s.soc.reset boot (s.socIn i)
  sdspi := .reset
  sdspiDoneSticky := false
  sdspiRxDataReg := 0xFF

/-- The state in cycle `n` of a run from reset. -/
def run (env : ℕ → SdIn) (n : ℕ) : SdSoc :=
  Clocked.run (fun i s => s.step boot i) env (s.reset boot (env 0)) n

theorem run_succ (env : ℕ → SdIn) (n : ℕ) :
    s.run boot env (n + 1) = (s.run boot env n).step boot (env n) :=
  Clocked.run_succ _ _ _ n

end SdSoc

/-! ## The registers of the master -/

theorem spi_fastWrite (p : Periph) (old : Regs) (a : Access) (r : Regs) :
    (fastWrite p old a r).spi =
      if a.addr = 0x60000000 then
        if p.sdspiBusy then r.spi
        else { r.spi with txData := a.wdata.extractLsb' 0 8, start := true }
      else if a.addr = 0x60000008 then { r.spi with csN := a.wdata.getLsbD 0 }
      else if a.addr = 0x6000000C then { r.spi with clkdiv := a.wdata.extractLsb' 0 16 }
      else r.spi := by
  unfold fastWrite
  by_cases happ : InApp a.addr
  · have hne : ∀ c : BitVec 32, ¬InApp c → a.addr ≠ c := fun c hc heq => hc (heq ▸ happ)
    rw [if_pos happ, if_neg (hne _ (by decide)), if_neg (hne _ (by decide)),
      if_neg (hne _ (by decide))]
    rfl
  · rw [if_neg happ]
    show (onLabel (fastIoWrites p old a.wstrb) a.addr a.wdata r).spi = _
    by_cases hdata : a.addr = 0x60000000
    · rw [if_pos hdata, onLabel_of_some (f := fun d r =>
        if p.sdspiBusy then r
        else { r with spi := { r.spi with txData := d.extractLsb' 0 8, start := true } })
        (by rw [hdata]; rfl)]
      split <;> rfl
    · rw [if_neg hdata]
      by_cases hcs : a.addr = 0x60000008
      · rw [if_pos hcs, onLabel_of_some (f := fun d r =>
          { r with spi := { r.spi with csN := d.getLsbD 0 } }) (by rw [hcs]; rfl)]
      · rw [if_neg hcs]
        by_cases hclk : a.addr = 0x6000000C
        · rw [if_pos hclk, onLabel_of_some (f := fun d r =>
            { r with spi := { r.spi with clkdiv := d.extractLsb' 0 16 } }) (by rw [hclk]; rfl)]
        · rw [if_neg hclk]
          have hdata : (a.addr == 0x60000000) = false := by simpa using hdata
          have hcs : (a.addr == 0x60000008) = false := by simpa using hcs
          have hclk : (a.addr == 0x6000000C) = false := by simpa using hclk
          simp only [onLabel, fastIoWrites, List.lookup_cons, hdata, hcs, hclk, List.lookup_nil]
          cases a.addr == 0x10000000
          · cases a.addr == 0x10000004
            · cases a.addr == 0x10000010 <;> rfl
            · dsimp only [uartTxWrite]
              split <;> rfl
          · rfl

/-- The SPI registers after a cycle. -/
theorem Soc.spi_step (boot : Ram bootSize) (i : SocIn) (s : Soc) :
    (s.step boot i).bus.regs.spi =
      if i.la.laWrite then
        if i.la.addr = 0x60000000 then
          if i.sdspiBusy then { s.bus.regs.spi with start := false }
          else { s.bus.regs.spi with txData := i.la.wdata.extractLsb' 0 8, start := true }
        else if i.la.addr = 0x60000008 then
          { s.bus.regs.spi with start := false, csN := i.la.wdata.getLsbD 0 }
        else if i.la.addr = 0x6000000C then
          { s.bus.regs.spi with start := false, clkdiv := i.la.wdata.extractLsb' 0 16 }
        else { s.bus.regs.spi with start := false }
      else { s.bus.regs.spi with start := false } := by
  have hidle : (if i.la.laRead && i.la.addr == 0x10000008 then s.bus.regs.idle.rxRead
      else s.bus.regs.idle).spi = { s.bus.regs.spi with start := false } := by
    split <;> rfl
  have hregs : (s.step boot i).bus.regs.spi =
      (if i.la.laWrite then fastWrite (s.periph i) s.bus.regs i.la.toAccess
        (if i.la.laRead && i.la.addr == 0x10000008 then s.bus.regs.idle.rxRead
          else s.bus.regs.idle)
      else if i.la.laRead && i.la.addr == 0x10000008 then s.bus.regs.idle.rxRead
        else s.bus.regs.idle).spi := rfl
  rw [hregs]
  by_cases hw : i.la.laWrite = true
  · rw [if_pos hw, if_pos hw, spi_fastWrite, hidle]
    rfl
  · rw [if_neg hw, if_neg hw, hidle]

/-! ## Accesses -/

/-- `SD_DATA`, `SD_STATUS` and `SD_CLKDIV`. -/
def sdData : BitVec 32 := 0x60000000

/-- The STATUS register of the SD port. -/
def sdStatus : BitVec 32 := 0x60000004

/-- The divider register of the SD port. -/
def sdClkdiv : BitVec 32 := 0x6000000C

namespace SdSoc

section

variable {boot : Ram bootSize} {i : SdIn} {s : SdSoc}

theorem spi_step :
    (s.step boot i).soc.bus.regs.spi =
      if i.la.laWrite then
        if i.la.addr = 0x60000000 then
          if s.sdspi.busy then { s.soc.bus.regs.spi with start := false }
          else { s.soc.bus.regs.spi with txData := i.la.wdata.extractLsb' 0 8, start := true }
        else if i.la.addr = 0x60000008 then
          { s.soc.bus.regs.spi with start := false, csN := i.la.wdata.getLsbD 0 }
        else if i.la.addr = 0x6000000C then
          { s.soc.bus.regs.spi with start := false, clkdiv := i.la.wdata.extractLsb' 0 16 }
        else { s.soc.bus.regs.spi with start := false }
      else { s.soc.bus.regs.spi with start := false } :=
  Soc.spi_step boot (s.socIn i) s.soc

/-- A write to DATA while the master rests starts it in the next cycle. -/
theorem start_step : (s.step boot i).soc.bus.regs.spi.start = true ↔
    i.la.writes sdData ∧ s.sdspi.busy = false := by
  rw [spi_step]
  unfold LookAhead.writes sdData
  by_cases hw : i.la.laWrite = true
  · rw [if_pos hw]
    by_cases hdata : i.la.addr = 0x60000000
    · rw [if_pos hdata]
      cases hbusy : s.sdspi.busy
      · exact ⟨fun _ => ⟨⟨hw, hdata⟩, rfl⟩, fun _ => rfl⟩
      · exact ⟨fun h => absurd h (by simp), fun h => absurd h.2 (by decide)⟩
    · rw [if_neg hdata]
      refine ⟨fun h => ?_, fun h => absurd h.1.2 hdata⟩
      split at h
      · exact absurd h (by simp)
      · split at h <;> exact absurd h (by simp)
  · rw [if_neg hw]
    exact ⟨fun h => absurd h (by simp), fun h => absurd h.1.1 hw⟩

theorem txData_step (h : i.la.writes sdData) (hbusy : s.sdspi.busy = false) :
    (s.step boot i).soc.bus.regs.spi.txData = i.la.wdata.extractLsb' 0 8 := by
  have haddr : i.la.addr = 0x60000000 := h.2
  rw [spi_step, if_pos h.1, if_pos haddr, hbusy]
  rfl

/-- Only a write to CLKDIV moves the divider. -/
theorem clkdiv_step (h : ¬i.la.writes sdClkdiv) :
    (s.step boot i).soc.bus.regs.spi.clkdiv = s.soc.bus.regs.spi.clkdiv := by
  rw [spi_step]
  by_cases hw : i.la.laWrite = true
  · have hclk : ¬i.la.addr = 0x6000000C := fun haddr => h ⟨hw, haddr⟩
    rw [if_pos hw, if_neg hclk]
    split
    · split <;> rfl
    · split <;> rfl
  · rw [if_neg hw]

/-- What the reads of STATUS and DATA return. -/
theorem status_read (h : i.la.reads sdStatus) : (s.step boot i).soc.bus.memRdata =
    some (0#29 ++ BitVec.ofBool s.soc.bus.regs.spi.csN ++ BitVec.ofBool s.sdspi.busy
      ++ BitVec.ofBool s.sdspiDoneSticky) :=
  memRdata_step boot (s.socIn i) s.soc h rfl

theorem data_read (h : i.la.reads sdData) :
    (s.step boot i).soc.bus.memRdata = some (0#24 ++ s.sdspiRxDataReg) :=
  memRdata_step boot (s.socIn i) s.soc h rfl

end

/-! ## Runs -/

variable (boot : Ram bootSize) (s₀ : SdSoc) (env : ℕ → SdIn)

/-- The signals of cycle `n`. -/
def start (n : ℕ) : Bool := (s₀.run boot env n).soc.bus.regs.spi.start

/-- The master is busy in cycle `n`. -/
def busy (n : ℕ) : Bool := (s₀.run boot env n).sdspi.busy

/-- The master ends a transfer in cycle `n`. -/
def done (n : ℕ) : Bool := (s₀.run boot env n).sdspi.done

/-- The sticky flag in cycle `n`. -/
def sticky (n : ℕ) : Bool := (s₀.run boot env n).sdspiDoneSticky

/-- The divider in cycle `n`. -/
def clkdiv (n : ℕ) : BitVec 16 := (s₀.run boot env n).soc.bus.regs.spi.clkdiv

variable {boot s₀ env}

theorem start_succ (n : ℕ) :
    start boot s₀ env (n + 1) = true ↔ (env n).la.writes sdData ∧ busy boot s₀ env n = false := by
  rw [start, run_succ]
  exact start_step

theorem start_zero : start boot s₀ env 0 = false := rfl

theorem sdspi_succ (n : ℕ) :
    (s₀.run boot env (n + 1)).sdspi =
      (s₀.run boot env n).sdspi.step ((s₀.run boot env n).spiIn (env n)) := by
  rw [run_succ]
  rfl

theorem sticky_succ (n : ℕ) :
    sticky boot s₀ env (n + 1) =
      if done boot s₀ env n then true
      else if start boot s₀ env n then false else sticky boot s₀ env n := by
  rw [sticky, run_succ]
  rfl

theorem rxDataReg_succ (n : ℕ) :
    (s₀.run boot env (n + 1)).sdspiRxDataReg =
      if done boot s₀ env n then (s₀.run boot env n).sdspi.rxData
      else (s₀.run boot env n).sdspiRxDataReg := by
  rw [run_succ]
  rfl

/-- The inputs of the master. -/
def spiEnv (boot : Ram bootSize) (s₀ : SdSoc) (env : ℕ → SdIn) (n : ℕ) : SpiIn :=
  (s₀.run boot env n).spiIn (env n)

theorem sdspi_run (m k : ℕ) :
    (s₀.run boot env (m + k)).sdspi =
      Clocked.run SpiMaster.step (fun j => spiEnv boot s₀ env (m + j)) (s₀.run boot env m).sdspi k := by
  induction k with
  | zero => rfl
  | succ k ih => rw [Clocked.run_succ, ← ih, ← Nat.add_assoc, sdspi_succ]; rfl

theorem idle_succ {n : ℕ} (hbusy : busy boot s₀ env n = false)
    (hstart : start boot s₀ env n = false) :
    busy boot s₀ env (n + 1) = false ∧ done boot s₀ env (n + 1) = false := by
  have hstep := SpiMaster.step_idle (i := (s₀.run boot env n).spiIn (env n)) hbusy hstart
  rw [busy, done, sdspi_succ, hstep]
  exact ⟨hbusy, rfl⟩

/-- A start pulse and the `done` of the master never meet: a write to DATA while the master is busy
    gives no pulse, and from rest it does not end a transfer. -/
theorem not_start_and_done (n : ℕ) :
    ¬(start boot s₀ env n = true ∧ done boot s₀ env n = true) := by
  rintro ⟨hstart, hdone⟩
  cases n with
  | zero => exact absurd (start_zero.symm.trans hstart) (by decide)
  | succ n =>
      have hbusy : (s₀.run boot env n).sdspi.busy = false := ((start_succ n).1 hstart).2
      have hlow : done boot s₀ env (n + 1) = false := by
        rw [done, sdspi_succ]
        exact SpiMaster.step_done_of_idle hbusy
      exact absurd (hlow.symm.trans hdone) (by decide)

/-! ## A transfer -/

/-- A write to DATA in cycle `w` that finds the master at rest, and no other to DATA or CLKDIV
    before cycle `q`. -/
structure Transfer (boot : Ram bootSize) (s₀ : SdSoc) (env : ℕ → SdIn) (w q : ℕ) : Prop where
  write : (env w).la.writes sdData
  busy : busy boot s₀ env w = false
  start : start boot s₀ env w = false
  alone : ∀ m, w < m → m < q → ¬(env m).la.writes sdData ∧ ¬(env m).la.writes sdClkdiv

/-- The cycles of a half period of the transfer. -/
def halfAt (boot : Ram bootSize) (s₀ : SdSoc) (env : ℕ → SdIn) (w : ℕ) : ℕ :=
  SpiMaster.half (clkdiv boot s₀ env w)

/-- The inputs of the master from the start pulse on. -/
def fromStart (boot : Ram bootSize) (s₀ : SdSoc) (env : ℕ → SdIn) (w n : ℕ) : SpiIn :=
  spiEnv boot s₀ env (w + 1 + n)

namespace Transfer

variable {w q : ℕ}

theorem start_now (ht : Transfer boot s₀ env w q) : SdSoc.start boot s₀ env (w + 1) = true :=
  (start_succ w).2 ⟨ht.write, ht.busy⟩

theorem busy_now (ht : Transfer boot s₀ env w q) : SdSoc.busy boot s₀ env (w + 1) = false :=
  (idle_succ ht.busy ht.start).1

theorem start_later (ht : Transfer boot s₀ env w q) {n : ℕ} (hn : w + 1 < n) (hq : n ≤ q) :
    SdSoc.start boot s₀ env n = false := by
  cases n with
  | zero => exact start_zero
  | succ n =>
      rw [Bool.eq_false_iff]
      intro hstart
      exact (ht.alone n (by omega) (by omega)).1 ((start_succ n).1 hstart).1

theorem clkdiv_later (ht : Transfer boot s₀ env w q) {n : ℕ} (hn : w ≤ n) (hq : n ≤ q) :
    clkdiv boot s₀ env n = clkdiv boot s₀ env w := by
  induction n, hn using Nat.le_induction with
  | base => rfl
  | succ n hwn ih =>
      rw [← ih (by omega), clkdiv, run_succ, clkdiv_step]
      · rfl
      · rintro ⟨hw, haddr⟩
        rcases Nat.eq_or_lt_of_le hwn with rfl | hlt
        · exact absurd (haddr.symm.trans ht.write.2) (by decide)
        · exact (ht.alone n hlt (by omega)).2 ⟨hw, haddr⟩

theorem fromStart_start (ht : Transfer boot s₀ env w q) :
    (fromStart boot s₀ env w 0).start = true :=
  ht.start_now

theorem fromStart_clkdiv (ht : Transfer boot s₀ env w q) {n : ℕ} (hq : w + 1 + n ≤ q) :
    (fromStart boot s₀ env w n).clkdiv = clkdiv boot s₀ env w :=
  ht.clkdiv_later (by omega) hq

theorem fromStart_txData (ht : Transfer boot s₀ env w q) :
    (fromStart boot s₀ env w 0).txData = (env w).la.wdata.extractLsb' 0 8 := by
  show (s₀.run boot env (w + 1)).soc.bus.regs.spi.txData = _
  rw [run_succ]
  exact txData_step ht.write ht.busy

theorem run_fromStart (n : ℕ) :
    Clocked.run SpiMaster.step (fromStart boot s₀ env w) (s₀.run boot env (w + 1)).sdspi n =
      (s₀.run boot env (w + 1 + n)).sdspi :=
  (sdspi_run (w + 1) n).symm

/-- The master is busy for sixteen half periods. -/
theorem busy_during (ht : Transfer boot s₀ env w q) {n : ℕ} (hn : n < 16 * halfAt boot s₀ env w)
    (hq : w + 1 + n ≤ q) :
    SdSoc.busy boot s₀ env (w + 2 + n) = true ∧ done boot s₀ env (w + 2 + n) = false := by
  have hrun := SpiMaster.run_busy ht.busy_now ht.fromStart_start hn
    fun k hk => ht.fromStart_clkdiv (by omega)
  rw [run_fromStart, show w + 1 + (1 + n) = w + 2 + n by omega] at hrun
  exact hrun

theorem sticky_during (ht : Transfer boot s₀ env w q) {n : ℕ} (hn : n ≤ 16 * halfAt boot s₀ env w)
    (hq : w + 1 + n ≤ q) : sticky boot s₀ env (w + 2 + n) = false := by
  induction n with
  | zero =>
      have hdone : done boot s₀ env (w + 1) = false := (idle_succ ht.busy ht.start).2
      rw [Nat.add_zero, sticky_succ, hdone, ht.start_now]
      rfl
  | succ n ih =>
      have hdone := (ht.busy_during (n := n) (by omega) (by omega)).2
      rw [← Nat.add_assoc, sticky_succ, hdone, ht.start_later (by omega) (by omega)]
      exact ih (by omega) (by omega)

/-- The clock and the byte on the line. -/
theorem wave (ht : Transfer boot s₀ env w q) {h j : ℕ} (hh : h < 16) (hj : j < halfAt boot s₀ env w)
    (hq : w + 1 + h * halfAt boot s₀ env w + j ≤ q) :
    (s₀.run boot env (w + 2 + h * halfAt boot s₀ env w + j)).sdspi.spiSck = decide (h % 2 = 1)
      ∧ (s₀.run boot env (w + 2 + h * halfAt boot s₀ env w + j)).sdspi.spiMosi =
          ((env w).la.wdata.extractLsb' 0 8).getLsbD (7 - h / 2) := by
  have hat := SpiMaster.run_at ht.busy_now ht.fromStart_start hh hj fun n hn =>
    ht.fromStart_clkdiv (n := n) (by rw [halfAt] at hq; omega)
  rw [run_fromStart, ht.fromStart_txData] at hat
  have hindex : w + 1 + (1 + h * SpiMaster.half (clkdiv boot s₀ env w) + j) =
      w + 2 + h * halfAt boot s₀ env w + j := by
    rw [halfAt]
    omega
  rw [hindex] at hat
  refine ⟨?_, hat.mosiReg⟩
  rw [SpiMaster.spiSck, if_pos hat.busy]
  exact hat.sckReg

/-- The end of the transfer. -/
theorem last (ht : Transfer boot s₀ env w q) (hq : w + 1 + 16 * halfAt boot s₀ env w ≤ q) :
    SdSoc.busy boot s₀ env (w + 2 + 16 * halfAt boot s₀ env w) = false
      ∧ done boot s₀ env (w + 2 + 16 * halfAt boot s₀ env w) = true
      ∧ ∀ k < 8, (s₀.run boot env (w + 2 + 16 * halfAt boot s₀ env w)).sdspi.rxData.getLsbD (7 - k) =
          (env (w + 1 + (2 * k + 1) * halfAt boot s₀ env w)).sdMiso := by
  have hrun := SpiMaster.run_last ht.busy_now ht.fromStart_start fun n hn =>
    ht.fromStart_clkdiv (n := n) (by rw [halfAt] at hq; omega)
  have hindex : w + 1 + (1 + 16 * SpiMaster.half (clkdiv boot s₀ env w)) =
      w + 2 + 16 * halfAt boot s₀ env w := by
    rw [halfAt]
    omega
  rw [run_fromStart, hindex] at hrun
  exact hrun

/-- The master rests from the end of the transfer on, and the bus keeps the flag and the byte. -/
theorem after (ht : Transfer boot s₀ env w q) {n : ℕ}
    (hq : w + 2 + 16 * halfAt boot s₀ env w + n ≤ q) :
    SdSoc.busy boot s₀ env (w + 3 + 16 * halfAt boot s₀ env w + n) = false
      ∧ done boot s₀ env (w + 3 + 16 * halfAt boot s₀ env w + n) = false
      ∧ sticky boot s₀ env (w + 3 + 16 * halfAt boot s₀ env w + n) = true
      ∧ (s₀.run boot env (w + 3 + 16 * halfAt boot s₀ env w + n)).sdspiRxDataReg =
          (s₀.run boot env (w + 2 + 16 * halfAt boot s₀ env w)).sdspi.rxData := by
  induction n with
  | zero =>
      obtain ⟨hbusy, hdone, -⟩ := ht.last (by omega)
      have hnext := idle_succ hbusy (ht.start_later (by omega) (by omega))
      have hcycle : w + 3 + 16 * halfAt boot s₀ env w + 0 =
          w + 2 + 16 * halfAt boot s₀ env w + 1 := by omega
      rw [hcycle]
      refine ⟨hnext.1, hnext.2, ?_, ?_⟩
      · rw [sticky_succ, hdone]
        rfl
      · rw [rxDataReg_succ, hdone]
        rfl
  | succ n ih =>
      obtain ⟨hbusy, hdone, hsticky, hrx⟩ := ih (by omega)
      have hstart := ht.start_later (n := w + 3 + 16 * halfAt boot s₀ env w + n) (by omega) (by omega)
      have hnext := idle_succ hbusy hstart
      rw [← Nat.add_assoc]
      refine ⟨hnext.1, hnext.2, ?_, ?_⟩
      · rw [sticky_succ, hdone, hstart]
        exact hsticky
      · rw [rxDataReg_succ, hdone]
        exact hrx

/-- The flag is that of the transfer itself. -/
theorem sticky_iff (ht : Transfer boot s₀ env w q) {m : ℕ} (hw : w + 2 ≤ m) (hq : m ≤ q) :
    sticky boot s₀ env m = true ↔ w + 3 + 16 * halfAt boot s₀ env w ≤ m := by
  rcases Nat.lt_or_ge m (w + 3 + 16 * halfAt boot s₀ env w) with hlt | hge
  · have hlow := ht.sticky_during (n := m - (w + 2)) (by omega) (by omega)
    rw [show w + 2 + (m - (w + 2)) = m by omega] at hlow
    rw [hlow]
    exact ⟨fun h => absurd h (by decide), fun h => absurd h (by omega)⟩
  · have hhigh := (ht.after (n := m - (w + 3 + 16 * halfAt boot s₀ env w)) (by omega)).2.2.1
    rw [show w + 3 + 16 * halfAt boot s₀ env w + (m - (w + 3 + 16 * halfAt boot s₀ env w)) = m
      by omega] at hhigh
    exact ⟨fun _ => hge, fun _ => hhigh⟩

end Transfer

/-! ## A call of `spi_xfer` -/

/-- `while (SD_STATUS & 0x2) ;` -/
def notBusy (w : Word) : Bool := w &&& 0x2 == 0

/-- `while (!(SD_STATUS & 0x1)) ;` -/
def isDone (w : Word) : Bool := w &&& 0x1 != 0

/-- `spi_xfer(tx)` of the firmware and of the boot loader. -/
def spiXfer (tx : BitVec 8) : Prog (BitVec 8) := do
  waitUntil sdStatus notBusy
  store sdData (tx.setWidth 32)
  waitUntil sdStatus isDone
  let w ← load sdData
  return (w &&& 0xFF).setWidth 8

/-- The processor on the bus; `undef` is what it gets where the bus has no word. -/
def trace (boot : Ram bootSize) (s₀ : SdSoc) (env : ℕ → SdIn) (undef : ℕ → Word) : Trace where
  access n
    | .read addr => (env n).la.reads addr
    | .write addr data => (env n).la.writes addr ∧ (env n).la.wdata = data
  rdata n := (s₀.run boot env (n + 1)).soc.bus.memRdata.getD (undef n)

/-- The registers that a transfer depends on. -/
def SpiReg (addr : Word) : Prop := addr = sdData ∨ addr = sdClkdiv

/-- The accesses of a call up to cycle `q`: the last poll of its first loop in cycle `u` and the
    write to DATA in cycle `w`. Between and after them the CPU fetches, polls, and writes to other
    addresses. -/
structure Call (boot : Ram bootSize) (s₀ : SdSoc) (env : ℕ → SdIn) (tx : BitVec 8) (u w q : ℕ) :
    Prop where
  poll : (env u).la.reads sdStatus
  idle : busy boot s₀ env u = false
  next : u < w
  write : (env w).la.writes sdData
  byte : (env w).la.wdata.extractLsb' 0 8 = tx
  lt : w < q
  alone : ∀ m, u < m → m < q → m ≠ w → ¬(env m).la.writes sdData ∧ ¬(env m).la.writes sdClkdiv

variable {undef : ℕ → Word}

theorem quiet_iff {n : ℕ} : (trace boot s₀ env undef).Quiet SpiReg n ↔
    ¬(env n).la.writes sdData ∧ ¬(env n).la.writes sdClkdiv := by
  constructor
  · exact fun h => ⟨fun hw => h _ _ (.inl rfl) ⟨hw, rfl⟩, fun hw => h _ _ (.inr rfl) ⟨hw, rfl⟩⟩
  · rintro ⟨hdata, hclk⟩ addr data (rfl | rfl) ⟨hw, -⟩
    · exact hdata hw
    · exact hclk hw

theorem rdata_of_read {n : ℕ} {d : Word}
    (h : ((s₀.run boot env n).step boot (env n)).soc.bus.memRdata = some d) :
    (trace boot s₀ env undef).rdata n = d := by
  show (s₀.run boot env (n + 1)).soc.bus.memRdata.getD (undef n) = d
  rw [run_succ, h, Option.getD_some]

/-- What the two loops test. -/
theorem rdata_status {n : ℕ} (h : (env n).la.reads sdStatus) :
    notBusy ((trace boot s₀ env undef).rdata n) = !busy boot s₀ env n
      ∧ isDone ((trace boot s₀ env undef).rdata n) = sticky boot s₀ env n := by
  rw [rdata_of_read (status_read h), busy, sticky]
  generalize (s₀.run boot env n).soc.bus.regs.spi.csN = c
  generalize (s₀.run boot env n).sdspi.busy = b
  generalize (s₀.run boot env n).sdspiDoneSticky = d
  cases c <;> cases b <;> cases d <;> decide

theorem rdata_data {n : ℕ} (h : (env n).la.reads sdData) :
    (trace boot s₀ env undef).rdata n = 0#24 ++ (s₀.run boot env n).sdspiRxDataReg :=
  rdata_of_read (data_read h)

theorem not_writes_of_reads {la : LookAhead} (h : la.reads sdStatus) : ¬la.writes sdData :=
  fun hw => absurd (h.2.symm.trans hw.2) (by decide)

/-- An access is not followed by one, and there is no start pulse in a cycle with an access. -/
theorem start_of_access (hapart : ∀ n, (env n).la.access = true → (env (n + 1)).la.access = false)
    {n : ℕ} (haccess : (env n).la.access = true) : start boot s₀ env n = false := by
  cases n with
  | zero => exact start_zero
  | succ n =>
      rw [Bool.eq_false_iff]
      intro hstart
      have hwrite := ((start_succ n).1 hstart).1.access
      exact absurd ((hapart n hwrite).symm.trans haccess) (by decide)

/-- Without writes to DATA the master comes to rest, whatever it was doing. -/
theorem rests_later {a n : ℕ} (hquiet : ∀ m, a ≤ m → m < n → ¬(env m).la.writes sdData)
    (hn : a + 1 + 2 ^ 20 ≤ n) : busy boot s₀ env n = false := by
  have hleft (k : ℕ) (hk : a + 1 + k ≤ n) :
      (s₀.run boot env (a + 1 + k)).sdspi.left ≤ 2 ^ 20 - k := by
    induction k with
    | zero => exact SpiMaster.left_le _
    | succ k ih =>
        have hstart : start boot s₀ env (a + 1 + k) = false := by
          rw [Bool.eq_false_iff, show a + 1 + k = a + k + 1 by omega]
          intro hstart
          exact hquiet (a + k) (by omega) (by omega) ((start_succ _).1 hstart).1
        have hstep := SpiMaster.left_step (s := (s₀.run boot env (a + 1 + k)).sdspi)
          (i := (s₀.run boot env (a + 1 + k)).spiIn (env (a + 1 + k))) hstart
        rw [← sdspi_succ] at hstep
        have := ih (by omega)
        rw [← Nat.add_assoc]
        omega
  have hzero := hleft (n - (a + 1)) (by omega)
  rw [show a + 1 + (n - (a + 1)) = n by omega] at hzero
  exact SpiMaster.busy_of_left (by omega)

namespace Call

variable {tx : BitVec 8} {u w q : ℕ}

/-- From the poll to the write the master rests. -/
theorem rests (hc : Call boot s₀ env tx u w q)
    (hapart : ∀ n, (env n).la.access = true → (env (n + 1)).la.access = false) {n : ℕ} (hu : u ≤ n)
    (hw : n ≤ w) : busy boot s₀ env n = false ∧ start boot s₀ env n = false := by
  induction n, hu using Nat.le_induction with
  | base => exact ⟨hc.idle, start_of_access hapart hc.poll.access⟩
  | succ n hun ih =>
      obtain ⟨hbusy, hstart⟩ := ih (by omega)
      refine ⟨(idle_succ hbusy hstart).1, ?_⟩
      rw [Bool.eq_false_iff]
      intro hnext
      have hwrite := ((start_succ n).1 hnext).1
      rcases Nat.eq_or_lt_of_le hun with rfl | hlt
      · exact not_writes_of_reads hc.poll hwrite
      · exact (hc.alone n hlt (by have := hc.lt; omega) (by omega)).1 hwrite

theorem transfer (hc : Call boot s₀ env tx u w q)
    (hapart : ∀ n, (env n).la.access = true → (env (n + 1)).la.access = false) :
    Transfer boot s₀ env w q where
  write := hc.write
  busy := (hc.rests hapart hc.next.le le_rfl).1
  start := (hc.rests hapart hc.next.le le_rfl).2
  alone m hw hq := hc.alone m (hc.next.trans hw) hq (Nat.ne_of_gt hw)

/-- A poll comes two cycles after the write, when the flag of an earlier transfer is cleared. -/
theorem poll_iff (hc : Call boot s₀ env tx u w q)
    (hapart : ∀ n, (env n).la.access = true → (env (n + 1)).la.access = false) {m : ℕ} (hw : w < m)
    (hq : m < q) (hread : (env m).la.reads sdStatus) :
    sticky boot s₀ env m = true ↔ w + 3 + 16 * halfAt boot s₀ env w ≤ m := by
  have hne : w + 1 ≠ m := by
    rintro rfl
    exact absurd ((hapart w hc.write.access).symm.trans hread.access) (by decide)
  exact (hc.transfer hapart).sticky_iff (by omega) hq.le

/-- Between the poll and the read the master works in the sixteen half periods of one transfer. -/
theorem busy_iff (hc : Call boot s₀ env tx u w q)
    (hapart : ∀ n, (env n).la.access = true → (env (n + 1)).la.access = false)
    (hended : w + 3 + 16 * halfAt boot s₀ env w ≤ q) {n : ℕ} (hu : u ≤ n) (hq : n ≤ q) :
    busy boot s₀ env n = true ↔ w + 2 ≤ n ∧ n < w + 2 + 16 * halfAt boot s₀ env w := by
  have ht := hc.transfer hapart
  have hlow : (busy boot s₀ env n = false) → ¬(w + 2 ≤ n ∧ n < w + 2 + 16 * halfAt boot s₀ env w) →
      (busy boot s₀ env n = true ↔ w + 2 ≤ n ∧ n < w + 2 + 16 * halfAt boot s₀ env w) :=
    fun hbusy hout => ⟨fun h => absurd (hbusy.symm.trans h) (by decide), fun h => absurd h hout⟩
  rcases Nat.lt_or_ge n (w + 2) with hbefore | hge
  · refine hlow ?_ (by omega)
    rcases Nat.lt_or_ge w n with hlt | hle
    · rw [show n = w + 1 by omega]
      exact ht.busy_now
    · exact (hc.rests hapart hu hle).1
  · obtain ⟨j, rfl⟩ := Nat.exists_eq_add_of_le hge
    rcases Nat.lt_trichotomy j (16 * halfAt boot s₀ env w) with hlt | rfl | hgt
    · exact ⟨fun _ => ⟨hge, by omega⟩, fun _ => (ht.busy_during hlt (by omega)).1⟩
    · exact hlow (ht.last (by omega)).1 (by omega)
    · obtain ⟨k, rfl⟩ := Nat.exists_eq_add_of_lt hgt
      have hafter := (ht.after (n := k) (by omega)).1
      rw [show w + 3 + 16 * halfAt boot s₀ env w + k =
        w + 2 + (16 * halfAt boot s₀ env w + k + 1) by omega] at hafter
      exact hlow hafter (by omega)

end Call

/-- A call sends its byte once and receives one: from the last poll of the first loop in cycle `u`
    to the read in cycle `q`, with the write in cycle `w` and half periods of `d` cycles. -/
structure Exchange (boot : Ram bootSize) (s₀ : SdSoc) (env : ℕ → SdIn) (tx rx : BitVec 8)
    (u w q d : ℕ) : Prop where
  once : ∀ n, u ≤ n → n ≤ q → (start boot s₀ env n = true ↔ n = w + 1)
  works : ∀ n, u ≤ n → n ≤ q → (busy boot s₀ env n = true ↔ w + 2 ≤ n ∧ n < w + 2 + 16 * d)
  sends : ∀ h < 16, ∀ j < d,
    (s₀.run boot env (w + 2 + h * d + j)).sdspi.spiSck = decide (h % 2 = 1)
      ∧ (s₀.run boot env (w + 2 + h * d + j)).sdspi.spiMosi = tx.getLsbD (7 - h / 2)
  -- a poll after the write finds the flag of this transfer, not that of an earlier one
  flag : ∀ m, w < m → m < q → (env m).la.reads sdStatus →
    (sticky boot s₀ env m = true ↔ w + 3 + 16 * d ≤ m)
  receives : ∀ k < 8, rx.getLsbD (7 - k) = (env (w + 1 + (2 * k + 1) * d)).sdMiso

theorem Call.exchange {tx : BitVec 8} {u w q : ℕ} (hc : Call boot s₀ env tx u w q)
    (hapart : ∀ n, (env n).la.access = true → (env (n + 1)).la.access = false)
    (hended : w + 3 + 16 * halfAt boot s₀ env w ≤ q) :
    Exchange boot s₀ env tx (s₀.run boot env q).sdspiRxDataReg u w q (halfAt boot s₀ env w) := by
  have ht := hc.transfer hapart
  refine ⟨fun n hu hq => ?_, fun n hu hq => hc.busy_iff hapart hended hu hq, fun h hh j hj => ?_,
    fun m hw hq hread => hc.poll_iff hapart hw hq hread, ?_⟩
  · rcases Nat.lt_trichotomy n (w + 1) with hlt | rfl | hgt
    · have hlow := (hc.rests hapart hu (Nat.le_of_lt_succ hlt)).2
      exact ⟨fun h => absurd (hlow.symm.trans h) (by decide), fun h => absurd h hlt.ne⟩
    · exact ⟨fun _ => rfl, fun _ => ht.start_now⟩
    · have hlow := ht.start_later hgt hq
      exact ⟨fun h => absurd (hlow.symm.trans h) (by decide), fun h => absurd h hgt.ne'⟩
  · have hmul : h * halfAt boot s₀ env w ≤ 15 * halfAt boot s₀ env w :=
      Nat.mul_le_mul_right _ (by omega)
    have hwave := ht.wave hh hj (by omega)
    rw [hc.byte] at hwave
    exact hwave
  · obtain ⟨n, hn⟩ := Nat.exists_eq_add_of_le hended
    obtain ⟨-, -, -, hrx⟩ := ht.after (n := n) (by omega)
    rw [← hn] at hrx
    rw [hrx]
    exact (ht.last (by omega)).2.2

theorem setWidth_and_append (x : BitVec 8) : ((0#24 ++ x) &&& 0xFF#32).setWidth 8 = x := by
  refine BitVec.eq_of_getLsbD_eq fun i hi => ?_
  rw [BitVec.getLsbD_setWidth, BitVec.getLsbD_and, BitVec.getLsbD_append]
  interval_cases i <;> simp

theorem spiXfer_eq (tx : BitVec 8) : spiXfer tx =
    .poll sdStatus notBusy fun _ => .write sdData (tx.setWidth 32) (.poll sdStatus isDone fun _ =>
      .poll sdData (fun _ => true) fun w => .ret ((w &&& 0xFF).setWidth 8)) := rfl

/-- **A call of `spi_xfer` returns its own byte.** With the accesses of the CPU at least two cycles
    apart, no cycle has both a start pulse and a `done` of the master. From every state that a run
    reaches, a processor that runs `spi_xfer` comes to its end: one start pulse, one transfer with
    the byte of the call on `mosi`, and the bits that `miso` had when the clock rose in it as the
    value. -/
theorem spi_xfer_own_byte (boot : Ram bootSize) (s₀ : SdSoc) (env : ℕ → SdIn) (undef : ℕ → Word)
    (hapart : ∀ n, (env n).la.access = true → (env (n + 1)).la.access = false) :
    (∀ n, ¬(start boot s₀ env n = true ∧ done boot s₀ env n = true))
      ∧ ∀ (tx : BitVec 8) (a : ℕ), (trace boot s₀ env undef).Executes SpiReg (spiXfer tx) a →
          ∃ rx u w q, a ≤ u ∧ u < w ∧ w < q ∧ (env w).la.writes sdData
            ∧ (trace boot s₀ env undef).Returns rx (q + 1) (spiXfer tx) a
            ∧ Exchange boot s₀ env tx rx u w q ((clkdiv boot s₀ env w).toNat + 1) := by
  refine ⟨not_start_and_done, fun tx a hexec => ?_⟩
  rw [spiXfer_eq] at hexec ⊢
  -- the first loop, which the end of an earlier transfer ends
  obtain ⟨u, hu, -, w, huw, hw, hquietw, hexec⟩ := hexec.passes (a + 1 + 2 ^ 20)
    fun c _ hN hquiet hread => by
      rw [(rdata_status hread).1, rests_later (a := a) (fun m ham hm =>
        (quiet_iff.1 (hquiet m ham hm.le)).1) hN]
      rfl
  have hidle : busy boot s₀ env u = false := by
    have hpass := hu.passes
    rw [(rdata_status hu.read).1] at hpass
    simpa using hpass
  have hcall {q : ℕ} (hwq : w < q) (hquiet : ∀ n, w + 1 ≤ n → n < q →
      (trace boot s₀ env undef).Quiet SpiReg n) : Call boot s₀ env tx u w q := by
    refine ⟨hu.read, hidle, huw, hw.1, ?_, hwq, fun m hum hmq hne => ?_⟩
    · rw [hw.2]
      exact BitVec.eq_of_getLsbD_eq fun i hi => by simp [hi]; omega
    · refine (@quiet_iff boot s₀ env undef m).1 ?_
      rcases Nat.lt_or_ge m w with hlt | hge
      · exact hquietw m hum hlt
      · exact hquiet m (by omega) hmq
  -- the second loop, which its own transfer ends
  obtain ⟨p, hp, hquietp, hexec⟩ := hexec.passes (w + 3 + 16 * halfAt boot s₀ env w)
    fun c hc hN hquiet hread => by
      rw [(rdata_status hread).2]
      exact ((hcall (Nat.lt_succ_of_lt hc) fun n hn hnc => hquiet n hn (Nat.le_of_lt_succ hnc)).poll_iff
        hapart hc (Nat.lt_succ_self c) hread).2 hN
  obtain ⟨q, hq, hquietq, -⟩ := hexec.passes 0 fun _ _ _ _ _ => rfl
  have hpq : p < q := hq.le
  have hwp : w < p := hp.le
  have hthis : Call boot s₀ env tx u w q := hcall (hwp.trans hpq) fun n hn hnq => by
    rcases Nat.lt_or_ge p n with hlt | hge
    · exact hquietq n hlt hnq.le
    · exact hquietp n hn hge
  have hended : w + 3 + 16 * halfAt boot s₀ env w ≤ q := by
    have hpass := hp.passes
    rw [(rdata_status hp.read).2] at hpass
    exact ((hthis.poll_iff hapart hwp hpq hp.read).1 hpass).trans hpq.le
  refine ⟨(s₀.run boot env q).sdspiRxDataReg, u, w, q, hu.le, huw, hwp.trans hpq, hw.1,
    ⟨u, hu, w, huw, hw, p, hp, q, hq, ?_, rfl⟩, hthis.exchange hapart hended⟩
  rw [rdata_data hq.read]
  exact setWidth_and_append _

/-! ### A call after reset -/

/-- A call with the divider of the reset and a card that sends 0x55: a poll, the write of 0xA5, two
    polls and the read. -/
def oneCall (n : ℕ) : SdIn :=
  let access (addr : BitVec 32) (laRead laWrite : Bool) : SdIn :=
    { la := { addr := addr, wdata := 0xA5, wstrb := 0xF, laRead := laRead, laWrite := laWrite }
      uartRx := true, swSync2 := 0, btnSync2 := 0, sdMiso := n / 400 % 2 == 1 }
  if n = 3 then access sdStatus true false
  else if n = 6 then access sdData false true
  else if n = 1000 then access sdStatus true false
  else if n = 4000 then access sdStatus true false
  else if n = 4003 then access sdData true false
  else access 0 false false

/-- A system at rest. -/
def sampleSdSoc : SdSoc := ⟨sampleSoc, .reset, false, 0xFF⟩

theorem oneCall_apart (n : ℕ) (h : (oneCall n).la.access = true) :
    (oneCall (n + 1)).la.access = false := by
  have hn : n = 3 ∨ n = 6 ∨ n = 1000 ∨ n = 4000 ∨ n = 4003 := by
    by_contra hne
    push Not at hne
    rw [oneCall, if_neg hne.1, if_neg hne.2.1, if_neg hne.2.2.1, if_neg hne.2.2.2.1,
      if_neg hne.2.2.2.2] at h
    exact Bool.false_ne_true h
  rcases hn with rfl | rfl | rfl | rfl | rfl <;> rfl

theorem oneCall_writes {n : ℕ} (hn : n ≠ 6) : (oneCall n).la.laWrite = false := by
  rw [oneCall, if_neg hn]
  split_ifs <;> rfl

theorem oneCall_polls {n : ℕ} (h : (oneCall n).la.reads sdStatus) : n = 3 ∨ n = 1000 ∨ n = 4000 := by
  by_contra hne
  push Not at hne
  have haddr := h.2
  rw [oneCall, if_neg hne.1, if_neg hne.2.1, if_neg hne.2.2] at haddr
  split_ifs at haddr
  · exact absurd (show sdData = sdStatus from haddr) (by decide)
  · exact absurd (show sdData = sdStatus from haddr) (by decide)
  · exact absurd (show 0 = sdStatus from haddr) (by decide)

theorem oneCall_start {n : ℕ} (hn : n ≤ 6) : start emptyBoot sampleSdSoc oneCall n = false := by
  cases n with
  | zero => exact start_zero
  | succ n =>
      rw [Bool.eq_false_iff]
      intro hstart
      have hwrite := ((start_succ n).1 hstart).1.1
      rw [oneCall_writes (by omega)] at hwrite
      exact absurd hwrite (by decide)

theorem oneCall_busy {n : ℕ} (hn : n ≤ 6) : busy emptyBoot sampleSdSoc oneCall n = false := by
  induction n with
  | zero => rfl
  | succ n ih => exact (idle_succ (ih (by omega)) (oneCall_start (by omega))).1

theorem oneCall_clkdiv {n : ℕ} (hn : n ≤ 6) :
    clkdiv emptyBoot sampleSdSoc oneCall n = 199 := by
  induction n with
  | zero => rfl
  | succ n ih =>
      rw [← ih (by omega), clkdiv, run_succ, clkdiv_step]
      · rfl
      · rintro ⟨hw, -⟩
        rw [oneCall_writes (by omega)] at hw
        exact absurd hw (by decide)

theorem oneCall_alone {m : ℕ} (hm : m ≠ 6) :
    ¬(oneCall m).la.writes sdData ∧ ¬(oneCall m).la.writes sdClkdiv := by
  have hw := oneCall_writes hm
  exact ⟨fun h => absurd (hw.symm.trans h.1) (by decide),
    fun h => absurd (hw.symm.trans h.1) (by decide)⟩

/-- The second poll after the write finds the flag. -/
theorem oneCall_sticky : sticky emptyBoot sampleSdSoc oneCall 4000 = true := by
  have ht : Transfer emptyBoot sampleSdSoc oneCall 6 4003 :=
    ⟨⟨rfl, rfl⟩, oneCall_busy le_rfl, oneCall_start le_rfl,
      fun m hw _ => oneCall_alone (Nat.ne_of_gt hw)⟩
  have hhalf : halfAt emptyBoot sampleSdSoc oneCall 6 = 200 :=
    congrArg SpiMaster.half (oneCall_clkdiv le_rfl)
  exact (ht.sticky_iff (by decide) (by decide)).2 (by rw [hhalf]; decide)

theorem oneCall_executes (undef : ℕ → Word) :
    (trace emptyBoot sampleSdSoc oneCall undef).Executes SpiReg (spiXfer 0xA5) 0 := by
  rw [spiXfer_eq]
  have hfirst : notBusy ((trace emptyBoot sampleSdSoc oneCall undef).rdata 3) = true := by
    rw [(rdata_status ⟨rfl, rfl⟩).1, oneCall_busy (by decide)]
    rfl
  have hlast : isDone ((trace emptyBoot sampleSdSoc oneCall undef).rdata 4000) = true := by
    rw [(rdata_status ⟨rfl, rfl⟩).2, oneCall_sticky]
  have hle {addr : Word} {test : Word → Bool} {a n c : ℕ}
      (hfail : (trace emptyBoot sampleSdSoc oneCall undef).Failing addr test a n) (hac : a ≤ c)
      (hread : (oneCall c).la.reads addr)
      (htest : test ((trace emptyBoot sampleSdSoc oneCall undef).rdata c) = true) : n ≤ c := by
    by_contra hlt
    rw [hfail c hac (by omega) hread] at htest
    cases htest
  refine ⟨fun n _ hfail => ?_, fun c hc => ⟨6, ?_, ⟨⟨rfl, rfl⟩, rfl⟩, fun n _ hn =>
    quiet_iff.2 (oneCall_alone hn.ne), fun n hn hfail => ?_, fun c hc => ⟨fun n hn hfail => ?_,
      fun _ _ => trivial⟩⟩⟩
  · have hn := hle hfail (Nat.zero_le 3) ⟨rfl, rfl⟩ hfirst
    exact ⟨quiet_iff.2 (oneCall_alone (by omega)), 3, hn, ⟨rfl, rfl⟩⟩
  · have := hle hc.before (Nat.zero_le 3) ⟨rfl, rfl⟩ hfirst
    omega
  · have hn' := hle hfail (show 7 ≤ 4000 by decide) ⟨rfl, rfl⟩ hlast
    exact ⟨quiet_iff.2 (oneCall_alone (by omega)), 4000, hn', ⟨rfl, rfl⟩⟩
  · have hpoll := oneCall_polls hc.read
    have hlow := hc.le
    have hn' := hle hfail (show c + 1 ≤ 4003 by omega) ⟨rfl, rfl⟩ rfl
    exact ⟨quiet_iff.2 (oneCall_alone (by omega)), 4003, hn', ⟨rfl, rfl⟩⟩

theorem spi_xfer_own_byte_oneCall :
    ∃ b, (trace emptyBoot sampleSdSoc oneCall fun _ => 0).Returns 0x55 b (spiXfer 0xA5) 0 := by
  obtain ⟨rx, u, w, q, -, -, -, hwrite, hret, hexchange⟩ :=
    (spi_xfer_own_byte emptyBoot sampleSdSoc oneCall (fun _ => 0) oneCall_apart).2 0xA5 0
      (oneCall_executes _)
  have hw : w = 6 := by
    by_contra hne
    exact (oneCall_alone hne).1 hwrite
  rw [hw, oneCall_clkdiv le_rfl] at hexchange
  have hrx : rx = 0x55 := by
    refine BitVec.eq_of_getLsbD_eq fun i hi => ?_
    have hbit := hexchange.receives (7 - i) (by omega)
    rw [show 7 - (7 - i) = i by omega] at hbit
    rw [hbit, oneCall]
    interval_cases i <;> rfl
  exact ⟨q + 1, hrx ▸ hret⟩

end SdSoc

end PicoSoc.System
