import PicoSoc.System.Soc

set_option autoImplicit false

/-! # The transmit path

A byte goes from a CPU write to `uart_tx_data`, in the next cycle from there into `send_pattern`,
and from `send_pattern` bit by bit to the line. -/

namespace PicoSoc.System

open Bytes Clocked

/-! ## The registers of the port -/

theorem uart_fastWrite (p : Periph) (old : Regs) (a : Access) (r : Regs) :
    (fastWrite p old a r).uart =
      if a.addr = 0x10000004 then
        if old.uart.txBusy then r.uart else r.uart.transmit 9000 a.wdata
      else if a.addr = 0x10000010 then { r.uart with divWe := a.wstrb, divDi := a.wdata }
      else r.uart := by
  unfold fastWrite
  by_cases happ : InApp a.addr
  · rw [if_pos happ, if_neg, if_neg]
    · rfl
    · rintro h
      rw [h] at happ
      exact absurd happ (by decide)
    · rintro h
      rw [h] at happ
      exact absurd happ (by decide)
  · rw [if_neg happ]
    show (onLabel (fastIoWrites p old a.wstrb) a.addr a.wdata r).uart = _
    by_cases htx : a.addr = 0x10000004
    · rw [if_pos htx, onLabel_of_some (f := uartTxWrite 9000 old) (by rw [htx]; rfl), uartTxWrite]
      split <;> rfl
    · rw [if_neg htx]
      by_cases hdiv : a.addr = 0x10000010
      · rw [if_pos hdiv, onLabel_of_some (f := fun d r =>
          { r with uart := { r.uart with divWe := a.wstrb, divDi := d } }) (by rw [hdiv]; rfl)]
      · rw [if_neg hdiv]
        have htx : (a.addr == 0x10000004) = false := by simpa using htx
        have hdiv : (a.addr == 0x10000010) = false := by simpa using hdiv
        simp only [onLabel, fastIoWrites, List.lookup_cons, htx, hdiv, List.lookup_nil]
        cases a.addr == 0x10000000
        · cases a.addr == 0x60000000
          · cases a.addr == 0x60000008
            · cases a.addr == 0x6000000C <;> rfl
            · rfl
          · cases p.sdspiBusy <;> rfl
        · rfl

section

variable (boot : Ram bootSize) (i : SocIn) (s : Soc)

/-- The CPU writes a byte while `tx_ready` is 1. -/
def Soc.accepts : Bool :=
  i.la.laWrite && i.la.addr == 0x10000004 && s.bus.regs.uart.txReady

/-- The CPU reads the receive register. -/
def SocIn.readsRx (i : SocIn) : Bool := i.la.laRead && i.la.addr == 0x10000008

/-- The port registers after a cycle. -/
theorem uart_step :
    (s.step boot i).bus.regs.uart =
      let r := { s.bus.regs.uart.count with rxRd := i.readsRx }
      if i.la.laWrite then
        if i.la.addr = 0x10000004 then
          if s.bus.regs.uart.txBusy then r else r.transmit 9000 i.la.wdata
        else if i.la.addr = 0x10000010 then { r with divWe := i.la.wstrb, divDi := i.la.wdata }
        else r
      else r := by
  have hstep : (s.step boot i).bus.regs.uart =
      (if i.la.laWrite then
        fastWrite (s.periph i) s.bus.regs i.la.toAccess
          (if i.readsRx then s.bus.regs.idle.rxRead else s.bus.regs.idle)
       else (if i.readsRx then s.bus.regs.idle.rxRead else s.bus.regs.idle)).uart := rfl
  have hread : (if i.readsRx then s.bus.regs.idle.rxRead else s.bus.regs.idle).uart
      = { s.bus.regs.uart.count with rxRd := i.readsRx } := by
    cases i.readsRx <;> rfl
  rw [hstep]
  dsimp only
  by_cases hw : i.la.laWrite = true
  · rw [if_pos hw, if_pos hw, uart_fastWrite, hread]
  · rw [if_neg hw, if_neg hw, hread]

/-- `uart_we` and `uart_tx_data` in the cycle after an accepted byte, and only then. -/
theorem uart_we_step : ((s.step boot i).bus.regs.uart.we = s.accepts i)
    ∧ (s.accepts i = true →
        (s.step boot i).bus.regs.uart.txData = i.la.wdata.extractLsb' 0 8) := by
  rw [uart_step]
  unfold Soc.accepts UartRegs.txReady
  cases hw : i.la.laWrite
  · exact ⟨rfl, by simp⟩
  · rw [if_pos rfl]
    by_cases htx : i.la.addr = 0x10000004
    · rw [if_pos htx, htx]
      cases hb : s.bus.regs.uart.txBusy
      · exact ⟨rfl, fun _ => rfl⟩
      · exact ⟨rfl, by simp⟩
    · have hbeq : (i.la.addr == 0x10000004) = false := by simpa using htx
      rw [if_neg htx, hbeq]
      refine ⟨?_, by simp⟩
      split <;> rfl

end

/-! ## Frames and the bits of the line -/

/-- A byte on the line: start bit, data from bit 0 up, stop bit. -/
def frame (b : Byte) : List Bool := false :: (List.range 8).map b.getLsbD ++ [true]

/-- What the transmitter loads: a byte, or the dummy frame of 15 idle bits. -/
def itemBits : Option Byte → List Bool
  | some b => frame b
  | none => List.replicate 15 true

/-- The bytes a receiver reads off the bits of the line: idle bits, then ten bits from each start
    bit on. -/
def deframe : List Bool → List Byte
  | [] => []
  | true :: bits => deframe bits
  | false :: b₀ :: b₁ :: b₂ :: b₃ :: b₄ :: b₅ :: b₆ :: b₇ :: true :: bits =>
    BitVec.ofBoolListLE [b₀, b₁, b₂, b₃, b₄, b₅, b₆, b₇] :: deframe bits
  | false :: _ => []

theorem deframe_idle (n : ℕ) (bits : List Bool) :
    deframe (List.replicate n true ++ bits) = deframe bits := by
  induction n with
  | zero => rfl
  | succ n ih => rw [List.replicate_succ, List.cons_append, deframe, ih]

theorem deframe_frame (b : Byte) (bits : List Bool) :
    deframe (frame b ++ bits) = b :: deframe bits := by
  have hbyte : BitVec.ofBoolListLE [b.getLsbD 0, b.getLsbD 1, b.getLsbD 2, b.getLsbD 3, b.getLsbD 4,
      b.getLsbD 5, b.getLsbD 6, b.getLsbD 7] = b := by
    apply BitVec.eq_of_getLsbD_eq
    intro k hk
    have hk : k < 8 := hk
    rw [BitVec.getLsbD_ofBoolListLE]
    interval_cases k <;> rfl
  have hbits : frame b ++ bits = false :: b.getLsbD 0 :: b.getLsbD 1 :: b.getLsbD 2 :: b.getLsbD 3
      :: b.getLsbD 4 :: b.getLsbD 5 :: b.getLsbD 6 :: b.getLsbD 7 :: true :: bits := rfl
  rw [hbits, deframe, hbyte]

theorem deframe_items (items : List (Option Byte)) :
    deframe (items.flatMap itemBits) = items.filterMap id := by
  induction items with
  | nil => rfl
  | cons item items ih =>
      rw [List.flatMap_cons]
      cases item with
      | none => rw [itemBits, deframe_idle, ih]; rfl
      | some b => rw [itemBits, deframe_frame, ih]; rfl

/-! ## The transmitter -/

namespace SimpleUart

variable (i : UartIn) (u : SimpleUart)

/-- What the transmitter loads in a cycle. -/
def loads : List (Option Byte) :=
  if u.sendDummy && u.sendBitcnt == 0 then [none]
  else if i.regDatWe && u.sendBitcnt == 0 then [some (i.regDatDi.extractLsb' 0 8)]
  else []

/-- The bit that leaves the line in a cycle. -/
def shiftedBit : List Bool := if u.shifts then [u.serTx] else []

/-- The bits still to be sent, the one on the line included. -/
def remaining : List Bool :=
  (List.range u.sendBitcnt.toNat).map fun k => if k < 10 then u.sendPattern.getLsbD k else true

theorem remaining_of_zero (h : u.sendBitcnt = 0) : u.remaining = [] := by
  rw [remaining, h]
  rfl

/-- The frame register and its bit counter after a cycle. -/
theorem send_step (d : BitVec 32) :
    (u.step i d true).sendPattern =
      (if u.sendDummy && u.sendBitcnt == 0 then ~~~0#10
      else if i.regDatWe && u.sendBitcnt == 0 then 1#1 ++ i.regDatDi.extractLsb' 0 8 ++ 0#1
      else if u.shifts then 1#1 ++ u.sendPattern.extractLsb' 1 9
      else u.sendPattern)
    ∧ (u.step i d true).sendBitcnt =
      (if u.sendDummy && u.sendBitcnt == 0 then 15
      else if i.regDatWe && u.sendBitcnt == 0 then 10
      else if u.shifts then u.sendBitcnt - 1
      else u.sendBitcnt) := by
  have hdummy : ∀ t : SimpleUart, t = (if i.regDivWe != 0 then { u with sendDummy := true } else u) →
      t.sendPattern = u.sendPattern ∧ t.sendBitcnt = u.sendBitcnt := by
    rintro t rfl
    split <;> exact ⟨rfl, rfl⟩
  obtain ⟨hpattern, hbitcnt⟩ := hdummy _ rfl
  show (u.sendStep i).sendPattern = _ ∧ (u.sendStep i).sendBitcnt = _
  unfold sendStep
  dsimp only
  split
  · exact ⟨rfl, rfl⟩
  · split
    · exact ⟨rfl, rfl⟩
    · split
      · exact ⟨rfl, rfl⟩
      · exact ⟨hpattern, hbitcnt⟩

theorem map_range_frame (b : Byte) :
    ((List.range 10).map fun k => if k < 10 then (1#1 ++ b ++ 0#1).getLsbD k else true)
      = frame b := by
  have hbit (k : ℕ) : (1#1 ++ b ++ 0#1).getLsbD k =
      if k < 1 then (0#1).getLsbD k
      else if k - 1 < 8 then b.getLsbD (k - 1) else (1#1).getLsbD (k - 1 - 8) := by
    rw [BitVec.getLsbD_append, BitVec.getLsbD_append]
  simp only [hbit]
  rfl

/-- Bits that leave, bits that remain and what is loaded add up. -/
theorem remaining_step (d : BitVec 32) :
    u.shiftedBit ++ (u.step i d true).remaining = u.remaining ++ (u.loads i).flatMap itemBits := by
  obtain ⟨hpattern, hbitcnt⟩ := u.send_step i d
  unfold loads shiftedBit
  by_cases hidle : u.sendBitcnt = 0
  · have hshift : u.shifts = false := by simp [shifts, hidle]
    rw [hshift, u.remaining_of_zero hidle, remaining, hpattern, hbitcnt, hidle]
    cases hdummy : u.sendDummy
    · cases hwe : i.regDatWe
      · simp [hshift]
      · simp only [Bool.false_and, Bool.false_eq_true, if_false, Bool.true_and, beq_self_eq_true,
          if_true, List.nil_append, List.flatMap_singleton, itemBits]
        exact map_range_frame _
    · simp only [Bool.true_and, beq_self_eq_true, if_true, Bool.false_eq_true, if_false,
        List.nil_append, List.flatMap_singleton, itemBits]
      decide
  · have hbusy : (u.sendBitcnt == 0) = false := by simpa using hidle
    simp only [hbusy, Bool.and_false, Bool.false_eq_true, if_false] at hpattern hbitcnt ⊢
    rw [List.flatMap_nil, List.append_nil]
    cases hshift : u.shifts
    · simp only [hshift, Bool.false_eq_true, if_false] at hpattern hbitcnt
      rw [remaining, hpattern, hbitcnt]
      rfl
    · simp only [hshift, if_true] at hpattern hbitcnt
      have hcount : u.sendBitcnt.toNat = (u.sendBitcnt - 1).toNat + 1 := by bv_omega
      have htail : ∀ k, (if k < 10 then (1#1 ++ u.sendPattern.extractLsb' 1 9).getLsbD k else true)
          = if k + 1 < 10 then u.sendPattern.getLsbD (k + 1) else true := by
        intro k
        rcases Nat.lt_trichotomy k 9 with hk | rfl | hk
        · rw [if_pos (by omega), if_pos (by omega), BitVec.getLsbD_append, if_pos hk,
            BitVec.getLsbD_extractLsb']
          simp [hk, Nat.add_comm]
        · rw [if_pos (by omega), if_neg (by omega), BitVec.getLsbD_append]
          simp
        · rw [if_neg (by omega), if_neg (by omega)]
      rw [remaining, remaining, hpattern, hbitcnt, if_pos rfl, hcount, List.range_succ_eq_map,
        List.map_cons, List.map_map]
      simp only [htail]
      rfl

end SimpleUart

/-! ## Runs -/

section

variable (boot : Ram bootSize) (s₀ : Soc) (env : ℕ → SocIn)

/-- The bytes the CPU has written while `tx_ready` was 1, before cycle `n`. -/
def accepted (n : ℕ) : List Byte :=
  (List.range n).flatMap fun k =>
    if (s₀.run boot env k).accepts (env k) then [(env k).la.wdata.extractLsb' 0 8] else []

/-- The bits that have left the line before cycle `n`. -/
def shiftedBits (n : ℕ) : List Bool :=
  (List.range n).flatMap fun k => (s₀.run boot env k).uart.shiftedBit

/-- What the transmitter has loaded before cycle `n`. -/
def loaded (n : ℕ) : List (Option Byte) :=
  (List.range n).flatMap fun k =>
    (s₀.run boot env k).uart.loads ((s₀.run boot env k).uartIn (env k))

/-- A byte between `uart_tx_data` and the transmitter. -/
def Soc.handedOver (s : Soc) : List Byte :=
  if s.bus.regs.uart.we then [s.bus.regs.uart.txData] else []

/-- In cycle `n` the bits on the line so far, those still in the transmitter and a byte being handed
    over are the frames of exactly the accepted bytes, in order. -/
def TransmitsAccepted (n : ℕ) : Prop :=
  deframe (shiftedBits boot s₀ env n ++ (s₀.run boot env n).uart.remaining)
    ++ (s₀.run boot env n).handedOver = accepted boot s₀ env n

theorem flatMap_range_succ {α : Type} (f : ℕ → List α) (n : ℕ) :
    (List.range (n + 1)).flatMap f = (List.range n).flatMap f ++ f n := by
  rw [List.range_succ, List.flatMap_append, List.flatMap_singleton]

theorem bits_eq_loaded (n : ℕ) :
    shiftedBits boot s₀ env n ++ (s₀.run boot env n).uart.remaining
      = (loaded boot s₀ env n).flatMap itemBits := by
  induction n with
  | zero => exact SimpleUart.remaining_of_zero _ rfl
  | succ n ih =>
      have hstep : (s₀.run boot env (n + 1)).uart
          = (s₀.run boot env n).uart.step ((s₀.run boot env n).uartIn (env n)) 868 true := by
        rw [Soc.run_succ]
        rfl
      rw [shiftedBits, loaded, flatMap_range_succ, flatMap_range_succ, List.flatMap_append, hstep,
        List.append_assoc, SimpleUart.remaining_step, ← List.append_assoc]
      exact congrArg (· ++ _) ih

theorem transmitsAccepted_iff (n : ℕ) :
    TransmitsAccepted boot s₀ env n ↔
      (loaded boot s₀ env n).filterMap id ++ (s₀.run boot env n).handedOver
        = accepted boot s₀ env n := by
  rw [TransmitsAccepted, bits_eq_loaded, deframe_items]

/-- The byte handed over in a cycle is loaded, unless the transmitter is busy. -/
theorem loads_bytes (s : Soc) (i : SocIn) :
    (s.uart.loads (s.uartIn i)).filterMap id
      = if s.uart.regDatWait (s.uartIn i) then [] else s.handedOver := by
  have hdata : (s.uartIn i).regDatDi.extractLsb' 0 8 = s.bus.regs.uart.txData := by
    show (0#24 ++ s.bus.regs.uart.txData).extractLsb' 0 8 = _
    rw [BitVec.extractLsb'_append_eq_right]
  have hwe : (s.uartIn i).regDatWe = s.bus.regs.uart.we := rfl
  unfold SimpleUart.loads SimpleUart.regDatWait SimpleUart.sending Soc.handedOver
  rw [hdata, hwe]
  have hfree : (s.uart.sendBitcnt == 0) = true ∨ (s.uart.sendBitcnt == 0) = false := by
    cases s.uart.sendBitcnt == 0 <;> simp
  rcases hfree with h | h <;> simp only [bne, h] <;>
    cases s.bus.regs.uart.we <;> cases s.uart.sendDummy <;> rfl

theorem handedOver_succ (n : ℕ) :
    accepted boot s₀ env (n + 1)
      = accepted boot s₀ env n ++ (s₀.run boot env (n + 1)).handedOver := by
  obtain ⟨hwe, hdata⟩ := uart_we_step boot (env n) (s₀.run boot env n)
  rw [accepted, flatMap_range_succ, Soc.run_succ]
  congr 1
  unfold Soc.handedOver
  rw [hwe]
  split
  · next h => rw [hdata h]
  · rfl

/-- From one cycle to the next the accepted bytes stay on their way exactly when the byte being
    handed over does not meet a busy transmitter. -/
theorem transmitsAccepted_succ {n : ℕ} (h : TransmitsAccepted boot s₀ env n) :
    TransmitsAccepted boot s₀ env (n + 1) ↔
      (s₀.run boot env n).uart.regDatWait ((s₀.run boot env n).uartIn (env n)) = false := by
  rw [transmitsAccepted_iff] at h ⊢
  rw [handedOver_succ, ← h, loaded, flatMap_range_succ, List.filterMap_append, loads_bytes,
    List.append_left_inj, ← loaded, List.append_right_inj]
  cases hwait : (s₀.run boot env n).uart.regDatWait ((s₀.run boot env n).uartIn (env n))
  · simp
  · have hwe : (s₀.run boot env n).bus.regs.uart.we = true := by
      simp only [SimpleUart.regDatWait, Bool.and_eq_true] at hwait
      exact hwait.1
    simp [Soc.handedOver, hwe]

theorem regDatWait_eq_false_iff (s : Soc) (i : SocIn) : s.uart.regDatWait (s.uartIn i) = false
    ↔ (s.bus.regs.uart.we = true → s.uart.sending = false) := by
  show (s.bus.regs.uart.we && s.uart.sending) = false ↔ _
  cases s.bus.regs.uart.we <;> simp

theorem transmitsAccepted_of_idle
    (h : ∀ n, (s₀.run boot env n).bus.regs.uart.we = true →
      (s₀.run boot env n).uart.sending = false) (n : ℕ) : TransmitsAccepted boot s₀ env n := by
  induction n with
  | zero => rfl
  | succ n ih =>
      exact (transmitsAccepted_succ boot s₀ env ih).2 ((regDatWait_eq_false_iff _ _).2 (h n))

/-- Every accepted byte is transmitted, once and in order, in exactly the runs in which no byte is
    handed to a transmitter that is still sending. -/
theorem transmits_accepted_iff (boot : Ram bootSize) (s₀ : Soc) (env : ℕ → SocIn) :
    (∀ n, TransmitsAccepted boot s₀ env n) ↔
      ∀ n, (s₀.run boot env n).bus.regs.uart.we = true →
        (s₀.run boot env n).uart.sending = false := by
  refine ⟨fun h n => ?_, transmitsAccepted_of_idle boot s₀ env⟩
  exact (regDatWait_eq_false_iff _ _).1 ((transmitsAccepted_succ boot s₀ env (h n)).1 (h (n + 1)))

/-! ## A byte written too early -/

theorem append_bytes (x : BitVec 32) : x.extractLsb' 24 8 ++ x.extractLsb' 16 8
    ++ x.extractLsb' 8 8 ++ x.extractLsb' 0 8 = x := by
  apply eq_of_byteLE 4 rfl
  intro k hk
  have hk : k = 0 ∨ k = 1 ∨ k = 2 ∨ k = 3 := by omega
  have happend (b₃ b₂ b₁ b₀ : Byte) (k : ℕ) : byteLE (b₃ ++ b₂ ++ b₁ ++ b₀) k =
      if k < 1 then byteLE b₀ k else if k - 1 < 1 then byteLE b₁ (k - 1)
      else if k - 1 - 1 < 1 then byteLE b₂ (k - 1 - 1) else byteLE b₃ (k - 1 - 1 - 1) := by
    rw [byteLE_append _ _ _ (k := 1) rfl, byteLE_append _ _ _ (k := 1) rfl,
      byteLE_append _ _ _ (k := 1) rfl]
  rw [happend]
  rcases hk with rfl | rfl | rfl | rfl <;> exact byteLE_self _

theorem cfgDividerNext_of_no_write (u : SimpleUart) (i : UartIn) (h : i.regDivWe = 0) :
    u.cfgDividerNext i = u.cfgDivider := by
  have hbyte (k : ℕ) : i.regDivWe.getLsbD k = false := by rw [h]; simp
  unfold SimpleUart.cfgDividerNext
  simp only [hbyte, Bool.false_eq_true, if_false]
  exact append_bytes u.cfgDivider

/-- A write of the whole divider. -/
theorem cfgDividerNext_of_word (u : SimpleUart) (i : UartIn) (h : i.regDivWe = 0xF) :
    u.cfgDividerNext i = i.regDivDi := by
  unfold SimpleUart.cfgDividerNext
  rw [h]
  exact append_bytes i.regDivDi

theorem divWe_of_no_write (hdiv : ∀ k, (env k).la.laWrite = true → (env k).la.addr ≠ 0x10000010)
    (n : ℕ) : (s₀.run boot env n).bus.regs.uart.divWe = 0 := by
  cases n with
  | zero => rfl
  | succ n =>
      rw [Soc.run_succ, uart_step]
      dsimp only
      by_cases hw : (env n).la.laWrite = true
      · rw [if_pos hw, if_neg (hdiv n hw)]
        split
        · split <;> rfl
        · rfl
      · rw [if_neg hw]
        rfl

/-- The divider is the default one until it is written. -/
theorem cfgDivider_of_no_write
    (hdiv : ∀ k, (env k).la.laWrite = true → (env k).la.addr ≠ 0x10000010) (n : ℕ) :
    (s₀.run boot env n).uart.cfgDivider = 868 := by
  induction n with
  | zero => rfl
  | succ n ih =>
      rw [Soc.run_succ]
      exact (cfgDividerNext_of_no_write _ _ (divWe_of_no_write boot s₀ env hdiv n)).trans ih

/-- The dummy frame that follows reset keeps the transmitter busy. -/
theorem sending_after_reset
    (hdiv : ∀ k, (env k).la.laWrite = true → (env k).la.addr ≠ 0x10000010) {n : ℕ}
    (hn : n ≤ 868) :
    (s₀.run boot env (n + 1)).uart.sendBitcnt = 15
      ∧ (s₀.run boot env (n + 1)).uart.sendDivcnt = BitVec.ofNat 32 n := by
  induction n with
  | zero => exact ⟨rfl, rfl⟩
  | succ n ih =>
      obtain ⟨hbitcnt, hdivcnt⟩ := ih (by omega)
      have hcfg := cfgDivider_of_no_write boot s₀ env hdiv (n + 1)
      have hwe : ((s₀.run boot env (n + 1)).uartIn (env (n + 1))).regDivWe = 0 :=
        divWe_of_no_write boot s₀ env hdiv (n + 1)
      rw [Soc.run_succ]
      generalize s₀.run boot env (n + 1) = s at *
      have hshift : s.uart.shifts = false := by
        have hlt : (868#32).ult (BitVec.ofNat 32 n) = false := by
          rw [BitVec.ult_eq_decide, BitVec.toNat_ofNat, BitVec.toNat_ofNat,
            Nat.mod_eq_of_lt (by omega : n < 2 ^ 32)]
          exact decide_eq_false (by omega)
        rw [SimpleUart.shifts, hcfg, hdivcnt, hbitcnt]
        exact (congrArg (· && _) hlt).trans (Bool.false_and _)
      obtain ⟨-, hb⟩ := s.uart.send_step (s.uartIn (env (n + 1))) 868
      refine ⟨?_, ?_⟩
      · show (s.uart.step _ 868 true).sendBitcnt = 15
        rw [hb, hshift, hbitcnt]
        simp
      · have hbusy : (s.uart.sendBitcnt == 0) = false := by rw [hbitcnt]; rfl
        show (s.uart.sendStep _).sendDivcnt = _
        unfold SimpleUart.sendStep
        simp only [hbusy, Bool.and_false, Bool.false_eq_true, if_false, hshift, hdivcnt]
        rw [BitVec.ofNat_add]
        rfl

/-- The timer is off until a byte is written. -/
theorem txBusy_of_no_write {n : ℕ}
    (hno : ∀ k < n, (env k).la.laWrite = false) :
    (s₀.run boot env n).bus.regs.uart.txBusy = false := by
  induction n with
  | zero => rfl
  | succ n ih =>
      have hbusy := ih (fun k hk => hno k (by omega))
      rw [Soc.run_succ, uart_step, if_neg (by simp [hno n (by omega)])]
      simp [UartRegs.count, hbusy]

/-- The byte `0x41` is written 100 cycles after reset. -/
def earlyWrite : ℕ → SocIn := fun n =>
  if n = 100 then
    { noAccess with
      la := { addr := 0x10000004, wdata := 0x41, wstrb := 0xF, laRead := false, laWrite := true } }
  else noAccess

theorem not_transmits_earlyWrite :
    ¬∀ n, TransmitsAccepted emptyBoot sampleSoc earlyWrite n := by
  intro h
  have hquiet : ∀ k, k ≠ 100 → (earlyWrite k).la.laWrite = false := by
    intro k hk
    rw [earlyWrite, if_neg hk]
    rfl
  have hdiv : ∀ k, (earlyWrite k).la.laWrite = true → (earlyWrite k).la.addr ≠ 0x10000010 := by
    intro k
    by_cases hk : k = 100
    · subst hk
      exact fun _ => by decide
    · intro hw
      rw [hquiet k hk] at hw
      exact absurd hw (by simp)
  obtain ⟨hbitcnt, -⟩ := sending_after_reset emptyBoot sampleSoc earlyWrite hdiv
    (show 100 ≤ 868 by omega)
  have hwe : (sampleSoc.run emptyBoot earlyWrite 101).bus.regs.uart.we = true := by
    have hbusy : (sampleSoc.run emptyBoot earlyWrite 100).bus.regs.uart.txBusy = false :=
      txBusy_of_no_write _ _ _ fun k hk => hquiet k (by omega)
    rw [Soc.run_succ, (uart_we_step _ _ _).1, Soc.accepts, UartRegs.txReady, hbusy]
    rfl
  have hwait := (transmitsAccepted_succ emptyBoot sampleSoc earlyWrite (h 101)).1 (h 102)
  generalize sampleSoc.run emptyBoot earlyWrite 101 = s at hbitcnt hwe hwait
  have hsending : s.uart.sending = true := by
    rw [SimpleUart.sending, hbitcnt]
    rfl
  have hwait : (s.bus.regs.uart.we && s.uart.sending) = false := hwait
  simp [hwe, hsending] at hwait

end

/-! ## Writes that the timer paces -/

namespace SimpleUart

variable {i : UartIn} {u : SimpleUart} {d : ℕ}

/-- What the transmitter does in a cycle: it loads a dummy frame or a byte, shifts, or counts. -/
inductive SendCase (i : UartIn) (u u' : SimpleUart) : Prop
  | dummy (hidle : u.sendBitcnt = 0) (hdummy : u.sendDummy = true) (hbits : u'.sendBitcnt = 15)
      (hcount : u'.sendDivcnt = 0) (hdone : u'.sendDummy = false)
  | byte (hidle : u.sendBitcnt = 0) (hdummy : u.sendDummy = false) (hwe : i.regDatWe = true)
      (hbits : u'.sendBitcnt = 10) (hcount : u'.sendDivcnt = 0)
      (hnext : u'.sendDummy = (i.regDivWe != 0))
  | shift (hbusy : u.sendBitcnt ≠ 0) (hlate : u.cfgDivider.toNat < u.sendDivcnt.toNat)
      (hbits : u'.sendBitcnt = u.sendBitcnt - 1) (hcount : u'.sendDivcnt = 0)
      (hnext : u'.sendDummy = (i.regDivWe != 0 || u.sendDummy))
  | count (hearly : u.sendBitcnt ≠ 0 → u.sendDivcnt.toNat ≤ u.cfgDivider.toNat)
      (hquiet : u.sendBitcnt = 0 → u.sendDummy = false ∧ i.regDatWe = false)
      (hbits : u'.sendBitcnt = u.sendBitcnt) (hcount : u'.sendDivcnt = u.sendDivcnt + 1)
      (hnext : u'.sendDummy = (i.regDivWe != 0 || u.sendDummy))

theorem sendCase (i : UartIn) (u : SimpleUart) (dd : BitVec 32) :
    SendCase i u (u.step i dd true) := by
  have hdummy : (if i.regDivWe != 0 then { u with sendDummy := true } else u).sendDummy
      = (i.regDivWe != 0 || u.sendDummy) := by
    cases i.regDivWe != 0 <;> rfl
  have hcount : (if i.regDivWe != 0 then { u with sendDummy := true } else u).sendBitcnt
      = u.sendBitcnt := by
    cases i.regDivWe != 0 <;> rfl
  have hbits : (u.step i dd true).sendBitcnt = (u.sendStep i).sendBitcnt := rfl
  have hdivcnt : (u.step i dd true).sendDivcnt = (u.sendStep i).sendDivcnt := rfl
  have hnext : (u.step i dd true).sendDummy = (u.sendStep i).sendDummy := rfl
  unfold sendStep at hbits hdivcnt hnext
  dsimp only at hbits hdivcnt hnext
  by_cases hload : (u.sendDummy && u.sendBitcnt == 0) = true
  · rw [if_pos hload] at hbits hdivcnt hnext
    obtain ⟨hd, hidle⟩ := Bool.and_eq_true_iff.1 hload
    exact .dummy (beq_iff_eq.1 hidle) hd hbits hdivcnt hnext
  rw [if_neg hload] at hbits hdivcnt hnext
  have hquiet (hidle : u.sendBitcnt = 0) : u.sendDummy = false := by
    simpa [hidle] using hload
  by_cases hbyte : (i.regDatWe && u.sendBitcnt == 0) = true
  · rw [if_pos hbyte] at hbits hdivcnt hnext
    obtain ⟨hwe, hidle⟩ := Bool.and_eq_true_iff.1 hbyte
    have hidle := beq_iff_eq.1 hidle
    refine .byte hidle (hquiet hidle) hwe hbits hdivcnt (hnext.trans ?_)
    rw [hdummy, hquiet hidle, Bool.or_false]
  rw [if_neg hbyte] at hbits hdivcnt hnext
  by_cases hshift : u.shifts = true
  · rw [if_pos hshift] at hbits hdivcnt hnext
    obtain ⟨hlate, hbusy⟩ := Bool.and_eq_true_iff.1 hshift
    exact .shift (bne_iff_ne.1 hbusy) (BitVec.ult_iff_toNat_lt.1 hlate) hbits hdivcnt
      (hnext.trans hdummy)
  · rw [if_neg hshift] at hbits hdivcnt hnext
    refine .count (fun hbusy => ?_) (fun hidle => ⟨hquiet hidle, ?_⟩) (hbits.trans hcount) hdivcnt
      (hnext.trans hdummy)
    · by_contra hlate
      refine hshift (Bool.and_eq_true_iff.2 ⟨?_, bne_iff_ne.2 hbusy⟩)
      exact BitVec.ult_iff_toNat_lt.2 (by omega)
    · simpa [hidle] using hbyte

/-- The cycles that are left until the transmitter is idle, with at most `d + 2` cycles a bit. -/
def left (d : ℕ) (u : SimpleUart) : ℕ :=
  u.sendBitcnt.toNat * (d + 2) - u.sendDivcnt.toNat + if u.sendDummy then 15 * (d + 2) + 1 else 0

/-- No bit takes longer than `d + 2` cycles. -/
structure Within (d : ℕ) (u : SimpleUart) : Prop where
  divider : u.cfgDivider.toNat ≤ d
  count : u.sendBitcnt ≠ 0 → u.sendDivcnt.toNat ≤ d + 1

theorem left_pos (h : u.Within d) (hbusy : u.sendBitcnt ≠ 0) : 0 < u.left d := by
  have hpos : 1 ≤ u.sendBitcnt.toNat :=
    Nat.one_le_iff_ne_zero.2 fun hzero => hbusy (BitVec.eq_of_toNat_eq hzero)
  have hbits : 1 * (d + 2) ≤ u.sendBitcnt.toNat * (d + 2) := Nat.mul_le_mul_right _ hpos
  have hcount := h.count hbusy
  unfold left
  omega

theorem sending_of_left (h : u.Within d) (hleft : u.left d = 0) : u.sending = false := by
  have hidle : u.sendBitcnt = 0 := by
    by_contra hbusy
    have := left_pos h hbusy
    omega
  have hquiet : u.sendDummy = false := by
    by_contra hdummy
    rw [left, if_pos (by simpa using hdummy)] at hleft
    omega
  rw [sending, hidle, hquiet]
  rfl

theorem left_le (d : ℕ) (u : SimpleUart) : u.left d ≤ 30 * (d + 2) + 1 := by
  have hbits : u.sendBitcnt.toNat * (d + 2) ≤ 15 * (d + 2) :=
    Nat.mul_le_mul_right _ (by have := u.sendBitcnt.isLt; omega)
  unfold left
  split_ifs <;> omega

theorem Within.step (h : u.Within d) (dd : BitVec 32)
    (hdiv : (u.cfgDividerNext i).toNat ≤ d) : (u.step i dd true).Within d := by
  refine ⟨hdiv, fun hbusy => ?_⟩
  cases sendCase i u dd with
  | dummy _ _ _ hcount _ | byte _ _ _ _ hcount _ | shift _ _ _ hcount _ =>
      rw [hcount]
      exact Nat.zero_le _
  | count hearly _ hbits hcount _ =>
      rw [hbits] at hbusy
      have hearly := hearly hbusy
      have hdivider := h.divider
      rw [hcount, BitVec.toNat_add]
      exact (Nat.mod_le _ _).trans (show u.sendDivcnt.toNat + 1 ≤ d + 1 by omega)

/-- Without a write to the port, a cycle brings the transmitter nearer to idle. -/
theorem left_step (h : u.Within d) (hd : d + 2 ≤ 2 ^ 32) (dd : BitVec 32) (hdiv : i.regDivWe = 0)
    (hwe : i.regDatWe = false) : (u.step i dd true).left d ≤ u.left d - 1 := by
  have hsame : (i.regDivWe != 0 || u.sendDummy) = u.sendDummy := by
    rw [hdiv]
    rfl
  cases sendCase i u dd with
  | dummy hidle hdummy hbits hcount hdone =>
      rw [left, left, hbits, hcount, hdone, hidle, hdummy, if_pos rfl, if_neg Bool.false_ne_true]
      show 15 * (d + 2) - 0 + 0 ≤ 0 * (d + 2) - _ + _ - 1
      omega
  | byte _ _ hbyte => rw [hwe] at hbyte; cases hbyte
  | shift hbusy hlate hbits hcount hnext =>
      have hlast := h.count hbusy
      have hsucc : u.sendBitcnt.toNat = (u.sendBitcnt - 1).toNat + 1 := by bv_omega
      have hmul : u.sendBitcnt.toNat * (d + 2) = (u.sendBitcnt - 1).toNat * (d + 2) + (d + 2) := by
        rw [hsucc, Nat.succ_mul]
      rw [left, left, hbits, hcount, hnext, hsame, hmul]
      show _ - 0 + _ ≤ _
      omega
  | count hearly hquiet hbits hcount hnext =>
      rw [left, left, hbits, hcount, hnext, hsame]
      by_cases hidle : u.sendBitcnt = 0
      · rw [hidle, (hquiet hidle).1, if_neg Bool.false_ne_true]
        show 0 * (d + 2) - _ + 0 ≤ _
        omega
      · have hlast := hearly hidle
        have hdivider := h.divider
        have hpos : 1 ≤ u.sendBitcnt.toNat :=
          Nat.one_le_iff_ne_zero.2 fun hzero => hidle (BitVec.eq_of_toNat_eq hzero)
        have hmul : 1 * (d + 2) ≤ u.sendBitcnt.toNat * (d + 2) := Nat.mul_le_mul_right _ hpos
        have hnext : (u.sendDivcnt + 1).toNat = u.sendDivcnt.toNat + 1 := by
          rw [BitVec.toNat_add]
          exact Nat.mod_eq_of_lt (show u.sendDivcnt.toNat + 1 < 2 ^ 32 by omega)
        omega

/-- A byte takes ten bits. -/
theorem left_byte (h : u.Within d) (hleft : u.left d = 0) (dd : BitVec 32) (hdiv : i.regDivWe = 0)
    (hwe : i.regDatWe = true) : (u.step i dd true).left d = 10 * (d + 2) := by
  have hquiet : (u.sendBitcnt != 0 || u.sendDummy) = false := sending_of_left h hleft
  obtain ⟨hbits, hdummy⟩ := Bool.or_eq_false_iff.1 hquiet
  have hidle : u.sendBitcnt = 0 := by simpa using hbits
  cases sendCase i u dd with
  | dummy _ hd _ _ _ => rw [hdummy] at hd; cases hd
  | byte _ _ _ hbits hcount hnext =>
      rw [left, hbits, hcount, hnext, hdiv]
      show 10 * (d + 2) - 0 + 0 = _
      omega
  | shift hbusy _ _ _ _ => exact absurd hidle hbusy
  | count _ hfree _ _ _ =>
      rw [(hfree hidle).2] at hwe
      cases hwe

end SimpleUart

section

variable {boot : Ram bootSize} {s₀ : Soc} {env : ℕ → SocIn} {d n : ℕ}

/-- The dividers are at most `d`, and no byte is written before the dummy frame after reset or a
    change of the divider can be over. -/
structure Paced (env : ℕ → SocIn) (d : ℕ) : Prop where
  divider : ∀ n, (env n).la.writes 0x10000010 →
    (env n).la.wstrb = 0xF ∧ (env n).la.wdata.toNat ≤ d
  reset : ∀ n, (env n).la.writes 0x10000004 → 15 * (d + 2) + 1 ≤ n
  change : ∀ m n, m < n → (env m).la.writes 0x10000010 → (env n).la.writes 0x10000004 →
    m + 30 * (d + 2) + 3 ≤ n

/-- The divider port holds the write of the cycle before, if there is one. -/
def DividerPort (env : ℕ → SocIn) (r : UartRegs) (n : ℕ) : Prop :=
  r.divWe = 0 ∨ ∃ m, n = m + 1 ∧ (env m).la.writes 0x10000010 ∧ r.divWe = (env m).la.wstrb
    ∧ r.divDi = (env m).la.wdata

theorem divider_port (boot : Ram bootSize) (s₀ : Soc) (env : ℕ → SocIn) (n : ℕ) :
    DividerPort env (s₀.run boot env n).bus.regs.uart n := by
  cases n with
  | zero => exact .inl rfl
  | succ m =>
      rw [Soc.run_succ, uart_step]
      dsimp only
      by_cases hw : (env m).la.laWrite = true
      · rw [if_pos hw]
        by_cases htx : (env m).la.addr = 0x10000004
        · rw [if_pos htx]
          split <;> exact .inl rfl
        · rw [if_neg htx]
          by_cases hdiv : (env m).la.addr = 0x10000010
          · rw [if_pos hdiv]
            exact .inr ⟨m, rfl, ⟨hw, hdiv⟩, rfl, rfl⟩
          · rw [if_neg hdiv]
            exact .inl rfl
      · rw [if_neg hw]
        exact .inl rfl

/-- The timer after a cycle. -/
theorem timer_step (boot : Ram bootSize) (i : SocIn) (s : Soc) :
    ((s.step boot i).bus.regs.uart.txBusy, (s.step boot i).bus.regs.uart.txCountdown) =
      if s.accepts i then (true, 9000)
      else (s.bus.regs.uart.count.txBusy, s.bus.regs.uart.count.txCountdown) := by
  rw [uart_step]
  unfold Soc.accepts UartRegs.txReady
  cases hw : i.la.laWrite
  · rfl
  · by_cases htx : i.la.addr = 0x10000004
    · rw [if_pos rfl, if_pos htx, htx]
      cases hb : s.bus.regs.uart.txBusy <;> rfl
    · have hbeq : (i.la.addr == 0x10000004) = false := by simpa using htx
      rw [if_pos rfl, if_neg htx, hbeq]
      split <;> rfl

/-- When the transmitter is idle at the latest: by the dummy frame after reset, by a change of the
    divider, or by the timer. -/
inductive Due (d : ℕ) (env : ℕ → SocIn) (s : Soc) (n : ℕ) : Prop
  | reset (h : s.uart.left d + n ≤ 15 * (d + 2) + 1)
  | change (m : ℕ) (hm : m < n) (hwrite : (env m).la.writes 0x10000010)
      (h : s.uart.left d + n ≤ m + 30 * (d + 2) + 3)
  | timer (h : s.uart.left d ≤ s.bus.regs.uart.txCountdown.toNat + 1)

/-- The transmitter and the timer in cycle `n`. -/
structure OnTime (d : ℕ) (env : ℕ → SocIn) (s : Soc) (n : ℕ) : Prop where
  within : s.uart.Within d
  due : Due d env s n
  stopped : s.bus.regs.uart.txBusy = false → s.bus.regs.uart.txCountdown = 0
  started : s.bus.regs.uart.we = true →
    s.bus.regs.uart.txBusy = true ∧ s.bus.regs.uart.txCountdown = 9000
  idle : s.bus.regs.uart.we = true → s.uart.left d = 0

theorem OnTime.reset (hreset : 868 ≤ d) (i : SocIn) :
    OnTime d env (s₀.reset boot i) 0 where
  within := ⟨hreset, fun h => absurd rfl h⟩
  due := .reset (by
    show 0 * (d + 2) - 0 + (15 * (d + 2) + 1) + 0 ≤ _
    omega)
  stopped := fun _ => rfl
  started := fun h => by cases h
  idle := fun h => by cases h

theorem countdown_step {s : Soc} (h : OnTime d env s n) (boot : Ram bootSize) (i : SocIn) :
    ((s.step boot i).bus.regs.uart.txBusy = false →
        (s.step boot i).bus.regs.uart.txCountdown = 0)
      ∧ s.bus.regs.uart.txCountdown.toNat ≤ (s.step boot i).bus.regs.uart.txCountdown.toNat + 1
      ∧ ((s.step boot i).bus.regs.uart.we = true →
        (s.step boot i).bus.regs.uart.txBusy = true
          ∧ (s.step boot i).bus.regs.uart.txCountdown = 9000) := by
  obtain ⟨hbusy, hcount⟩ := Prod.ext_iff.1 (timer_step boot i s)
  dsimp only at hbusy hcount
  rw [hbusy, hcount, (uart_we_step boot i s).1]
  cases ha : s.accepts i with
  | true =>
      have hfree : s.bus.regs.uart.txBusy = false := by
        simp only [Soc.accepts, UartRegs.txReady, Bool.and_eq_true, Bool.not_eq_true'] at ha
        exact ha.2
      rw [h.stopped hfree]
      exact ⟨fun hc => (by cases hc), Nat.zero_le _, fun _ => ⟨rfl, rfl⟩⟩
  | false =>
      refine ⟨fun hfree => ?_, ?_, fun hc => by cases hc⟩
      · have hstopped := h.stopped
        simp only [Bool.false_eq_true, if_false, UartRegs.count] at hfree ⊢
        cases hb : s.bus.regs.uart.txBusy <;> simp_all
      · simp only [Bool.false_eq_true, if_false, UartRegs.count]
        split_ifs with hrun
        · have hne : s.bus.regs.uart.txCountdown ≠ 0 := by
            simpa using (Bool.and_eq_true_iff.1 hrun).2
          bv_omega
        · omega

/-- The divider stays within `d`. -/
theorem OnTime.step_within {s : Soc} (h : OnTime d env s n) (hp : Paced env d) (i : SocIn)
    (hport : DividerPort env s.bus.regs.uart n) :
    (s.step boot i).uart.Within d := by
  refine h.within.step 868 ?_
  rcases hport with hnone | ⟨m, -, hwrite, hwe, hdi⟩
  · rw [cfgDividerNext_of_no_write s.uart (s.uartIn i) hnone]
    exact h.within.divider
  · obtain ⟨hstrb, hdata⟩ := hp.divider m hwrite
    rw [cfgDividerNext_of_word s.uart (s.uartIn i) (hwe.trans hstrb)]
    show s.bus.regs.uart.divDi.toNat ≤ d
    rw [hdi]
    exact hdata

/-- The byte of an accepted write finds the transmitter idle. -/
theorem OnTime.step_idle {s : Soc} (h : OnTime d env s n) (hdd : d + 2 ≤ 2 ^ 32)
    (hp : Paced env d) (ha : s.accepts (env n) = true)
    (hport : DividerPort env s.bus.regs.uart n) :
    (s.step boot (env n)).uart.left d = 0 := by
  obtain ⟨⟨hw, haddr⟩, hready⟩ : (env n).la.writes 0x10000004 ∧ s.bus.regs.uart.txReady = true := by
    simpa [Soc.accepts, LookAhead.writes] using ha
  have hfree : s.bus.regs.uart.txBusy = false := by simpa [UartRegs.txReady] using hready
  have hquiet : s.bus.regs.uart.divWe = 0 := by
    rcases hport with hnone | ⟨m, rfl, hwrite, -⟩
    · exact hnone
    · have := hp.change m (m + 1) (Nat.lt_succ_self m) hwrite ⟨hw, haddr⟩
      omega
  have hwe : s.bus.regs.uart.we = false := by
    by_contra hwe
    rw [(h.started (by simpa using hwe)).1] at hfree
    cases hfree
  have hleft : s.uart.left d ≤ 1 := by
    cases h.due with
    | reset hdue =>
        have := hp.reset n ⟨hw, haddr⟩
        omega
    | change m hm hwrite hdue =>
        have := hp.change m n hm hwrite ⟨hw, haddr⟩
        omega
    | timer hdue =>
        rw [h.stopped hfree] at hdue
        exact hdue
  have hstep : (s.step boot (env n)).uart.left d ≤ s.uart.left d - 1 :=
    SimpleUart.left_step h.within hdd 868 hquiet hwe
  omega

theorem OnTime.step_due {s : Soc} (h : OnTime d env s n) (hdd : d + 2 ≤ 2 ^ 32)
    (htimer : 10 * (d + 2) ≤ 9000) (i : SocIn)
    (hport : DividerPort env s.bus.regs.uart n) :
    Due d env (s.step boot i) (n + 1) := by
  rcases hport with hquiet | ⟨m, rfl, hwrite, -⟩
  · obtain ⟨-, hcount, -⟩ := countdown_step h boot i
    cases hwe : s.bus.regs.uart.we with
    | true =>
        have hbyte : (s.step boot i).uart.left d = 10 * (d + 2) :=
          SimpleUart.left_byte h.within (h.idle hwe) 868 hquiet hwe
        have hfull : s.bus.regs.uart.txCountdown.toNat = 9000 := by
          rw [(h.started hwe).2]
          rfl
        exact .timer (by omega)
    | false =>
        have hstep : (s.step boot i).uart.left d ≤ s.uart.left d - 1 :=
          SimpleUart.left_step h.within hdd 868 hquiet hwe
        by_cases hzero : s.uart.left d = 0
        · exact .timer (by omega)
        · cases h.due with
          | reset hdue => exact .reset (by omega)
          | change m hm hwrite hdue => exact .change m (by omega) hwrite (by omega)
          | timer hdue => exact .timer (by omega)
  · have hle := (s.step boot i).uart.left_le d
    exact .change m (by omega) hwrite (by omega)

theorem timed (hreset : 868 ≤ d) (htimer : 10 * (d + 2) ≤ 9000) (hp : Paced env d) (n : ℕ) :
    OnTime d env (s₀.run boot env n) n := by
  induction n with
  | zero => exact .reset hreset _
  | succ n ih =>
      have hdd : d + 2 ≤ 2 ^ 32 := by omega
      have hport := divider_port boot s₀ env n
      obtain ⟨hstopped, -, hstarted⟩ := countdown_step ih boot (env n)
      rw [Soc.run_succ]
      refine ⟨ih.step_within hp _ hport, ih.step_due hdd htimer _ hport, hstopped, hstarted,
        fun hwe => ih.step_idle hdd hp ?_ hport⟩
      rw [← (uart_we_step boot (env n) _).1]
      exact hwe

/-- **At most ten bits in a countdown**: with dividers for which a frame fits into the timer, and
    bytes that leave room for the dummy frames, every accepted byte is transmitted. -/
theorem transmits_of_paced (hreset : 868 ≤ d) (htimer : 10 * (d + 2) ≤ 9000) (hp : Paced env d)
    (n : ℕ) : TransmitsAccepted boot s₀ env n := by
  refine transmitsAccepted_of_idle boot s₀ env (fun n hwe => ?_) n
  have h : OnTime d env (s₀.run boot env n) n := timed hreset htimer hp n
  exact SimpleUart.sending_of_left h.within (h.idle hwe)

end

end PicoSoc.System
