import PicoSoc.System.HostPort

set_option autoImplicit false

/-! # What the firmware prints (`firmware.c`)

Every character waits for the transmit timer, so printing ends; it leaves the accelerators alone. -/

open PicoSoc.System

namespace PicoSoc.Firmware

open Bytes Clocked Mmio

/-! ## UART -/

/-- The LED register. -/
def outbyte : Word := 0x10000000

/-- The transmit register. -/
def uartTx : Word := 0x10000004

/-- The STATUS register of the UART. -/
def uartSt : Word := 0x1000000C

/-- `while (!(UART_ST & 1)) ;` -/
def waitTxReady : Prog Unit := waitUntil uartSt fun w => w &&& 1 != 0

/-- `pc(c)`: a character, and a carriage return before a line feed. -/
def pc (c : Char) : Prog Unit := do
  if c = '\n' then
    waitTxReady
    store uartTx (BitVec.ofNat 32 '\r'.toNat)
  waitTxReady
  store uartTx (BitVec.ofNat 32 c.toNat)

/-- `ps(s)` -/
def ps (s : String) : Prog Unit := s.toList.forM pc

/-- `"0123456789abcdef"[v & 0xF]` -/
def hexDigit (v : Word) : Char := "0123456789abcdef".toList.getD (v &&& 0xF).toNat '0'

/-- `for (int i = 28; i >= 0; i -= 4)` -/
def ph (v : Word) : Prog Unit :=
  [28, 24, 20, 16, 12, 8, 4, 0].forM fun i => pc (hexDigit (v >>> i))

/-! ## Arrays of words -/

/-- `uint32_t w[4]` -/
structure Words4 where
  w0 : Word
  w1 : Word
  w2 : Word
  w3 : Word
  deriving DecidableEq

/-- `uint32_t w[3]` -/
structure Words3 where
  w0 : Word
  w1 : Word
  w2 : Word
  deriving DecidableEq

/-- `uint32_t w[2]` -/
structure Words2 where
  w0 : Word
  w1 : Word
  deriving DecidableEq

/-- The four words as one value, the first word lowest. -/
def Words4.pack (w : Words4) : BitVec 128 := w.w3 ++ w.w2 ++ w.w1 ++ w.w0

/-- The three words as one value, the first word lowest. -/
def Words3.pack (w : Words3) : BitVec 96 := w.w2 ++ w.w1 ++ w.w0

/-- The two words as one value, the first word lowest. -/
def Words2.pack (w : Words2) : BitVec 64 := w.w1 ++ w.w0

/-- The four words of a value. -/
def Words4.unpack (x : BitVec 128) : Words4 :=
  ⟨x.extractLsb' 0 32, x.extractLsb' 32 32, x.extractLsb' 64 32, x.extractLsb' 96 32⟩

/-- The two words of a value. -/
def Words2.unpack (x : BitVec 64) : Words2 := ⟨x.extractLsb' 0 32, x.extractLsb' 32 32⟩

/-- `p128(w3, w2, w1, w0)` -/
def p128 (w : Words4) : Prog Unit := do
  ph w.w3
  ph w.w2
  ph w.w1
  ph w.w0

/-- `p96(w2, w1, w0)` -/
def p96 (w : Words3) : Prog Unit := do
  ph w.w2
  ph w.w1
  ph w.w0

/-- `p64(w1, w0)` -/
def p64 (w : Words2) : Prog Unit := do
  ph w.w1
  ph w.w0

/-- `*a0 = w[0]; *a1 = w[1]; …` -/
def store4 (a0 a1 a2 a3 : Word) (w : Words4) : Prog Unit := do
  store a0 w.w0
  store a1 w.w1
  store a2 w.w2
  store a3 w.w3

/-- Three registers, written in order. -/
def store3 (a0 a1 a2 : Word) (w : Words3) : Prog Unit := do
  store a0 w.w0
  store a1 w.w1
  store a2 w.w2

/-- Two registers, written in order. -/
def store2 (a0 a1 : Word) (w : Words2) : Prog Unit := do
  store a0 w.w0
  store a1 w.w1

/-- `w[0] = *a0; w[1] = *a1; …` -/
def load4 (a0 a1 a2 a3 : Word) : Prog Words4 := do
  let w0 ← load a0
  let w1 ← load a1
  let w2 ← load a2
  let w3 ← load a3
  pure ⟨w0, w1, w2, w3⟩

/-- Two registers, read in order. -/
def load2 (a0 a1 : Word) : Prog Words2 := do
  let w0 ← load a0
  let w1 ← load a1
  pure ⟨w0, w1⟩

/-- `ln()`: a rule. -/
def ln : Prog Unit := ps "# ----------------------------------------\n"

/-! ## Words in the registers -/

theorem getLsbD_putWord {w : ℕ} (j : ℕ) (d : Word) (reg : BitVec w) {n : ℕ} (hn : n < w) :
    (putWord j d reg).getLsbD n =
      if 32 * j ≤ n ∧ n < 32 * j + 32 then d.getLsbD (n - 32 * j) else reg.getLsbD n := by
  simp only [putWord, BitVec.getLsbD_or, BitVec.getLsbD_and, BitVec.getLsbD_not,
    BitVec.getLsbD_shiftLeft, BitVec.getLsbD_setWidth, hn, decide_true, Bool.true_and]
  by_cases hlo : n < 32 * j
  · simp [hlo, Nat.not_le.2 hlo]
  · rw [decide_eq_false hlo]
    have hones : (0xFFFFFFFF#32).getLsbD (n - 32 * j) = decide (n - 32 * j < 32) := by
      have hall : (0xFFFFFFFF#32) = BitVec.allOnes 32 := by decide
      rw [hall, BitVec.getLsbD_allOnes]
    rw [hones]
    by_cases hhi : n < 32 * j + 32
    · simp [hhi, show n - 32 * j < 32 by omega, show n - 32 * j < w by omega, Nat.not_lt.1 hlo]
    · simp [hhi, show ¬n - 32 * j < 32 by omega, show 32 ≤ n - 32 * j by omega]

theorem putWord_pack4 (w : Words4) (x : BitVec 128) :
    putWord 3 w.w3 (putWord 2 w.w2 (putWord 1 w.w1 (putWord 0 w.w0 x))) = w.pack := by
  refine BitVec.eq_of_getLsbD_eq fun n hn => ?_
  simp only [getLsbD_putWord _ _ _ hn, Words4.pack, BitVec.getLsbD_append]
  grind

theorem putWord_pack3 (w : Words3) (x : BitVec 96) :
    putWord 2 w.w2 (putWord 1 w.w1 (putWord 0 w.w0 x)) = w.pack := by
  refine BitVec.eq_of_getLsbD_eq fun n hn => ?_
  simp only [getLsbD_putWord _ _ _ hn, Words3.pack, BitVec.getLsbD_append]
  grind

theorem putWord_pack2 (w : Words2) (x : BitVec 64) :
    putWord 1 w.w1 (putWord 0 w.w0 x) = w.pack := by
  refine BitVec.eq_of_getLsbD_eq fun n hn => ?_
  simp only [getLsbD_putWord _ _ _ hn, Words2.pack, BitVec.getLsbD_append]
  grind

theorem Words4.eq_unpack {x : BitVec 128} {w : Words4} : unpack x = w ↔ x = w.pack := by
  constructor
  · rintro rfl
    refine BitVec.eq_of_getLsbD_eq fun n hn => ?_
    simp only [pack, unpack, BitVec.getLsbD_append, BitVec.getLsbD_extractLsb']
    grind
  · rintro rfl
    obtain ⟨w0, w1, w2, w3⟩ := w
    simp only [pack, unpack, Words4.mk.injEq]
    refine ⟨?_, ?_, ?_, ?_⟩ <;> refine BitVec.eq_of_getLsbD_eq fun n hn => ?_ <;>
      simp only [BitVec.getLsbD_append, BitVec.getLsbD_extractLsb'] <;> grind

theorem Words2.eq_unpack {x : BitVec 64} {w : Words2} : unpack x = w ↔ x = w.pack := by
  constructor
  · rintro rfl
    refine BitVec.eq_of_getLsbD_eq fun n hn => ?_
    simp only [pack, unpack, BitVec.getLsbD_append, BitVec.getLsbD_extractLsb']
    grind
  · rintro rfl
    obtain ⟨w0, w1⟩ := w
    simp only [pack, unpack, Words2.mk.injEq]
    refine ⟨?_, ?_⟩ <;> refine BitVec.eq_of_getLsbD_eq fun n hn => ?_ <;>
      simp only [BitVec.getLsbD_append, BitVec.getLsbD_extractLsb'] <;> grind

theorem Words4.pack_unpack (x : BitVec 128) : (unpack x).pack = x := (eq_unpack.1 rfl).symm

theorem Words4.pack_inj {v w : Words4} : v.pack = w.pack ↔ v = w := by
  rw [← eq_unpack, eq_unpack.2 rfl]

theorem Words2.pack_inj {v w : Words2} : v.pack = w.pack ↔ v = w := by
  rw [← eq_unpack, eq_unpack.2 rfl]

/-- The bytes of a right-aligned block above the first `n` are zero. -/
def Padded (n : ℕ) (w : Words4) : Prop := ∀ i, n ≤ i → byteLE w.pack i = 0

theorem padded_iff {n : ℕ} {w : Words4} :
    (∀ i < 16, n ≤ i → byteLE w.pack i = 0) ↔ Padded n w := by
  refine ⟨fun h i hi => ?_, fun h i _ hi => h i hi⟩
  rcases Nat.lt_or_ge i 16 with hlt | hge
  · exact h i hlt hi
  · exact byteLE_of_ge _ (by omega)

instance instDecidablePadded (n : ℕ) (w : Words4) : Decidable (Padded n w) :=
  decidable_of_iff _ padded_iff

/-- A block is its bytes and zeros above them. -/
theorem eq_pack_iff {n : ℕ} {x : BitVec 128} (hx : ∀ i, n ≤ i → byteLE x i = 0) {w : Words4} :
    x = w.pack ↔ rightBytes n w.pack = rightBytes n x ∧ Padded n w := by
  constructor
  · rintro rfl
    exact ⟨rfl, hx⟩
  · rintro ⟨hbytes, hpad⟩
    refine eq_of_byteLE 16 rfl fun i hi => ?_
    rcases Nat.lt_or_ge i n with hlt | hge
    · have h := congrArg (fun l => l.getD (n - 1 - i) 0) hbytes
      simp only [getD_rightBytes, show n - 1 - i < n by omega, if_true, byteBE,
        show n - 1 - (n - 1 - i) = i by omega] at h
      exact h.symm
    · rw [hx i hge, hpad i hge]

/-- The fields of CTRL. -/
theorem ctrl_fields (mode : BitVec 3) {adlen mlen : Word} (had : adlen.toNat < 32)
    (hmlen : mlen.toNat < 32) :
    (mode.setWidth 32 <<< 16 ||| adlen <<< 8 ||| mlen).extractLsb' 16 3 = mode
      ∧ (mode.setWidth 32 <<< 16 ||| adlen <<< 8 ||| mlen).extractLsb' 8 5 = adlen.setWidth 5
      ∧ (mode.setWidth 32 <<< 16 ||| adlen <<< 8 ||| mlen).extractLsb' 0 5 = mlen.setWidth 5 := by
  have hwide {x : Word} (hx : x.toNat < 32) : x = (x.setWidth 5).setWidth 32 := by
    apply BitVec.eq_of_toNat_eq
    simp only [BitVec.toNat_setWidth]
    omega
  rw [hwide had, hwide hmlen]
  generalize adlen.setWidth 5 = x
  generalize mlen.setWidth 5 = y
  refine ⟨?_, ?_, ?_⟩ <;> refine BitVec.eq_of_getLsbD_eq fun n hn => ?_ <;> simp <;> grind

/-- `STATUS & 0x02` -/
theorem done_status (d v : Bool) :
    ((0#30 ++ BitVec.ofBool d ++ BitVec.ofBool v) &&& 0x02 != 0) = d := by
  cases d <;> cases v <;> decide

/-- `valid = (STATUS & 0x01) ? 1 : 0` -/
theorem valid_status (d v : Bool) :
    ((0#30 ++ BitVec.ofBool d ++ BitVec.ofBool v) &&& 0x01 != 0) = v := by
  cases d <;> cases v <;> decide

/-! ## The transmit timer -/

/-- The cycles until the transmitter takes a character. -/
def txTime (r : UartRegs) : ℕ := if r.txBusy then r.txCountdown.toNat + 1 else 0

theorem txTime_count (r : UartRegs) : txTime r.count = txTime r - 1 := by
  unfold txTime UartRegs.count
  cases hbusy : r.txBusy with
  | false => simp
  | true =>
      by_cases hzero : r.txCountdown = 0
      · simp [hzero]
      · have hpos : 0 < r.txCountdown.toNat := by
          rw [Nat.pos_iff_ne_zero]
          exact fun hc => hzero (BitVec.eq_of_toNat_eq hc)
        have hone : (1 : BitVec 16).toNat = 1 := rfl
        have hdown : (r.txCountdown - 1).toNat + 1 = r.txCountdown.toNat := by
          have hlt := r.txCountdown.isLt
          rw [BitVec.toNat_sub, hone]
          omega
        have heq : (r.txCountdown == 0) = false := beq_false_of_ne hzero
        rw [bne, heq]
        exact hdown

/-- The registers that printing writes. -/
def Console (addr : Word) : Prop := addr = uartTx ∨ addr = outbyte

variable {boot : Ram bootSize} {F : Soc → Prop}

/-- The timer runs down in a cycle without a write to the UART. -/
theorem txTime_step {i : HostIn} {s : Soc} {acc : Option Mmio.Access}
    (hacc : acc = none ∨ ∃ addr, acc = some (.read addr)) :
    txTime ((socTarget boot).step i acc s).bus.regs.uart = txTime s.bus.regs.uart - 1 := by
  have hstep := uart_step boot (socIn i acc) s
  have huart : ((socTarget boot).step i acc s).bus.regs.uart =
      { s.bus.regs.uart.count with rxRd := (socIn i acc).readsRx } := by
    refine hstep.trans ?_
    rcases hacc with rfl | ⟨addr, rfl⟩
    · have haside := i.aside
      have hne (c : Word) (hc : 0x20000 ≤ c.toNat) : (socIn i none).la.addr ≠ c := by
        intro heq
        rw [← heq] at hc
        exact absurd haside (Nat.not_lt.2 hc)
      dsimp only
      rw [if_neg (hne 0x10000004 (by decide)), if_neg (hne 0x10000010 (by decide)), ite_self]
    · rfl
  rw [huart, ← txTime_count]
  rfl

theorem uartSt_read (i : SocIn) (s : Soc) (h : i.reads uartSt) :
    ∃ d, (Soc.step boot i s).bus.memRdata = some d
      ∧ (d &&& 1 != 0) = !s.bus.regs.uart.txBusy := by
  refine ⟨_, memRdata_step boot i s h rfl, ?_⟩
  show ((0#30 ++ BitVec.ofBool (Periph.uartRxValid _) ++ BitVec.ofBool (!s.bus.regs.uart.txBusy))
    &&& 1 != 0) = _
  generalize Periph.uartRxValid _ = v
  cases v <;> cases s.bus.regs.uart.txBusy <;> decide

/-- The transmitter gets ready. -/
theorem ends_waitTxReady (hF : Frame boot Console F) :
    Ends (socTarget boot) F waitTxReady fun _ => F := by
  suffices h : Ends (socTarget boot) (fun s => ∃ n, F s ∧ txTime s.bus.regs.uart = n)
      waitTxReady fun _ => F from h.mono (fun s hs => ⟨_, hs, rfl⟩) fun _ _ hs => hs
  refine Ends.exists fun n => Ends.poll (I := fun n s => F s ∧ txTime s.bus.regs.uart = n)
    (R := fun _ => F) (fun n i s h => ?_) (fun n i j l s h s' d hs' hd => ?_) (fun _ => ?_) n
  · exact ⟨_, Nat.sub_le n 1, hF.idle i s h.1, by rw [txTime_step (.inl rfl), h.2]⟩
  · obtain ⟨w, hw, htest⟩ :=
      @uartSt_read boot (socIn i (some (.read uartSt))) s ⟨rfl, rfl⟩
    have hdw : d = w := by
      rw [hd, hs']
      exact rdata_step hw
    have hF' : F ((socTarget boot).step l none ((socTarget boot).step j none s')) := by
      rw [hs']
      exact hF.idle _ _ (hF.idle _ _ (hF.read _ _ _ h.1))
    rw [hdw, htest]
    cases hbusy : s.bus.regs.uart.txBusy with
    | false => exact .inl ⟨rfl, hF'⟩
    | true =>
        have hpos : 0 < n := by
          rw [← h.2, txTime, hbusy]
          exact Nat.succ_pos _
        refine .inr ⟨rfl, _, ?_, hF', rfl⟩
        rw [txTime_step (.inl rfl), txTime_step (.inl rfl), hs', txTime_step (.inr ⟨_, rfl⟩), h.2]
        omega
  · exact Ends.ret fun _ hs => hs

/-- A write to a register that `F` does not speak of. -/
theorem ends_console (hF : Frame boot Console F) {addr : Word} (haddr : Console addr)
    (data : Word) : Ends (socTarget boot) F (store addr data) fun _ => F :=
  Ends.write hF.idle
    (fun i j l s hs => hF.idle l _ (hF.idle j _ (hF.write i s addr data haddr hs)))
    (Ends.ret fun _ hs => hs)

/-! ## Printing ends -/

theorem ends_forM {γ : Type} {f : γ → Prog Unit}
    (hf : ∀ x, Ends (socTarget boot) F (f x) fun _ => F) (l : List γ) :
    Ends (socTarget boot) F (l.forM f) fun _ => F := by
  induction l with
  | nil => exact Ends.ret fun _ hs => hs
  | cons x l ih => exact (hf x).bind fun _ => ih

section

variable (hF : Frame boot Console F)

include hF

theorem ends_pc (c : Char) : Ends (socTarget boot) F (pc c) fun _ => F := by
  have hlast : Ends (socTarget boot) F
      (waitTxReady.bind fun _ => store uartTx (BitVec.ofNat 32 c.toNat)) fun _ => F :=
    (ends_waitTxReady hF).bind fun _ => ends_console hF (.inl rfl) _
  unfold pc
  split_ifs with hc
  · exact ((ends_waitTxReady hF).bind fun _ => ends_console hF (.inl rfl) _).bind fun _ => hlast
  · exact hlast

theorem ends_ps (s : String) : Ends (socTarget boot) F (ps s) fun _ => F :=
  ends_forM (ends_pc hF) _

theorem ends_ph (v : Word) : Ends (socTarget boot) F (ph v) fun _ => F :=
  ends_forM (fun _ => ends_pc hF _) _

theorem ends_p128 (w : Words4) : Ends (socTarget boot) F (p128 w) fun _ => F :=
  (ends_ph hF _).bind fun _ => (ends_ph hF _).bind fun _ => (ends_ph hF _).bind fun _ =>
    ends_ph hF _

theorem ends_p96 (w : Words3) : Ends (socTarget boot) F (p96 w) fun _ => F :=
  (ends_ph hF _).bind fun _ => (ends_ph hF _).bind fun _ => ends_ph hF _

theorem ends_p64 (w : Words2) : Ends (socTarget boot) F (p64 w) fun _ => F :=
  (ends_ph hF _).bind fun _ => ends_ph hF _

theorem ends_ln : Ends (socTarget boot) F ln fun _ => F := ends_ps hF _

theorem ends_led (data : Word) : Ends (socTarget boot) F (store outbyte data) fun _ => F :=
  ends_console hF (.inr rfl) data

omit hF in
/-- What keeps the state stands before the rest. -/
theorem ends_then {β : Type} {Q : β → Soc → Prop} {p : Prog Unit} {g : Unit → Prog β}
    (hp : Ends (socTarget boot) F p fun _ => F) (hg : Ends (socTarget boot) F (g ()) Q) :
    Ends (socTarget boot) F (p >>= g) Q :=
  hp.bind fun _ => hg

omit hF in
/-- A test that passes stands before the rest. -/
theorem ends_pass {β : Type} {Q : β → Soc → Prop} {p : Prog Bool} {g : Bool → Prog β}
    (hp : Ends (socTarget boot) F p fun ok s => ok = true ∧ F s)
    (hg : Ends (socTarget boot) F (g true) Q) : Ends (socTarget boot) F (p >>= g) Q := by
  refine hp.bind fun ok => ?_
  intro env hfair s hs
  obtain ⟨rfl, hs⟩ := hs
  exact hg env hfair s hs

/-- A line with a label. -/
theorem ends_line {β : Type} {Q : β → Soc → Prop} {p : Prog Unit} {g : Unit → Prog β}
    (label : String) (hp : Ends (socTarget boot) F p fun _ => F)
    (hg : Ends (socTarget boot) F (g ()) Q) :
    Ends (socTarget boot) F (ps label >>= fun _ => p >>= fun _ => pc '\n' >>= g) Q :=
  ends_then (ends_ps hF _) (ends_then hp (ends_then (ends_pc hF _) hg))

end

/-! ## An accelerator and the console -/

/-- The registers that a test of the accelerator writes. -/
def Labels {ρ ι σ α : Type} (a : Slot ρ ι σ α) (addr : Word) : Prop :=
  Console addr ∨ ∃ f, a.writes.lookup addr = some f

section

variable {ρ ι σ α β : Type} {a : Slot ρ ι σ α} {r : ρ} {o : α} {k : Sticky}
  {Q : β → Soc → Prop} {p : ℕ → Word → ρ → ρ} (ha : a.Lawful) (hF : Frame boot (Labels a) F)

include ha

theorem console_none {addr : Word} (h : Console addr) : a.writes.lookup addr = none := by
  refine lookup_eq_none_iff.2 fun hmem => ?_
  obtain ⟨e, he, hlabel⟩ := List.mem_map.1 hmem
  have habove := ha.above e he
  rw [hlabel] at habove
  rcases h with rfl | rfl <;> exact absurd habove (by decide)

include hF

/-- Printing goes on beside the accelerator. -/
theorem frame_at : Frame boot Console (a.At F r o k) :=
  (ha.frame fun _ => console_none ha).and (hF.mono fun _ => .inl)

theorem frame_some : Frame boot Console fun s => ∃ r o k, a.At F r o k s :=
  .exists fun _ => .exists fun _ => .exists fun _ => frame_at ha hF

theorem ends_store4 {a0 a1 a2 a3 : Word} (h0 : a.writes.lookup a0 = some (p 0))
    (h1 : a.writes.lookup a1 = some (p 1)) (h2 : a.writes.lookup a2 = some (p 2))
    (h3 : a.writes.lookup a3 = some (p 3))
    (hclear : ∀ j d r, a.clear (p j d r) = p j d (a.clear r)) (w : Words4)
    {g : Unit → Prog β}
    (hg : Ends (socTarget boot)
      (a.At F (p 3 w.w3 (p 2 w.w2 (p 1 w.w1 (p 0 w.w0 r)))) o k) (g ()) Q) :
    Ends (socTarget boot) (a.At F r o k) (store4 a0 a1 a2 a3 w >>= g) Q := by
  show Ends _ _ (store a0 w.w0 >>= fun _ => store a1 w.w1 >>= fun _ => store a2 w.w2 >>= fun _ =>
    store a3 w.w3 >>= g) _
  refine ha.ends_store hF (.inr ⟨_, h0⟩) h0 (hclear 0) ?_
  refine ha.ends_store hF (.inr ⟨_, h1⟩) h1 (hclear 1) ?_
  refine ha.ends_store hF (.inr ⟨_, h2⟩) h2 (hclear 2) ?_
  exact ha.ends_store hF (.inr ⟨_, h3⟩) h3 (hclear 3) hg

theorem ends_store3 {a0 a1 a2 : Word} (h0 : a.writes.lookup a0 = some (p 0))
    (h1 : a.writes.lookup a1 = some (p 1)) (h2 : a.writes.lookup a2 = some (p 2))
    (hclear : ∀ j d r, a.clear (p j d r) = p j d (a.clear r)) (w : Words3)
    {g : Unit → Prog β}
    (hg : Ends (socTarget boot) (a.At F (p 2 w.w2 (p 1 w.w1 (p 0 w.w0 r))) o k) (g ()) Q) :
    Ends (socTarget boot) (a.At F r o k) (store3 a0 a1 a2 w >>= g) Q := by
  show Ends _ _ (store a0 w.w0 >>= fun _ => store a1 w.w1 >>= fun _ => store a2 w.w2 >>= g) _
  refine ha.ends_store hF (.inr ⟨_, h0⟩) h0 (hclear 0) ?_
  refine ha.ends_store hF (.inr ⟨_, h1⟩) h1 (hclear 1) ?_
  exact ha.ends_store hF (.inr ⟨_, h2⟩) h2 (hclear 2) hg

theorem ends_store2 {a0 a1 : Word} (h0 : a.writes.lookup a0 = some (p 0))
    (h1 : a.writes.lookup a1 = some (p 1))
    (hclear : ∀ j d r, a.clear (p j d r) = p j d (a.clear r)) (w : Words2)
    {g : Unit → Prog β}
    (hg : Ends (socTarget boot) (a.At F (p 1 w.w1 (p 0 w.w0 r)) o k) (g ()) Q) :
    Ends (socTarget boot) (a.At F r o k) (store2 a0 a1 w >>= g) Q := by
  show Ends _ _ (store a0 w.w0 >>= fun _ => store a1 w.w1 >>= g) _
  refine ha.ends_store hF (.inr ⟨_, h0⟩) h0 (hclear 0) ?_
  exact ha.ends_store hF (.inr ⟨_, h1⟩) h1 (hclear 1) hg

/-- A register whose read the results of the operation determine. -/
def Shows (a : Slot ρ ι σ α) (r : ρ) (o : α) (k : Sticky) (addr w : Word) : Prop :=
  ∀ boot i s, a.Resting r o k s → SocIn.reads i addr → (Soc.step boot i s).bus.memRdata = some w

omit ha hF in
/-- A register that shows a part of the results. -/
theorem shows_of_reads {p : Periph → α} (hp : ∀ i s, p (Soc.periph i s) = a.out (a.core s))
    {addr : Word} (f : α → Word)
    (haddr : ∀ q r, (fastReads q r).lookup addr = some (f (p q))) :
    Shows a r o k addr (f o) := by
  intro boot i s hrest h
  rw [memRdata_step boot i s h (haddr _ _), hp, hrest.out]

theorem ends_load4 {a0 a1 a2 a3 : Word} {w : Words4} (h0 : Shows a r o k a0 w.w0)
    (h1 : Shows a r o k a1 w.w1) (h2 : Shows a r o k a2 w.w2) (h3 : Shows a r o k a3 w.w3)
    {g : Words4 → Prog β} (hg : Ends (socTarget boot) (a.At F r o k) (g w) Q) :
    Ends (socTarget boot) (a.At F r o k) (load4 a0 a1 a2 a3 >>= g) Q :=
  ha.ends_load hF h0 <| ha.ends_load hF h1 <| ha.ends_load hF h2 <| ha.ends_load hF h3 hg

theorem ends_load2 {a0 a1 : Word} {w : Words2} (h0 : Shows a r o k a0 w.w0)
    (h1 : Shows a r o k a1 w.w1) {g : Words2 → Prog β}
    (hg : Ends (socTarget boot) (a.At F r o k) (g w) Q) :
    Ends (socTarget boot) (a.At F r o k) (load2 a0 a1 >>= g) Q :=
  ha.ends_load hF h0 <| ha.ends_load hF h1 hg

end

end PicoSoc.Firmware
