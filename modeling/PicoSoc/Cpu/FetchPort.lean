import PicoSoc.Cpu.Compressed

set_option autoImplicit false

/-! # Fetching at halfword boundaries

What the memory interface does for the instruction at one halfword address: the modes it can be in
(`Fetching`), what a cycle makes of them, and that the word handed to the decoder is the one the code
memory holds there. -/

namespace PicoSoc.Picorv32.Rvc

/-! ## The code memory by halfwords -/

/-- The halfword address of a program counter. -/
def halfAddr (pc : BitVec 32) : BitVec 31 := pc.extractLsb' 1 31

/-- The halfword at `a` of a memory of words. -/
def half (code : BitVec 30 → BitVec 32) (a : BitVec 31) : BitVec 16 :=
  if a.getLsbD 0 then (code (a.extractLsb' 1 30)).extractLsb' 16 16
  else (code (a.extractLsb' 1 30)).extractLsb' 0 16

/-- A 32-bit instruction starts at `a`. -/
def longAt (code : BitVec 30 → BitVec 32) (a : BitVec 31) : Bool :=
  (half code a).extractLsb' 0 2 == 0b11

/-- The address behind the instruction at `a`. -/
def following (code : BitVec 30 → BitVec 32) (a : BitVec 31) : BitVec 31 :=
  a + if longAt code a then 2 else 1

variable {code : BitVec 30 → BitVec 32} {a : BitVec 31}

theorem half_of_low (h : a.getLsbD 0 = false) :
    half code a = (code (a.extractLsb' 1 30)).extractLsb' 0 16 := by
  rw [half, h]
  rfl

theorem half_of_high (h : a.getLsbD 0 = true) :
    half code a = (code (a.extractLsb' 1 30)).extractLsb' 16 16 := by
  rw [half, h]
  rfl

theorem getLsbD_zero_iff (a : BitVec 31) : a.getLsbD 0 = true ↔ a.toNat % 2 = 1 := by
  rw [BitVec.getLsbD, Nat.testBit_zero, decide_eq_true_iff]

theorem getLsbD_zero_eq_false (a : BitVec 31) : a.getLsbD 0 = false ↔ a.toNat % 2 = 0 := by
  rw [← Bool.not_eq_true, getLsbD_zero_iff]
  omega

theorem bit_add_one : (a + 1).getLsbD 0 = !a.getLsbD 0 := by
  have hadd : (a + 1).toNat = (a.toNat + 1) % 2 ^ 31 := BitVec.toNat_add a 1
  cases h : a.getLsbD 0
  · rw [getLsbD_zero_eq_false] at h
    exact (getLsbD_zero_iff _).mpr (by omega)
  · rw [getLsbD_zero_iff] at h
    exact (getLsbD_zero_eq_false _).mpr (by omega)

theorem bit_add_two : (a + 2).getLsbD 0 = a.getLsbD 0 := by
  rw [show a + 2 = a + 1 + 1 by rw [BitVec.add_assoc]; rfl, bit_add_one, bit_add_one,
    Bool.not_not]

theorem word_toNat (a : BitVec 31) : (a.extractLsb' 1 30).toNat = a.toNat / 2 := by
  have := a.isLt
  rw [BitVec.extractLsb'_toNat, Nat.shiftRight_eq_div_pow]
  omega

theorem word_add_one (h : a.getLsbD 0 = false) :
    (a + 1).extractLsb' 1 30 = a.extractLsb' 1 30 := by
  have hlt := a.isLt
  have hadd : (a + 1).toNat = (a.toNat + 1) % 2 ^ 31 := BitVec.toNat_add a 1
  rw [getLsbD_zero_eq_false] at h
  apply BitVec.eq_of_toNat_eq
  rw [word_toNat, word_toNat]
  omega

theorem word_add_two : (a + 2).extractLsb' 1 30 = a.extractLsb' 1 30 + 1 := by
  have hlt := a.isLt
  have hadd : (a + 2).toNat = (a.toNat + 2) % 2 ^ 31 := BitVec.toNat_add a 2
  have hnext : (a.extractLsb' 1 30 + 1).toNat = ((a.extractLsb' 1 30).toNat + 1) % 2 ^ 30 :=
    BitVec.toNat_add _ 1
  apply BitVec.eq_of_toNat_eq
  rw [hnext, word_toNat, word_toNat]
  omega

theorem word_add_one_high (h : a.getLsbD 0 = true) :
    (a + 1).extractLsb' 1 30 = a.extractLsb' 1 30 + 1 := by
  have hlow : (a + 1).getLsbD 0 = false := by rw [bit_add_one, h]; rfl
  rw [← word_add_two, ← word_add_one hlow, BitVec.add_assoc]
  rfl

theorem halfAddr_toNat (pc : BitVec 32) : (halfAddr pc).toNat = pc.toNat / 2 := by
  have := pc.isLt
  rw [halfAddr, BitVec.extractLsb'_toNat, Nat.shiftRight_eq_div_pow]
  omega

theorem halfAddr_add_two (pc : BitVec 32) : halfAddr (pc + 2) = halfAddr pc + 1 := by
  have hlt := pc.isLt
  have hadd : (pc + 2).toNat = (pc.toNat + 2) % 2 ^ 32 := BitVec.toNat_add pc 2
  have hnext : (halfAddr pc + 1).toNat = ((halfAddr pc).toNat + 1) % 2 ^ 31 :=
    BitVec.toNat_add _ 1
  apply BitVec.eq_of_toNat_eq
  rw [hnext, halfAddr_toNat, halfAddr_toNat]
  omega

theorem halfAddr_add_four (pc : BitVec 32) : halfAddr (pc + 4) = halfAddr pc + 2 := by
  rw [show pc + 4 = pc + 2 + 2 by rw [BitVec.add_assoc]; rfl, halfAddr_add_two, halfAddr_add_two,
    BitVec.add_assoc]
  rfl

theorem halfAddr_bit (pc : BitVec 32) : pc.getLsbD 1 = (halfAddr pc).getLsbD 0 := by
  simp [halfAddr]

theorem halfAddr_word (pc : BitVec 32) :
    pc.extractLsb' 2 30 = (halfAddr pc).extractLsb' 1 30 := by
  have hlt := pc.isLt
  apply BitVec.eq_of_toNat_eq
  rw [word_toNat, halfAddr_toNat, BitVec.extractLsb'_toNat, Nat.shiftRight_eq_div_pow]
  omega

/-- Clearing the lowest bit of a program counter does not move it to another halfword. -/
theorem halfAddr_clear (pc : BitVec 32) : halfAddr (pc &&& ~~~1#32) = halfAddr pc := by
  apply BitVec.eq_of_getLsbD_eq
  intro j hj
  have h1 : (1#32).getLsbD (1 + j) = false := by
    rw [BitVec.getLsbD_one]
    simp
  simp only [halfAddr, BitVec.getLsbD_extractLsb', BitVec.getLsbD_and, BitVec.getLsbD_not, h1]
  have : 1 + j < 32 := by omega
  simp [this]

/-! ## The modes of the interface -/

/-- The buffer holds the halfword at `a`, unless `a` is the lower half of its word. -/
def Ready (code : BitVec 30 → BitVec 32) (a : BitVec 31) (s : State) : Prop :=
  a.getLsbD 0 = true → s.prefetchedHighWord = true ∧ s.mem16bitBuffer = half code a

/-- What the memory interface is doing for the instruction at `a`, requested by `prefetch` and
    `rinst`; `rdata` is what the memory shows in the cycle. -/
inductive Fetching (p : Params) (code : BitVec 30 → BitVec 32) (a : BitVec 31)
    (prefetch rinst : Bool) (rdata : BitVec 32) (s : State) : Prop
  | idle (hs : s.core.mem.memState = .idle) (hv : s.core.mem.memValid = false)
      (h2 : s.memLaSecondword = false)
      (hb : a.getLsbD 0 = true → s.prefetchedHighWord = true → s.mem16bitBuffer = half code a)
      (hj : a.getLsbD 0 = true → s.prefetchedHighWord = false → prefetch = false)
  | first (hr : (prefetch || rinst) = true) (hs : s.core.mem.memState = .read)
      (hv : s.core.mem.memValid = true) (h2 : s.memLaSecondword = false)
      (hi : s.core.mem.memInstr = true)
      (haddr : s.core.mem.memAddr = a.extractLsb' 1 30 ++ 0#2)
      (hl : s.lastMemValid = true → s.memLaFirstwordReg = a.getLsbD 0)
      (hj : a.getLsbD 0 = true →
        s.prefetchedHighWord = false ∧ rinst = true ∧ prefetch = false)
  | high (hr : (prefetch || rinst) = true) (hs : s.core.mem.memState = .read)
      (hv : s.core.mem.memValid = false) (h2 : s.memLaSecondword = false)
      (hi : s.core.mem.memInstr = true) (hl : s.lastMemValid = false) (ha : a.getLsbD 0 = true)
      (hp : s.prefetchedHighWord = true) (hb : s.mem16bitBuffer = half code a)
  | second (hr : rinst = true) (hs : s.core.mem.memState = .read)
      (hv : s.core.mem.memValid = true) (h2 : s.memLaSecondword = true)
      (hi : s.core.mem.memInstr = true) (ha : a.getLsbD 0 = true)
      (haddr : s.core.mem.memAddr = (a.extractLsb' 1 30 + 1) ++ 0#2)
      (hl : s.lastMemValid = true → s.memLaFirstwordReg = false)
      (hb : s.mem16bitBuffer = half code a) (hlong : longAt code a = true)
  | held (hr : prefetch = true) (hs : s.core.mem.memState = .prefetched) (hv : s.core.mem.memValid = false)
      (h2 : s.memLaSecondword = false) (ha : a.getLsbD 0 = false)
      (hq : if p.latchedMemRdata then rdata = code (a.extractLsb' 1 30)
        else s.core.mem.memRdataQ = code (a.extractLsb' 1 30))
      (hn : Ready code (following code a) s)

/-- No data access, no jump, no interrupt entry: the cycle goes on with the instruction at
    `next_pc`. -/
structure Sequential (s : State) (i : Inputs) : Prop where
  resetn : i.resetn = true
  trap : s.core.main.trap = false
  branch : s.core.main.latchedBranch = false
  irq : s.core.main.irq.irqState = 0
  rdata : s.core.main.memDoRdata = false
  wdata : s.core.main.memDoWdata = false
  cleared : s.clearPrefetchedHighWordQ = true → s.prefetchedHighWord = false

/-- An instruction access is answered by the code memory. -/
def Answers (code : BitVec 30 → BitVec 32) (s : State) (i : Inputs) : Prop :=
  s.core.mem.memValid = true → s.core.mem.memInstr = true → i.memReady = true →
    i.memRdata = code (s.core.mem.memAddr.extractLsb' 2 30)

/-- The word for the decoder is the instruction at `a`. -/
def Delivered (code : BitVec 30 → BitVec 32) (a : BitVec 31) (w : BitVec 32) : Prop :=
  w.extractLsb' 0 16 = half code a ∧ (longAt code a = true → w.extractLsb' 16 16 = half code (a + 1))

/-- The instruction at `a` is complete: the interface rests, ready for the one behind. -/
structure Completed (code : BitVec 30 → BitVec 32) (a : BitVec 31) (s : State) : Prop where
  idle : s.core.mem.memState = .idle
  valid : s.core.mem.memValid = false
  secondword : s.memLaSecondword = false
  ready : Ready code (following code a) s

variable {p : Params} {s : State} {i : Inputs} {rdata : BitVec 32}

theorem Sequential.clear_low (h : Sequential s i) : clearPrefetchedHighWord s i = false := by
  have := h.cleared
  cases hp : s.prefetchedHighWord <;>
    simp_all [clearPrefetchedHighWord, h.branch, h.irq, h.resetn]

/-- The registers before the case distinction on `mem_state`, no write being requested. -/
def addressed (p : Params) (s : State) (i : Inputs) : Port where
  mem :=
    { s.core.mem with
      memRdataQ := memRdataQStep p s i
      memAddr := if memLaRead p s i then memLaAddr s i else s.core.mem.memAddr
      memWstrb := if memLaRead p s i then 0 else s.core.mem.memWstrb }
  secondword := s.memLaSecondword
  prefetchedHighWord := s.prefetchedHighWord
  buffer := s.mem16bitBuffer

/-- The case distinction on `mem_state`. -/
def portCase (p : Params) (s : State) (i : Inputs) : Port :=
  match s.core.mem.memState with
  | .idle => portIdle s i (addressed p s i)
  | .read => if memXfer s i then portRead p s i (addressed p s i) else addressed p s i
  | .write =>
    if memXfer s i then
      { addressed p s i with
        mem := { (addressed p s i).mem with memValid := false, memState := .idle } }
    else addressed p s i
  | .prefetched =>
    if s.core.main.memDoRinst then
      { addressed p s i with mem := { (addressed p s i).mem with memState := .idle } }
    else addressed p s i

/-- A cycle of the interface without a trap or a write request. -/
theorem portStep_case (hr : i.resetn = true) (ht : s.core.main.trap = false)
    (hw : s.core.main.memDoWdata = false) :
    portStep p s i =
      if clearPrefetchedHighWord s i then { portCase p s i with prefetchedHighWord := false }
      else portCase p s i := by
  have hwrite : memLaWrite s i = false := by simp [memLaWrite, hw]
  unfold portCase
  cases hread : memLaRead p s i
  all_goals
    simp only [portStep, addressed, hr, ht, hwrite, hread, Bool.not_true, Bool.or_self,
      Bool.false_eq_true, if_false, if_true]
  all_goals rfl

theorem portStep_eq (hr : i.resetn = true) (ht : s.core.main.trap = false)
    (hw : s.core.main.memDoWdata = false) (hc : clearPrefetchedHighWord s i = false) :
    portStep p s i = portCase p s i := by
  rw [portStep_case hr ht hw, hc, if_neg (by simp)]

theorem memLaFirstword_eq (ha : halfAddr (nextPc s.core) = a) :
    memLaFirstword s = ((s.core.main.memDoPrefetch || s.core.main.memDoRinst)
      && a.getLsbD 0 && !s.memLaSecondword) := by
  rw [memLaFirstword, halfAddr_bit, ha]

theorem memLaUse_eq (ha : halfAddr (nextPc s.core) = a)
    (hc : clearPrefetchedHighWord s i = false) :
    memLaUsePrefetchedHighWord s i = ((s.core.main.memDoPrefetch || s.core.main.memDoRinst)
      && a.getLsbD 0 && !s.memLaSecondword && s.prefetchedHighWord) := by
  rw [memLaUsePrefetchedHighWord, memLaFirstword_eq ha, hc, Bool.not_false, Bool.and_true]

theorem memLaAddr_eq (ha : halfAddr (nextPc s.core) = a)
    (hreq : (s.core.main.memDoPrefetch || s.core.main.memDoRinst) = true) :
    memLaAddr s i
      = (a.extractLsb' 1 30 + (BitVec.ofBool (memLaFirstwordXfer s i)).setWidth 30) ++ 0#2 := by
  rw [memLaAddr, if_pos hreq, halfAddr_word, ha]

@[simp] theorem read_bne_idle : (MemState.read != MemState.idle) = true := by decide

@[simp] theorem read_beq_prefetched : (MemState.read == MemState.prefetched) = false := by decide

/-- While an access waits, the register holds what the wire showed in its first cycle. -/
theorem memLaFirstwordXfer_eq (hl : s.lastMemValid = true → s.memLaFirstwordReg = memLaFirstword s) :
    memLaFirstwordXfer s i = (memXfer s i && memLaFirstword s) := by
  cases hlast : s.lastMemValid
  · simp only [memLaFirstwordXfer, hlast, Bool.not_false, if_true]
  · simp only [memLaFirstwordXfer, hlast, hl hlast, ite_self]

theorem memLaFirstwordReg_step (hr : i.resetn = true)
    (hl : s.lastMemValid = true → s.memLaFirstwordReg = memLaFirstword s) :
    (step p i s).memLaFirstwordReg = memLaFirstword s := by
  cases hlast : s.lastMemValid
  · simp only [step, hr, hlast, Bool.not_true, Bool.false_eq_true, if_false, Bool.not_false, if_true]
  · simp only [step, hr, hlast, hl hlast, Bool.not_true, Bool.false_eq_true, if_false]

/-- From `mem_state` 0 the access begins, or the buffer is used. -/
theorem fetching_idle (h : Sequential s i) (ha : halfAddr (nextPc s.core) = a)
    (hs : s.core.mem.memState = .idle) (hv : s.core.mem.memValid = false)
    (h2 : s.memLaSecondword = false)
    (hb : a.getLsbD 0 = true → s.prefetchedHighWord = true → s.mem16bitBuffer = half code a)
    (hj : a.getLsbD 0 = true → s.prefetchedHighWord = false → s.core.main.memDoPrefetch = false)
    {rinst : Bool} (hrinst : s.core.main.memDoRinst = true → rinst = true) :
    Fetching p code a s.core.main.memDoPrefetch rinst rdata (step p i s) := by
  have hport := portStep_eq (p := p) h.resetn h.trap h.wdata h.clear_low
  rw [portCase, hs] at hport
  have hvalid : (step p i s).lastMemValid = false := by simp [step, hv]
  cases hreq : s.core.main.memDoPrefetch || s.core.main.memDoRinst
  · -- nothing is requested
    obtain ⟨hp, hr⟩ := Bool.or_eq_false_iff.mp hreq
    have hrest : portStep p s i = addressed p s i := by
      simp [hport, portIdle, hp, hr, h.rdata, h.wdata]
    refine .idle ?_ ?_ ?_ ?_ (fun _ _ => hp) <;> simp only [step, hrest, addressed]
    · exact hs
    · exact hv
    · exact h2
    · exact hb
  · have hreq' : (s.core.main.memDoPrefetch || rinst) = true := by
      rcases Bool.or_eq_true_iff.mp hreq with hp | hr
      · rw [hp, Bool.true_or]
      · rw [hrinst hr, Bool.or_true]
    have hbegin : portStep p s i =
        { addressed p s i with
          mem :=
            { (addressed p s i).mem with
              memValid := !memLaUsePrefetchedHighWord s i
              memInstr := true
              memWstrb := 0
              memState := .read } } := by
      simp only [hport, portIdle, hreq, h.wdata, Bool.true_or, if_true, Bool.false_eq_true, if_false]
    have huse := memLaUse_eq ha h.clear_low
    rw [hreq, h2, Bool.true_and, Bool.not_false, Bool.and_true] at huse
    cases hhigh : memLaUsePrefetchedHighWord s i
    · -- an access for the word at `a`
      have hread : memLaRead p s i = true := by
        simp [memLaRead, h.resetn, hhigh, hs, h.rdata, Bool.or_comm, hreq]
      have hxfer : memLaFirstwordXfer s i = false := by
        simp [memLaFirstwordXfer, memXfer, hv, hhigh]
      have haddr := memLaAddr_eq (i := i) ha hreq
      rw [hhigh] at huse
      rw [hxfer] at haddr
      refine .first hreq' ?_ ?_ ?_ ?_ ?_ ?_ (fun hbit => ?_) <;>
        simp only [step, hbegin, addressed, hhigh, hread, if_true, Bool.not_false]
      · exact h2
      · rw [haddr]
        simp
      · simp [hv]
      · have hhigh : s.prefetchedHighWord = false := by simpa [hbit] using huse.symm
        have hp := hj hbit hhigh
        refine ⟨hhigh, hrinst ?_, hp⟩
        simpa [hp] using hreq
    · rw [hhigh] at huse
      -- the buffer holds the halfword at `a`
      obtain ⟨hbit, hp⟩ := Bool.and_eq_true_iff.mp huse.symm
      refine .high hreq' ?_ ?_ ?_ ?_ hvalid hbit ?_ ?_ <;>
        simp only [step, hbegin, addressed, hhigh, Bool.not_true]
      · exact h2
      · exact hp
      · exact hb hbit hp

/-- What a cycle makes of the access for the instruction at `a`. -/
structure Cycle (p : Params) (code : BitVec 30 → BitVec 32) (a : BitVec 31) (s : State)
    (i : Inputs) : Prop where
  done : memDone p s i = true → s.core.main.memDoRinst = true
    ∧ Delivered code a (memRdataLatched p s i) ∧ Completed code a (step p i s)
  going : memDone p s i = false → ∀ (rinst : Bool) (rdata : BitVec 32),
    (s.core.main.memDoRinst = true → rinst = true) →
    (p.latchedMemRdata = true → (step p i s).core.mem.memValid = false →
      (s.core.mem.memValid = true → i.memReady = true) → rdata = i.memRdata) →
    Fetching p code a s.core.main.memDoPrefetch rinst rdata (step p i s)
  busy : memDone p s i = false → s.core.main.memDoRinst = true →
    s.core.main.memDoPrefetch = true → s.core.mem.memState ≠ .idle →
    (step p i s).core.mem.memState = .read ∧ (step p i s).core.mem.memValid = true
      ∧ ((step p i s).lastMemValid = true → (step p i s).memLaFirstwordReg = false)

theorem isLong_of_low {w : BitVec 32} (h : w.extractLsb' 0 16 = half code a) :
    isLong w = longAt code a := by
  have hlow : w.extractLsb' 0 2 = (w.extractLsb' 0 16).extractLsb' 0 2 := by
    apply BitVec.eq_of_getLsbD_eq
    intro j hj
    simp [hj]
  rw [isLong, longAt, ← h, hlow]

/-- The upper half of a word as the halfword behind the lower one. -/
theorem half_add_one (h : a.getLsbD 0 = false) :
    half code (a + 1) = (code (a.extractLsb' 1 30)).extractLsb' 16 16 := by
  have hbit : (a + 1).getLsbD 0 = true := by rw [bit_add_one, h]; rfl
  rw [half_of_high hbit, word_add_one h]

/-- The lower half of the next word as the halfword behind the upper one. -/
theorem half_add_one_high (h : a.getLsbD 0 = true) :
    half code (a + 1) = (code (a.extractLsb' 1 30 + 1)).extractLsb' 0 16 := by
  have hbit : (a + 1).getLsbD 0 = false := by rw [bit_add_one, h]; rfl
  rw [half_of_low hbit, word_add_one_high h]

theorem half_add_two_high (h : a.getLsbD 0 = true) :
    half code (a + 2) = (code (a.extractLsb' 1 30 + 1)).extractLsb' 16 16 := by
  rw [half_of_high (bit_add_two.trans h), word_add_two]

/-- A word read at the lower half of its address is the instruction there. -/
theorem delivered_word (h : a.getLsbD 0 = false) :
    Delivered code a (code (a.extractLsb' 1 30)) :=
  ⟨(half_of_low h).symm, fun _ => (half_add_one h).symm⟩

/-- The end of an access, whatever becomes of the buffer. -/
theorem portRead_end {t : Port} (hread : memLaRead p s i = false) :
    (portRead p s i t).mem = { t.mem with
        memValid := false
        memState :=
          if s.core.main.memDoRinst || s.core.main.memDoRdata then .idle else .prefetched }
      ∧ (portRead p s i t).secondword = false := by
  cases hd : s.core.main.memDoRdata <;> cases hl : (!isLong i.memRdata || s.memLaSecondword) <;>
    simp [portRead, hread, hd, hl]

/-- The access at the lower half of a word. -/
theorem cycle_first_low (h : Sequential s i) (ha : halfAddr (nextPc s.core) = a)
    (hanswer : Answers code s i)
    (hr : (s.core.main.memDoPrefetch || s.core.main.memDoRinst) = true)
    (hs : s.core.mem.memState = .read) (hv : s.core.mem.memValid = true)
    (h2 : s.memLaSecondword = false) (hi : s.core.mem.memInstr = true)
    (haddr : s.core.mem.memAddr = a.extractLsb' 1 30 ++ 0#2)
    (hl : s.lastMemValid = true → s.memLaFirstwordReg = a.getLsbD 0)
    (hbit : a.getLsbD 0 = false) : Cycle p code a s i := by
  have hport := portStep_eq (p := p) h.resetn h.trap h.wdata h.clear_low
  rw [portCase, hs] at hport
  have hfirst : memLaFirstword s = false := by rw [memLaFirstword_eq ha, hbit]; simp
  have huse : memLaUsePrefetchedHighWord s i = false := by
    simp [memLaUsePrefetchedHighWord, hfirst]
  have hxfer : memXfer s i = i.memReady := by simp [memXfer, hv, huse]
  have hl' : s.lastMemValid = true → s.memLaFirstwordReg = memLaFirstword s := by
    intro hlast
    rw [hl hlast, hfirst, hbit]
  have hfx : memLaFirstwordXfer s i = false := by
    rw [memLaFirstwordXfer_eq hl', hfirst, Bool.and_false]
  have hread : memLaRead p s i = false := by simp [memLaRead, hs, hfx]
  cases hready : i.memReady
  · -- the memory keeps the core waiting
    have hdone : memDone p s i = false := by simp [memDone, hxfer, hready, hs]
    have hrest : portStep p s i = addressed p s i := by simp [hport, hxfer, hready]
    have hreg := memLaFirstwordReg_step (p := p) (i := i) h.resetn hl'
    refine ⟨fun hd => by simp [hdone] at hd, fun _ rinst rdata hrinst _ => ?_,
      fun _ _ _ _ => ⟨?_, ?_, fun _ => by rw [hreg, hfirst]⟩⟩
    · have hreq : (s.core.main.memDoPrefetch || rinst) = true := by
        rcases Bool.or_eq_true_iff.mp hr with hp | hp
        · rw [hp, Bool.true_or]
        · rw [hrinst hp, Bool.or_true]
      refine .first hreq ?_ ?_ ?_ ?_ ?_ (fun _ => by rw [hreg, hfirst, hbit]) (fun hb => ?_)
      · simpa only [step, hrest, addressed] using hs
      · simpa only [step, hrest, addressed] using hv
      · simpa only [step, hrest, addressed] using h2
      · simpa only [step, hrest, addressed] using hi
      · simpa only [step, hrest, addressed, hread, Bool.false_eq_true, if_false] using haddr
      · rw [hbit] at hb
        cases hb
    · simpa only [step, hrest, addressed] using hs
    · simpa only [step, hrest, addressed] using hv
  · have hword : i.memRdata = code (a.extractLsb' 1 30) := by
      rw [hanswer hv hi hready, haddr, BitVec.extractLsb'_append_eq_left]
    have hlong : isLong i.memRdata = longAt code a := by
      rw [hword]
      exact isLong_of_low (half_of_low hbit).symm
    have hlatched : memRdataLatched p s i = i.memRdata := by
      simp [memRdataLatched, memRdataLatchedNoshuffle, huse, h2, hfirst, hxfer, hready]
    have hend : portStep p s i =
        { mem :=
            { (addressed p s i).mem with
              memValid := false
              memState := if s.core.main.memDoRinst then .idle else .prefetched }
          secondword := false
          prefetchedHighWord := !longAt code a
          buffer := if longAt code a then s.mem16bitBuffer else i.memRdata.extractLsb' 16 16 } := by
      cases hlg : longAt code a <;>
        simp [hport, hxfer, hready, portRead, hread, h.rdata, h2, hlong, hlg, addressed]
    -- after a 16-bit instruction the upper half is the start of the next one
    have hreadyNext : Ready code (following code a) (step p i s) := by
      intro hodd
      cases hlg : longAt code a
      · simp only [step, hend, hlg, hword, Bool.not_false, Bool.false_eq_true, if_false, true_and]
        rw [following, hlg, if_neg (by simp), half_add_one hbit]
      · rw [following, hlg, if_pos rfl, bit_add_two, hbit] at hodd
        cases hodd
    -- the lower half ends the access: its instruction needs at most this word
    have hdone : memDone p s i = s.core.main.memDoRinst := by
      simp [memDone, h.resetn, hxfer, hready, hs, h.rdata, h.wdata, hfirst]
    cases hrinst : s.core.main.memDoRinst
    · -- only prefetched
      rw [hrinst] at hdone
      refine ⟨fun hd => by simp [hdone] at hd, fun _ rinst rdata _ hkeep => ?_,
        fun _ hr => by simp [hrinst] at hr⟩
      refine .held ?_ ?_ ?_ ?_ hbit ?_ hreadyNext
      · rw [hrinst, Bool.or_false] at hr
        exact hr
      · simp only [step, hend, hrinst, Bool.false_eq_true, if_false]
      · simp only [step, hend]
      · simp only [step, hend]
      · split
        case isTrue hlat =>
          rw [hkeep hlat (by simp only [step, hend]) fun _ => hready]
          exact hword
        case isFalse hlat =>
          simp [step, hend, addressed, memRdataQStep, hdone, hxfer, hready, hlatched, hword]
    · rw [hrinst] at hdone
      refine ⟨fun _ => ⟨hrinst, ?_, ?_, ?_, ?_, hreadyNext⟩, fun hd => by simp [hdone] at hd,
        fun hd => by simp [hdone] at hd⟩
      · rw [hlatched, hword]
        exact delivered_word hbit
      · simp only [step, hend, hrinst, if_true]
      · simp only [step, hend]
      · simp only [step, hend]

/-- The access for the upper half of a word, from a jump. -/
theorem cycle_first_high (h : Sequential s i) (ha : halfAddr (nextPc s.core) = a)
    (hanswer : Answers code s i) (hs : s.core.mem.memState = .read)
    (hv : s.core.mem.memValid = true) (h2 : s.memLaSecondword = false)
    (hi : s.core.mem.memInstr = true) (haddr : s.core.mem.memAddr = a.extractLsb' 1 30 ++ 0#2)
    (hl : s.lastMemValid = true → s.memLaFirstwordReg = a.getLsbD 0)
    (hbit : a.getLsbD 0 = true) (hp : s.prefetchedHighWord = false)
    (hrinst : s.core.main.memDoRinst = true) (hpre : s.core.main.memDoPrefetch = false) :
    Cycle p code a s i := by
  have hport := portStep_eq (p := p) h.resetn h.trap h.wdata h.clear_low
  rw [portCase, hs] at hport
  have hreq : (s.core.main.memDoPrefetch || s.core.main.memDoRinst) = true := by
    rw [hrinst, Bool.or_true]
  have hfirst : memLaFirstword s = true := by rw [memLaFirstword_eq ha, hbit, hreq, h2]; rfl
  have huse : memLaUsePrefetchedHighWord s i = false := by
    simp [memLaUsePrefetchedHighWord, hp]
  have hxfer : memXfer s i = i.memReady := by simp [memXfer, hv, huse]
  have hl' : s.lastMemValid = true → s.memLaFirstwordReg = memLaFirstword s := by
    intro hlast
    rw [hl hlast, hfirst, hbit]
  have hfx : memLaFirstwordXfer s i = i.memReady := by
    rw [memLaFirstwordXfer_eq hl', hfirst, Bool.and_true, hxfer]
  cases hready : i.memReady
  · -- the memory keeps the core waiting
    have hdone : memDone p s i = false := by simp [memDone, hxfer, hready, hs]
    have hread : memLaRead p s i = false := by simp [memLaRead, hs, hfx, hready]
    have hrest : portStep p s i = addressed p s i := by simp [hport, hxfer, hready]
    have hreg := memLaFirstwordReg_step (p := p) (i := i) h.resetn hl'
    refine ⟨fun hd => by simp [hdone] at hd, fun _ rinst rdata hr _ => ?_,
      fun _ _ hp => by simp [hpre] at hp⟩
    · refine .first (by rw [hr hrinst, Bool.or_true]) ?_ ?_ ?_ ?_ ?_
        (fun _ => by rw [hreg, hfirst, hbit]) (fun _ => ⟨?_, hr hrinst, hpre⟩)
      · simpa only [step, hrest, addressed] using hs
      · simpa only [step, hrest, addressed] using hv
      · simpa only [step, hrest, addressed] using h2
      · simpa only [step, hrest, addressed] using hi
      · simpa only [step, hrest, addressed, hread, Bool.false_eq_true, if_false] using haddr
      · simpa only [step, hrest, addressed] using hp
  · have hword : i.memRdata = code (a.extractLsb' 1 30) := by
      rw [hanswer hv hi hready, haddr, BitVec.extractLsb'_append_eq_left]
    have hhalf : i.memRdata.extractLsb' 16 16 = half code a := by rw [hword, half_of_high hbit]
    have hlatched : memRdataLatched p s i = i.highX ++ half code a := by
      simp [memRdataLatched, memRdataLatchedNoshuffle, huse, h2, hfirst, hxfer, hready, hhalf]
    have hlow : (memRdataLatched p s i).extractLsb' 0 16 = half code a := by
      rw [hlatched, BitVec.extractLsb'_append_eq_right]
    have hlong := isLong_of_low hlow
    have hread : memLaRead p s i = longAt code a := by
      simp [memLaRead, h.resetn, hs, hfx, hready, h2, hlong]
    have hdone : memDone p s i = !longAt code a := by
      simp [memDone, h.resetn, hxfer, hready, hs, hrinst, hfirst, hlong]
    cases hlg : longAt code a
    · -- a 16-bit instruction
      rw [hlg] at hread hdone
      have hend : portStep p s i = portRead p s i (addressed p s i) := by
        simp [hport, hxfer, hready]
      obtain ⟨hmem, hsecond⟩ := portRead_end (t := addressed p s i) hread
      refine ⟨fun _ => ⟨hrinst, ⟨hlow, fun hl => by simp [hlg] at hl⟩, ?_, ?_, ?_, fun hodd => ?_⟩,
        fun hd => by simp [hdone] at hd, fun hd => by simp [hdone] at hd⟩
      · simp only [step, hend, hmem, hrinst, Bool.true_or, if_true]
      · simp only [step, hend, hmem]
      · simp only [step, hend, hsecond]
      · rw [following, hlg, if_neg (by simp), bit_add_one, hbit] at hodd
        cases hodd
    · -- the second half is in the next word
      rw [hlg] at hread hdone
      have hend : portStep p s i =
          { addressed p s i with
            mem := { (addressed p s i).mem with memValid := true }
            secondword := true
            buffer := half code a } := by
        simp [hport, hxfer, hready, portRead, hread, huse, hhalf]
      have haddr' := memLaAddr_eq (i := i) ha hreq
      rw [hfx, hready] at haddr'
      refine ⟨fun hd => by simp [hdone] at hd, fun _ rinst rdata hr _ => ?_,
        fun _ _ hp => by simp [hpre] at hp⟩
      refine .second (hr hrinst) ?_ ?_ ?_ ?_ hbit ?_ (fun hlast => ?_) ?_ hlg
      · simpa only [step, hend, addressed] using hs
      · simp only [step, hend]
      · simp only [step, hend]
      · simpa only [step, hend, addressed] using hi
      · simp only [step, hend, addressed, hread, if_true, haddr']
        rfl
      · simp [step, hready] at hlast
      · simp only [step, hend]

/-- The upper half of a word from the buffer. -/
theorem cycle_high (h : Sequential s i) (ha : halfAddr (nextPc s.core) = a)
    (hr : (s.core.main.memDoPrefetch || s.core.main.memDoRinst) = true)
    (hs : s.core.mem.memState = .read) (hv : s.core.mem.memValid = false)
    (h2 : s.memLaSecondword = false) (hi : s.core.mem.memInstr = true)
    (hl : s.lastMemValid = false) (hbit : a.getLsbD 0 = true) (hp : s.prefetchedHighWord = true)
    (hb : s.mem16bitBuffer = half code a) : Cycle p code a s i := by
  have hport := portStep_eq (p := p) h.resetn h.trap h.wdata h.clear_low
  rw [portCase, hs] at hport
  have hfirst : memLaFirstword s = true := by rw [memLaFirstword_eq ha, hbit, hr, h2]; rfl
  have huse : memLaUsePrefetchedHighWord s i = true := by
    simp [memLaUsePrefetchedHighWord, hp, hfirst, h.clear_low]
  have hxfer : memXfer s i = s.core.main.memDoRinst := by simp [memXfer, hv, huse]
  have hfx : memLaFirstwordXfer s i = s.core.main.memDoRinst := by
    rw [memLaFirstwordXfer_eq (by simp [hl]), hfirst, Bool.and_true, hxfer]
  have hlow : (memRdataLatched p s i).extractLsb' 0 16 = half code a := by
    rw [memRdataLatched, if_pos huse, BitVec.extractLsb'_append_eq_right, hb]
  have hlong := isLong_of_low hlow
  have hread : memLaRead p s i = (s.core.main.memDoRinst && longAt code a) := by
    simp [memLaRead, h.resetn, hs, hfx, h2, hlong]
  have hdone : memDone p s i = (s.core.main.memDoRinst && !longAt code a) := by
    cases hrinst : s.core.main.memDoRinst <;>
      simp [memDone, h.resetn, hxfer, hs, hrinst, hfirst, hlong]
  cases hrinst : s.core.main.memDoRinst
  · -- the prefetch waits for the request
    have hrest : portStep p s i = addressed p s i := by simp [hport, hxfer, hrinst]
    rw [hrinst, Bool.false_and] at hdone
    refine ⟨fun hd => by simp [hdone] at hd, fun _ rinst rdata hr' _ => ?_,
      fun _ hr' => by simp [hrinst] at hr'⟩
    have hreq : (s.core.main.memDoPrefetch || rinst) = true := by
      rw [hrinst, Bool.or_false] at hr
      rw [hr, Bool.true_or]
    refine .high hreq ?_ ?_ ?_ ?_ (by simp [step, hv]) hbit ?_ ?_
    · simpa only [step, hrest, addressed] using hs
    · simpa only [step, hrest, addressed] using hv
    · simpa only [step, hrest, addressed] using h2
    · simpa only [step, hrest, addressed] using hi
    · simpa only [step, hrest, addressed] using hp
    · simpa only [step, hrest, addressed] using hb
  · rw [hrinst, Bool.true_and] at hread hdone
    -- a 16-bit instruction is all in the buffer, a longer one goes on in the next word
    cases hlg : longAt code a
    · rw [hlg] at hread hdone
      have hend : portStep p s i = portRead p s i (addressed p s i) := by
        simp [hport, hxfer, hrinst]
      obtain ⟨hmem, hsecond⟩ := portRead_end (t := addressed p s i) hread
      refine ⟨fun _ => ⟨hrinst, ⟨hlow, fun hl => by simp [hlg] at hl⟩, ?_, ?_, ?_, fun hodd => ?_⟩,
        fun hd => by simp [hdone] at hd, fun hd => by simp [hdone] at hd⟩
      · simp only [step, hend, hmem, hrinst, Bool.true_or, if_true]
      · simp only [step, hend, hmem]
      · simp only [step, hend, hsecond]
      · rw [following, hlg, if_neg (by simp), bit_add_one, hbit] at hodd
        cases hodd
    · rw [hlg] at hread hdone
      have hend : portStep p s i =
          { addressed p s i with
            mem := { (addressed p s i).mem with memValid := true }
            secondword := true } := by
        simp [hport, hxfer, hrinst, portRead, hread, huse]
      have haddr := memLaAddr_eq (i := i) ha hr
      rw [hfx, hrinst] at haddr
      refine ⟨fun hd => by simp [hdone] at hd, fun _ rinst rdata hr' _ => ?_,
        fun _ _ _ _ => ⟨?_, ?_, fun hlast => by simp [step, hv] at hlast⟩⟩
      · refine .second (hr' hrinst) ?_ ?_ ?_ ?_ hbit ?_ (fun hlast => ?_) ?_ hlg
        · simpa only [step, hend, addressed] using hs
        · simp only [step, hend]
        · simp only [step, hend]
        · simpa only [step, hend, addressed] using hi
        · simp only [step, hend, addressed, hread, if_true, haddr]
          rfl
        · simp [step, hv] at hlast
        · simpa only [step, hend, addressed] using hb
      · simpa only [step, hend, addressed] using hs
      · simp only [step, hend]

/-- The second half of an instruction across two words. -/
theorem cycle_second (h : Sequential s i) (hanswer : Answers code s i)
    (hrinst : s.core.main.memDoRinst = true)
    (hs : s.core.mem.memState = .read) (hv : s.core.mem.memValid = true)
    (h2 : s.memLaSecondword = true) (hi : s.core.mem.memInstr = true) (hbit : a.getLsbD 0 = true)
    (haddr : s.core.mem.memAddr = (a.extractLsb' 1 30 + 1) ++ 0#2)
    (hl : s.lastMemValid = true → s.memLaFirstwordReg = false)
    (hb : s.mem16bitBuffer = half code a) (hlong : longAt code a = true) : Cycle p code a s i := by
  have hport := portStep_eq (p := p) h.resetn h.trap h.wdata h.clear_low
  rw [portCase, hs] at hport
  have hfirst : memLaFirstword s = false := by simp [memLaFirstword, h2]
  have huse : memLaUsePrefetchedHighWord s i = false := by
    simp [memLaUsePrefetchedHighWord, hfirst]
  have hxfer : memXfer s i = i.memReady := by simp [memXfer, hv, huse]
  have hl' : s.lastMemValid = true → s.memLaFirstwordReg = memLaFirstword s := by
    intro hlast
    rw [hl hlast, hfirst]
  have hread : memLaRead p s i = false := by simp [memLaRead, hs, h2]
  cases hready : i.memReady
  · have hdone : memDone p s i = false := by simp [memDone, hxfer, hready, hs]
    have hrest : portStep p s i = addressed p s i := by simp [hport, hxfer, hready]
    have hreg := memLaFirstwordReg_step (p := p) (i := i) h.resetn hl'
    refine ⟨fun hd => by simp [hdone] at hd, fun _ rinst rdata hr _ => ?_,
      fun _ _ _ _ => ⟨?_, ?_, fun _ => by rw [hreg, hfirst]⟩⟩
    · refine .second (hr hrinst) ?_ ?_ ?_ ?_ hbit ?_ (fun _ => by rw [hreg, hfirst]) ?_ hlong
      · simpa only [step, hrest, addressed] using hs
      · simpa only [step, hrest, addressed] using hv
      · simpa only [step, hrest, addressed] using h2
      · simpa only [step, hrest, addressed] using hi
      · simpa only [step, hrest, addressed, hread, Bool.false_eq_true, if_false] using haddr
      · simpa only [step, hrest, addressed] using hb
    · simpa only [step, hrest, addressed] using hs
    · simpa only [step, hrest, addressed] using hv
  · have hword : i.memRdata = code (a.extractLsb' 1 30 + 1) := by
      rw [hanswer hv hi hready, haddr, BitVec.extractLsb'_append_eq_left]
    have hdone : memDone p s i = true := by
      simp [memDone, h.resetn, hxfer, hready, hs, hrinst, hfirst]
    have hlatched : memRdataLatched p s i = i.memRdata.extractLsb' 0 16 ++ half code a := by
      simp [memRdataLatched, memRdataLatchedNoshuffle, huse, h2, hxfer, hready, hb]
    -- the word of the second half leaves its upper half in the buffer
    have hend : portStep p s i =
        { mem := { (addressed p s i).mem with memValid := false, memState := .idle }
          secondword := false
          prefetchedHighWord := true
          buffer := i.memRdata.extractLsb' 16 16 } := by
      simp [hport, hxfer, hready, portRead, hread, h.rdata, h2, hrinst]
    refine ⟨fun _ => ⟨hrinst, ⟨?_, fun _ => ?_⟩, ?_, ?_, ?_, fun _ => ⟨?_, ?_⟩⟩,
      fun hd => by simp [hdone] at hd, fun hd => by simp [hdone] at hd⟩
    · rw [hlatched, BitVec.extractLsb'_append_eq_right]
    · rw [hlatched, BitVec.extractLsb'_append_eq_left, hword, half_add_one_high hbit]
    · simp only [step, hend]
    · simp only [step, hend]
    · simp only [step, hend]
    · simp only [step, hend]
    · simp only [step, hend, hword]
      rw [following, hlong, if_pos rfl, half_add_two_high hbit]

/-- The prefetched word waits for the request. -/
theorem cycle_held (h : Sequential s i) (ha : halfAddr (nextPc s.core) = a)
    (hp : s.core.main.memDoPrefetch = true)
    (hs : s.core.mem.memState = .prefetched) (hv : s.core.mem.memValid = false)
    (h2 : s.memLaSecondword = false) (hbit : a.getLsbD 0 = false)
    (hq : if p.latchedMemRdata then i.memRdata = code (a.extractLsb' 1 30)
      else s.core.mem.memRdataQ = code (a.extractLsb' 1 30))
    (hn : Ready code (following code a) s) : Cycle p code a s i := by
  have hport := portStep_eq (p := p) h.resetn h.trap h.wdata h.clear_low
  rw [portCase, hs] at hport
  have hfirst : memLaFirstword s = false := by rw [memLaFirstword_eq ha, hbit]; simp
  have huse : memLaUsePrefetchedHighWord s i = false := by
    simp [memLaUsePrefetchedHighWord, hfirst]
  have hxfer : memXfer s i = false := by simp [memXfer, hv, huse]
  have hdone : memDone p s i = s.core.main.memDoRinst := by
    simp [memDone, h.resetn, hxfer, hs, hfirst]
  have hlatched : memRdataLatched p s i = code (a.extractLsb' 1 30) := by
    cases hlat : p.latchedMemRdata <;> rw [hlat] at hq <;>
      simpa [memRdataLatched, memRdataLatchedNoshuffle, huse, h2, hfirst, hxfer, hlat] using hq
  -- the word waits in `mem_rdata_q`, or on the bus with `LATCHED_MEM_RDATA`
  cases hrinst : s.core.main.memDoRinst
  · rw [hrinst] at hdone
    have hrest : portStep p s i = addressed p s i := by simp [hport, hrinst]
    refine ⟨fun hd => by simp [hdone] at hd, fun _ rinst rdata _ hkeep => ?_,
      fun _ hr => by simp [hrinst] at hr⟩
    refine .held hp ?_ ?_ ?_ hbit ?_ (fun hodd => ?_)
    · simpa only [step, hrest, addressed] using hs
    · simpa only [step, hrest, addressed] using hv
    · simpa only [step, hrest, addressed] using h2
    · cases hlat : p.latchedMemRdata
      · rw [hlat] at hq
        simpa [step, hrest, addressed, memRdataQStep, hdone, hxfer] using hq
      · rw [hlat] at hq
        have hsame : rdata = i.memRdata :=
          hkeep hlat (by simpa only [step, hrest, addressed] using hv) fun hv' => by
            rw [hv] at hv'
            cases hv'
        simpa [hsame] using hq
    · simpa only [step, hrest, addressed] using hn hodd
  · rw [hrinst] at hdone
    have hend : portStep p s i =
        { addressed p s i with mem := { (addressed p s i).mem with memState := .idle } } := by
      simp [hport, hrinst]
    refine ⟨fun _ => ⟨hrinst, ?_, ?_, ?_, ?_, fun hodd => ?_⟩, fun hd => by simp [hdone] at hd,
      fun hd => by simp [hdone] at hd⟩
    · rw [hlatched]
      exact delivered_word hbit
    · simp only [step, hend]
    · simpa only [step, hend, addressed] using hv
    · simpa only [step, hend, addressed] using h2
    · simpa only [step, hend, addressed] using hn hodd

/-- A cycle in any mode. -/
theorem Fetching.cycle (h : Sequential s i) (ha : halfAddr (nextPc s.core) = a)
    (hanswer : Answers code s i)
    (hf : Fetching p code a s.core.main.memDoPrefetch s.core.main.memDoRinst i.memRdata s) :
    Cycle p code a s i := by
  -- one lemma for each mode of the access
  cases hf with
  | idle hs hv h2 hb hj =>
    have hdone : memDone p s i = false := by simp [memDone, hs]
    exact ⟨fun hd => by simp [hdone] at hd,
      fun _ rinst rdata hr _ => fetching_idle h ha hs hv h2 hb hj hr, fun _ _ _ hne => absurd hs hne⟩
  | first hr hs hv h2 hi haddr hl hj =>
    cases hbit : a.getLsbD 0
    · exact cycle_first_low h ha hanswer hr hs hv h2 hi haddr hl hbit
    · obtain ⟨hp, hrinst, hpre⟩ := hj hbit
      exact cycle_first_high h ha hanswer hs hv h2 hi haddr hl hbit hp hrinst hpre
  | high hr hs hv h2 hi hl hbit hp hb => exact cycle_high h ha hr hs hv h2 hi hl hbit hp hb
  | second hr hs hv h2 hi hbit haddr hl hb hlong =>
    exact cycle_second h hanswer hr hs hv h2 hi hbit haddr hl hb hlong
  | held hp hs hv h2 hbit hq hn => exact cycle_held h ha hp hs hv h2 hbit hq hn

/-- A prefetch that has begun leaves the interface at rest only when it is taken. -/
theorem prefetch_started (h : Sequential s i) (hp : s.core.main.memDoPrefetch = true)
    (hr : s.core.main.memDoRinst = false)
    (hf : Fetching p code a true false i.memRdata s) :
    (step p i s).core.mem.memState ≠ .idle := by
  have hport := portStep_eq (p := p) h.resetn h.trap h.wdata h.clear_low
  have hmem : (step p i s).core.mem = (portStep p s i).mem := rfl
  rw [hmem]
  cases hf with
  | idle hs hv h2 hb hj =>
    rw [portCase, hs] at hport
    simp [hport, portIdle, hp, h.wdata]
  | first hr' hs hv h2 hi haddr hl hj =>
    rw [portCase, hs] at hport
    cases hx : memXfer s i
    · simp [hport, hx, addressed, hs]
    · cases hread : memLaRead p s i
      · simp [hport, hx, (portRead_end hread).1, hr, h.rdata]
      · simp [hport, hx, portRead, hread, addressed, hs]
  | high hr' hs hv h2 hi hl hbit hh hb =>
    rw [portCase, hs] at hport
    cases hx : memXfer s i
    · simp [hport, hx, addressed, hs]
    · cases hread : memLaRead p s i
      · simp [hport, hx, (portRead_end hread).1, hr, h.rdata]
      · simp [hport, hx, portRead, hread, addressed, hs]
  | second hr' => cases hr'
  | held hp' hs hv h2 hbit hq hn =>
    rw [portCase, hs] at hport
    simp [hport, hr, addressed, hs]

/-! ## The other cycles -/

/-- No access is under way. -/
structure Rests (s : State) : Prop where
  idle : s.core.mem.memState = .idle
  valid : s.core.mem.memValid = false
  secondword : s.memLaSecondword = false

theorem Completed.rests (h : Completed code a s) : Rests s := ⟨h.idle, h.valid, h.secondword⟩

theorem Rests.not_done (h : Rests s) : memDone p s i = false := by
  simp [memDone, h.idle]

/-- Without a request there is no access. -/
theorem Fetching.rests {rdata : BitVec 32} (h : Fetching p code a false false rdata s) :
    Rests s := by
  cases h with
  | idle hs hv h2 => exact ⟨hs, hv, h2⟩
  | first hr => cases hr
  | high hr => cases hr
  | second hr => cases hr
  | held hp => cases hp

/-- A cycle without a request. -/
theorem quiet_cycle (hr : i.resetn = true) (ht : s.core.main.trap = false)
    (hq : s.core.main.memDoPrefetch = false ∧ s.core.main.memDoRinst = false
      ∧ s.core.main.memDoRdata = false ∧ s.core.main.memDoWdata = false) (h : Rests s) :
    Rests (step p i s) ∧ (clearPrefetchedHighWord s i = false →
      (step p i s).prefetchedHighWord = s.prefetchedHighWord
        ∧ (step p i s).mem16bitBuffer = s.mem16bitBuffer) := by
  obtain ⟨hp, hri, hd, hw⟩ := hq
  have hport := portStep_case (p := p) hr ht hw
  rw [portCase, h.idle] at hport
  have hrest : portIdle s i (addressed p s i) = addressed p s i := by
    simp [portIdle, hp, hri, hd, hw]
  rw [hrest] at hport
  refine ⟨⟨?_, ?_, ?_⟩, fun hclear => ?_⟩
  · cases hc : clearPrefetchedHighWord s i <;> simpa [step, hport, hc, addressed] using h.idle
  · cases hc : clearPrefetchedHighWord s i <;> simpa [step, hport, hc, addressed] using h.valid
  · cases hc : clearPrefetchedHighWord s i <;>
      simpa [step, hport, hc, addressed] using h.secondword
  · simp [step, hport, hclear, addressed]

theorem Completed.fetching (h : Completed code a s) {prefetch rinst : Bool} :
    Fetching p code (following code a) prefetch rinst rdata s :=
  .idle h.idle h.valid h.secondword (fun hodd _ => (h.ready hodd).2)
    fun hodd hp => by rw [(h.ready hodd).1] at hp; cases hp

/-- The cycle of a jump: the buffer is dropped, the access at the new program counter begins. -/
theorem start_cycle (hr : i.resetn = true) (ht : s.core.main.trap = false)
    (hd : s.core.main.memDoRdata = false) (hw : s.core.main.memDoWdata = false)
    (hp : s.core.main.memDoPrefetch = false) (hclear : clearPrefetchedHighWord s i = true)
    (hs : Rests s) {rinst : Bool}
    (ha : s.core.main.memDoRinst = true → rinst = true ∧ halfAddr (nextPc s.core) = a) :
    Fetching p code a false rinst rdata (step p i s) := by
  have hport := portStep_case (p := p) hr ht hw
  rw [hclear, if_pos rfl, portCase, hs.idle] at hport
  have huse : memLaUsePrefetchedHighWord s i = false := by
    simp [memLaUsePrefetchedHighWord, hclear]
  have hhigh : (step p i s).prefetchedHighWord = false := by simp only [step, hport]
  have hlast : (step p i s).lastMemValid = false := by simp [step, hs.valid]
  cases hrinst : s.core.main.memDoRinst
  · have hrest : (portStep p s i).mem = (addressed p s i).mem
        ∧ (portStep p s i).secondword = false := by
      simp [hport, portIdle, hp, hrinst, hd, hw, addressed, hs.secondword]
    refine .idle ?_ ?_ ?_ (fun _ hh => by rw [hhigh] at hh; cases hh) (fun _ _ => rfl)
    · simpa only [step, hrest.1, addressed] using hs.idle
    · simpa only [step, hrest.1, addressed] using hs.valid
    · simp only [step, hrest.2]
  · obtain ⟨hrinst', ha⟩ := ha hrinst
    have hreq : (s.core.main.memDoPrefetch || s.core.main.memDoRinst) = true := by
      rw [hrinst, Bool.or_true]
    have hread : memLaRead p s i = true := by simp [memLaRead, hr, huse, hs.idle, hrinst]
    have hfx : memLaFirstwordXfer s i = false := by
      simp [memLaFirstwordXfer, memXfer, hs.valid, huse]
    have haddr := memLaAddr_eq (i := i) ha hreq
    rw [hfx] at haddr
    have hbegin : (portStep p s i).mem =
          { (addressed p s i).mem with
            memValid := true, memInstr := true, memWstrb := 0, memState := .read }
        ∧ (portStep p s i).secondword = false := by
      simp [hport, portIdle, hrinst, hw, huse, addressed, hs.secondword]
    refine .first (by rw [hrinst', Bool.or_true]) ?_ ?_ ?_ ?_ ?_
      (fun hl => by rw [hlast] at hl; cases hl) (fun _ => ⟨hhigh, hrinst', rfl⟩)
    · simp only [step, hbegin.1]
    · simp only [step, hbegin.1]
    · simp only [step, hbegin.2]
    · simp only [step, hbegin.1]
    · simp only [step, hbegin.1, addressed, hread, if_true, haddr]
      simp

/-- A load or a store: at rest, or waiting for the memory. -/
inductive Accessing (s : State) : Prop
  | rests (h : Rests s)
  | busy (hs : s.core.mem.memState = .read ∧ s.core.main.memDoRdata = true
      ∨ s.core.mem.memState = .write ∧ s.core.main.memDoWdata = true)
      (hv : s.core.mem.memValid = true) (h2 : s.memLaSecondword = false)
      (hl : s.lastMemValid = true → s.memLaFirstwordReg = false)

/-- The requests of a load or a store. -/
structure DataRequest (m : Main) : Prop where
  prefetch : m.memDoPrefetch = false
  rinst : m.memDoRinst = false
  data : m.memDoRdata = true ∧ m.memDoWdata = false ∨ m.memDoRdata = false ∧ m.memDoWdata = true

@[simp] theorem write_bne_idle : (MemState.write != MemState.idle) = true := by decide

@[simp] theorem write_beq_prefetched : (MemState.write == MemState.prefetched) = false := by decide

/-- What a cycle of a load or a store does to the interface. -/
structure AccessCycle (p : Params) (s : State) (i : Inputs) : Prop where
  done : memDone p s i = true → Rests (step p i s)
  going : memDone p s i = false →
    (step p i s).core.main.memDoRdata = s.core.main.memDoRdata →
    (step p i s).core.main.memDoWdata = s.core.main.memDoWdata → Accessing (step p i s)
  high : (step p i s).prefetchedHighWord = s.prefetchedHighWord
  buffer : (step p i s).mem16bitBuffer = s.mem16bitBuffer

theorem access_cycle_read (hr : i.resetn = true) (ht : s.core.main.trap = false)
    (hp : s.core.main.memDoPrefetch = false) (hrinst : s.core.main.memDoRinst = false)
    (hd : s.core.main.memDoRdata = true) (hw : s.core.main.memDoWdata = false)
    (hclear : clearPrefetchedHighWord s i = false) (h : Accessing s) : AccessCycle p s i := by
  have hfirst : memLaFirstword s = false := by simp [memLaFirstword, hp, hrinst]
  have huse : memLaUsePrefetchedHighWord s i = false := by
    simp [memLaUsePrefetchedHighWord, hfirst]
  have hxfer : memXfer s i = (s.core.mem.memValid && i.memReady) := by simp [memXfer, huse]
  have hport := portStep_eq (p := p) hr ht hw hclear
  cases h with
  | rests hs =>
    rw [portCase, hs.idle] at hport
    -- the access begins
    have hbegin : portStep p s i =
        { addressed p s i with
          mem :=
            { (addressed p s i).mem with
              memValid := true, memInstr := false, memWstrb := 0, memState := .read } } := by
      simp [hport, portIdle, hp, hrinst, hd, hw, huse]
    refine ⟨fun h => by simp [hs.not_done] at h, fun _ hkeep _ => ?_, ?_, ?_⟩
    · refine .busy (.inl ⟨?_, hkeep.trans hd⟩) ?_ ?_ (fun hlast => ?_)
      · simp only [step, hbegin]
      · simp only [step, hbegin]
      · simpa only [step, hbegin, addressed] using hs.secondword
      · simp [step, hs.valid] at hlast
    · simp only [step, hbegin, addressed]
    · simp only [step, hbegin, addressed]
  | busy hs hv h2 hl =>
    obtain ⟨hs, -⟩ := hs.resolve_right (by simp [hw])
    have hl' : s.lastMemValid = true → s.memLaFirstwordReg = memLaFirstword s := by
      rw [hfirst]
      exact hl
    have hread : memLaRead p s i = false := by
      simp [memLaRead, hs, memLaFirstwordXfer_eq hl', hfirst]
    have hdone : memDone p s i = i.memReady := by
      simp [memDone, hr, hxfer, hv, hs, hd, hfirst]
    rw [portCase, hs] at hport
    cases hready : i.memReady
    · rw [hready] at hdone
      have hrest : portStep p s i = addressed p s i := by simp [hport, hxfer, hready]
      have hreg := memLaFirstwordReg_step (p := p) (i := i) hr hl'
      refine ⟨fun h => by simp [hdone] at h, fun _ hkeep _ => ?_, ?_, ?_⟩
      · refine .busy (.inl ⟨?_, hkeep.trans hd⟩) ?_ ?_ (fun _ => by rw [hreg, hfirst])
        · simpa only [step, hrest, addressed] using hs
        · simpa only [step, hrest, addressed] using hv
        · simpa only [step, hrest, addressed] using h2
      · simp only [step, hrest, addressed]
      · simp only [step, hrest, addressed]
    · rw [hready] at hdone
      -- its answer ends it, and no second word is read for data
      have hend : portStep p s i =
          { addressed p s i with
            mem := { (addressed p s i).mem with memValid := false, memState := .idle }
            secondword := false } := by
        simp [hport, hxfer, hv, hready, portRead, hread, hd]
      refine ⟨fun _ => ⟨?_, ?_, ?_⟩, fun h => by simp [hdone] at h, ?_, ?_⟩
      · simp only [step, hend]
      · simp only [step, hend]
      · simp only [step, hend]
      · simp only [step, hend, addressed]
      · simp only [step, hend, addressed]

theorem access_cycle_write (hr : i.resetn = true) (ht : s.core.main.trap = false)
    (hp : s.core.main.memDoPrefetch = false) (hrinst : s.core.main.memDoRinst = false)
    (hd : s.core.main.memDoRdata = false) (hw : s.core.main.memDoWdata = true)
    (hclear : clearPrefetchedHighWord s i = false) (h : Accessing s) : AccessCycle p s i := by
  have hfirst : memLaFirstword s = false := by simp [memLaFirstword, hp, hrinst]
  have huse : memLaUsePrefetchedHighWord s i = false := by
    simp [memLaUsePrefetchedHighWord, hfirst]
  have hxfer : memXfer s i = (s.core.mem.memValid && i.memReady) := by simp [memXfer, huse]
  cases h with
  | rests hs =>
    have hport : (portStep p s i).mem.memState = .write ∧ (portStep p s i).mem.memValid = true
        ∧ (portStep p s i).secondword = false
        ∧ (portStep p s i).prefetchedHighWord = s.prefetchedHighWord
        ∧ (portStep p s i).buffer = s.mem16bitBuffer := by
      simp [portStep, portIdle, hr, ht, hclear, hs.idle, hs.secondword, hp, hrinst, hd, hw,
        memLaWrite]
    obtain ⟨hstate, hvalid, hsecond, hhigh, hbuffer⟩ := hport
    refine ⟨fun h => by simp [hs.not_done] at h, fun _ _ hkeep => ?_, hhigh, hbuffer⟩
    exact .busy (.inr ⟨hstate, hkeep.trans hw⟩) hvalid hsecond
      fun hlast => by simp [step, hs.valid] at hlast
  | busy hs hv h2 hl =>
    obtain ⟨hs, -⟩ := hs.resolve_left (by simp [hd])
    have hl' : s.lastMemValid = true → s.memLaFirstwordReg = memLaFirstword s := by
      rw [hfirst]
      exact hl
    have hread : memLaRead p s i = false := by
      simp [memLaRead, hs, memLaFirstwordXfer_eq hl', hfirst]
    have hwrite : memLaWrite s i = false := by simp [memLaWrite, hs]
    have hdone : memDone p s i = i.memReady := by
      simp [memDone, hr, hxfer, hv, hs, hw, hfirst]
    have hreg := memLaFirstwordReg_step (p := p) (i := i) hr hl'
    have hport : (portStep p s i).mem.memState = (if i.memReady then .idle else .write)
        ∧ (portStep p s i).mem.memValid = !i.memReady
        ∧ (portStep p s i).secondword = false
        ∧ (portStep p s i).prefetchedHighWord = s.prefetchedHighWord
        ∧ (portStep p s i).buffer = s.mem16bitBuffer := by
      cases hready : i.memReady <;>
        simp [portStep, hr, ht, hclear, hs, h2, hread, hwrite, hxfer, hv, hready]
    obtain ⟨hstate, hvalid, hsecond, hhigh, hbuffer⟩ := hport
    refine ⟨fun h => ?_, fun h _ hkeep => ?_, hhigh, hbuffer⟩ <;> rw [hdone] at h <;>
      rw [h] at hstate hvalid
    · exact ⟨hstate, hvalid, hsecond⟩
    · exact .busy (.inr ⟨hstate, hkeep.trans hw⟩) hvalid hsecond fun _ => by rw [hreg, hfirst]

/-- A cycle of a load or a store leaves the buffer alone. -/
theorem access_cycle (hr : i.resetn = true) (ht : s.core.main.trap = false)
    (hd : DataRequest s.core.main) (hclear : clearPrefetchedHighWord s i = false)
    (h : Accessing s) : AccessCycle p s i := by
  rcases hd.data with ⟨hrd, hwd⟩ | ⟨hrd, hwd⟩
  · exact access_cycle_read hr ht hd.prefetch hd.rinst hrd hwd hclear h
  · exact access_cycle_write hr ht hd.prefetch hd.rinst hrd hwd hclear h

/-- The access of the instruction behind a taken branch, whose word is not used. -/
inductive Discarding (s : State) : Prop
  | rests (h : Rests s)
  | busy (hs : s.core.mem.memState = .read) (hv : s.core.mem.memValid = true)
      (hl : s.lastMemValid = true → s.memLaFirstwordReg = true → memLaFirstword s = true)

/-- The discarded access comes to an end; `hnext` says that the target of the branch stays. -/
theorem discard_cycle (hr : i.resetn = true) (ht : s.core.main.trap = false)
    (hw : s.core.main.memDoWdata = false) (hrinst : s.core.main.memDoRinst = true)
    (hclear : clearPrefetchedHighWord s i = true)
    (hrinst' : (step p i s).core.main.memDoRinst = true)
    (hnext : memDone p s i = false →
      halfAddr (nextPc (step p i s).core) = halfAddr (nextPc s.core)) (h : Discarding s) :
    (memDone p s i = true → Rests (step p i s))
      ∧ (memDone p s i = false → Discarding (step p i s)) := by
  have hport := portStep_case (p := p) hr ht hw
  rw [hclear, if_pos rfl] at hport
  have huse : memLaUsePrefetchedHighWord s i = false := by
    simp [memLaUsePrefetchedHighWord, hclear]
  cases h with
  | rests hs =>
    rw [portCase, hs.idle] at hport
    refine ⟨fun h => by simp [hs.not_done] at h, fun _ => .busy ?_ ?_ fun hl => ?_⟩
    · simp [step, hport, portIdle, hrinst, hw]
    · simp [step, hport, portIdle, hrinst, hw, huse]
    · simp [step, hs.valid] at hl
  | busy hs hv hl =>
    have hxfer : memXfer s i = i.memReady := by simp [memXfer, hv, huse]
    rw [portCase, hs] at hport
    cases hready : i.memReady
    · have hrest : (portStep p s i).mem = (addressed p s i).mem
          ∧ (portStep p s i).secondword = s.memLaSecondword := by
        simp [hport, hxfer, hready, addressed]
      have hdone : memDone p s i = false := by simp [memDone, hxfer, hready, hs]
      refine ⟨fun h => by simp [hdone] at h, fun _ => .busy ?_ ?_ fun _ hreg => ?_⟩
      · simpa only [step, hrest.1, addressed] using hs
      · simpa only [step, hrest.1, addressed] using hv
      · -- the branch target decides `mem_la_firstword`, so it stays as it was
        have hfirst : memLaFirstword s = true := by
          cases hlast : s.lastMemValid
          · simpa [step, hr, hlast] using hreg
          · exact hl hlast (by simpa [step, hr, hlast] using hreg)
        rw [memLaFirstword_eq rfl, hrinst, Bool.or_true, Bool.true_and] at hfirst
        rw [memLaFirstword_eq (hnext hdone), hrinst', Bool.or_true, Bool.true_and]
        simpa only [step, hrest.2] using hfirst
    · cases hread : memLaRead p s i
      · obtain ⟨hmem, hsecond⟩ := portRead_end (t := addressed p s i) hread
        have hrests : Rests (step p i s) := by
          refine ⟨?_, ?_, ?_⟩ <;> simp [step, hport, hxfer, hready, hmem, hsecond, hrinst]
        exact ⟨fun _ => hrests, fun _ => .rests hrests⟩
      · -- the second access, while `mem_done` is low
        obtain ⟨⟨hfx, -⟩, hlong⟩ : (memLaFirstwordXfer s i = true ∧ s.memLaSecondword = false)
            ∧ isLong (memRdataLatched p s i) = true := by
          simpa [memLaRead, hr, hs] using hread
        have hfirst : memLaFirstword s = true := by
          cases hlast : s.lastMemValid
          · simpa [memLaFirstwordXfer, hxfer, hready, hlast] using hfx
          · exact hl hlast (by simpa [memLaFirstwordXfer, hxfer, hready, hlast] using hfx)
        have hdone : memDone p s i = false := by simp [memDone, hfirst, hlong]
        refine ⟨fun h => by simp [hdone] at h, fun _ => .busy ?_ ?_ fun hlast => ?_⟩
        · simp [step, hport, hxfer, hready, portRead, hread, addressed, hs]
        · simp [step, hport, hxfer, hready, portRead, hread]
        · simp [step, hready] at hlast

end PicoSoc.Picorv32.Rvc
