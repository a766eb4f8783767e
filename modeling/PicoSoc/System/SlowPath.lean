import PicoSoc.Library.Clocked
import PicoSoc.System.Bus

set_option autoImplicit false

/-! # The slow bus path against the fast one

The reference for an access is one cycle of `gen_fast_mem` with the access on the look-ahead
signals. `gen_slow_mem` holds the same access on `mem_valid` until it raises `mem_ready`. -/

namespace PicoSoc.System

open Bytes Clocked

/-! ## The two decoders -/

theorem eq_append_iff (addr : BitVec 32) (hi : BitVec 24) (lo : BitVec 8) :
    addr = hi ++ lo ↔ page addr = hi ∧ offset addr = lo := by
  constructor
  · rintro rfl
    constructor
    · apply BitVec.eq_of_getLsbD_eq
      intro j hj
      simp only [page, BitVec.getLsbD_extractLsb', hj, decide_true, Bool.true_and,
        BitVec.getLsbD_append, show ¬ 8 + j < 8 by omega, if_false, Nat.add_sub_cancel_left]
    · apply BitVec.eq_of_getLsbD_eq
      intro j hj
      simp only [offset, BitVec.getLsbD_extractLsb', hj, decide_true, Bool.true_and,
        BitVec.getLsbD_append, Nat.zero_add, if_true]
  · rintro ⟨rfl, rfl⟩
    apply BitVec.eq_of_getLsbD_eq
    intro j hj
    rw [BitVec.getLsbD_append]
    by_cases h : j < 8
    · simp [offset, h]
    · simp [page, h, show j - 8 < 24 by omega, show 8 + (j - 8) = j by omega]

/-- A table of whole addresses that all lie in one page is the table of their offsets. -/
theorem onLabel_page {α : Type} (hi : BitVec 24)
    (table : List (BitVec 8 × (BitVec 32 → α → α))) (addr d : BitVec 32) (x : α) :
    onLabel (table.map fun e => (hi ++ e.1, e.2)) addr d x =
      if page addr = hi then onLabel table (offset addr) d x else x := by
  unfold onLabel
  induction table with
  | nil => simp
  | cons e table ih =>
      rw [List.map_cons, List.lookup_cons, List.lookup_cons]
      by_cases h : addr = hi ++ e.1
      · obtain ⟨hpage, hoffset⟩ := (eq_append_iff _ _ _).1 h
        rw [if_pos hpage, hoffset, beq_self_eq_true, h, beq_self_eq_true]
      · have hne : (addr == hi ++ e.1) = false := by simpa using h
        rw [hne, ih]
        by_cases hpage : page addr = hi
        · have hlo : (offset addr == e.1) = false := by
            simpa using fun hlo => h ((eq_append_iff _ _ _).2 ⟨hpage, hlo⟩)
          rw [if_pos hpage, if_pos hpage, hlo]
        · rw [if_neg hpage, if_neg hpage]

theorem onLabel_fastJambu (addr d : BitVec 32) (x : JambuRegs) :
    onLabel fastJambuWrites addr d x =
      if page addr = jambuPage then onLabel slowJambuWrites (offset addr) d x else x := by
  have htable : fastJambuWrites = slowJambuWrites.map fun e => (jambuPage ++ e.1, e.2) := rfl
  rw [htable]
  exact onLabel_page _ _ _ _ _

theorem onLabel_fastXoodyak (addr d : BitVec 32) (x : XoodyakRegs) :
    onLabel fastXoodyakWrites addr d x =
      if page addr = xoodyakPage then onLabel slowXoodyakWrites (offset addr) d x else x := by
  have htable : fastXoodyakWrites = slowXoodyakWrites.map fun e => (xoodyakPage ++ e.1, e.2) := rfl
  rw [htable]
  exact onLabel_page _ _ _ _ _

theorem onLabel_fastCofb (addr d : BitVec 32) (x : CofbRegs) :
    onLabel fastCofbWrites addr d x =
      if page addr = cofbPage then onLabel slowCofbWrites (offset addr) d x else x := by
  have htable : fastCofbWrites = slowCofbWrites.map fun e => (cofbPage ++ e.1, e.2) := rfl
  rw [htable]
  exact onLabel_page _ _ _ _ _

/-- LED, UART and SD SPI. -/
def ioLabels : List (BitVec 32) :=
  [0x10000000, 0x10000004, 0x10000010, 0x60000000, 0x60000008, 0x6000000C]

theorem fastIo_labels (p : Periph) (old : Regs) (strb : BitVec 4) :
    (fastIoWrites p old strb).map Prod.fst = ioLabels := rfl

def uartTx : BitVec 32 := 0x10000004

/-- The two tables differ in the timer that an accepted UART byte starts. -/
theorem slowIo_lookup (p : Periph) {old : Regs} (strb : BitVec 4) {addr : BitVec 32}
    (h : addr = uartTx → old.uart.txBusy = true) :
    (slowIoWrites p old strb).lookup addr = (fastIoWrites p old strb).lookup addr := by
  by_cases haddr : addr = uartTx
  · have htx (timer : BitVec 16) : uartTxWrite timer old = fun _ r => r := by
      funext d r
      rw [uartTxWrite, if_pos (h haddr)]
    rw [slowIoWrites, fastIoWrites, htx, htx]
  · have hne : (addr == 0x10000004) = false := by simpa [uartTx] using haddr
    simp only [slowIoWrites, fastIoWrites, List.lookup_cons, hne]

theorem page_ioLabels {addr : BitVec 32} (h : addr ∈ ioLabels) :
    page addr ≠ jambuPage ∧ page addr ≠ xoodyakPage ∧ page addr ≠ cofbPage := by
  have hpages : ∀ k ∈ ioLabels, page k ≠ jambuPage ∧ page k ≠ xoodyakPage ∧ page k ≠ cofbPage := by
    simp [ioLabels, page, jambuPage, xoodyakPage, cofbPage]
  exact hpages addr h

/-- The peripheral part of `fastWrite`, by pages. -/
theorem fastWrite_eq (p : Periph) (old : Regs) {a : Access} (r : Regs) (happ : ¬ InApp a.addr) :
    fastWrite p old a r =
      let r := onLabel (fastIoWrites p old a.wstrb) a.addr a.wdata r
      { r with
        jb := if page a.addr = jambuPage then
            onLabel slowJambuWrites (offset a.addr) a.wdata r.jb else r.jb
        xd := if page a.addr = xoodyakPage then
            onLabel slowXoodyakWrites (offset a.addr) a.wdata r.xd else r.xd
        gc := if page a.addr = cofbPage then
            onLabel slowCofbWrites (offset a.addr) a.wdata r.gc else r.gc } := by
  simp only [fastWrite, if_neg happ, onLabel_fastJambu, onLabel_fastXoodyak, onLabel_fastCofb]

/-! ## Accesses -/

/-- A native access on the look-ahead signals; one without strobes is a read. -/
def Access.la (a : Access) : LookAhead := { a with laRead := a.wstrb == 0, laWrite := a.wstrb != 0 }

/-- The addresses that have a branch in `gen_slow_mem`. -/
def Access.Decoded (a : Access) : Prop :=
  if a.wstrb = 0 then a.addr < 0x00020000 ∨ a.addr ∈ readLabels
  else InApp a.addr ∨ a.addr ∈ ioLabels ∨
    page a.addr = jambuPage ∨ page a.addr = xoodyakPage ∨ page a.addr = cofbPage

instance (a : Access) : Decidable a.Decoded :=
  inferInstanceAs (Decidable (if a.wstrb = 0 then _ ∨ _ else _ ∨ _ ∨ _ ∨ _ ∨ _))

/-- A byte for the UART while its timer is stopped. -/
def Access.StartsTimer (a : Access) (s : Bus) : Prop :=
  a.wstrb ≠ 0 ∧ a.addr = uartTx ∧ s.regs.uart.txBusy = false

/-- Between two accesses. -/
structure Bus.Rest (s : Bus) : Prop where
  memReady : s.memReady = false
  mReadEn : s.mReadEn = false

section
variable (boot : Ram bootSize)

/-- The access on the look-ahead signals of the fast path. -/
def fastAccess (a : Access) (p : Periph) (s : Bus) : Bus := s.fastStep boot true p a.la

/-- The slow path with the access held on `mem_valid`. -/
def slowHeld (a : Access) (p : Periph) (s : Bus) : Bus := s.slowStep boot true p true a

/-- The access is answered in cycle `k`, for a read with the data of the fast path, and changes the
    registers as the fast path does, once. -/
structure RefinedIn (a : Access) (p : ℕ → Periph) (s : Bus) (k : ℕ) : Prop where
  answered : FirstDone (slowHeld boot a) p s Bus.memReady k
  memRdata : a.wstrb = 0 →
    (run (slowHeld boot a) p s k).memRdata = (fastAccess boot a (p 0) s).memRdata
  regs : (slowHeld boot a (p 0) s).regs = (fastAccess boot a (p 0) s).regs
  once : ∀ j, 0 < j → j ≤ k →
    (run (slowHeld boot a) p s (j + 1)).regs = (run (slowHeld boot a) p s j).regs.idle

def Refined (a : Access) (p : ℕ → Periph) (s : Bus) : Prop := ∃ k ≤ 3, RefinedIn boot a p s k

variable {boot}

/-! ### Reads -/

theorem selected {s : Bus} (hs : s.memReady = false) : (true && !s.memReady) = true := by
  rw [hs]
  rfl

theorem slowHeld_bram {a : Access} (hread : a.wstrb = 0) (haddr : a.addr < 0x00020000) (p : Periph)
    {s : Bus} (hs : s.memReady = false) :
    slowHeld boot a p s = { s.slowIdle boot true true a with mReadEn := true } := by
  rw [slowHeld, Bus.slowStep, if_pos (selected hs)]
  exact (if_pos hread).trans (if_pos haddr)

theorem slowHeld_read {a : Access} (hread : a.wstrb = 0) (haddr : ¬ a.addr < 0x00020000)
    (p : Periph) {s : Bus} (hs : s.memReady = false) :
    slowHeld boot a p s =
      match (fastReads p s.regs).lookup a.addr with
      | some d =>
          ((s.slowIdle boot true true a).acknowledge
            (if a.addr = 0x10000008 then s.regs.idle.rxRead else s.regs.idle)).answer d
      | none => s.slowIdle boot true true a := by
  rw [slowHeld, Bus.slowStep, if_pos (selected hs)]
  exact (if_pos hread).trans (if_neg haddr)

/-! ### Writes -/

/-- The registers after a write that has a branch. -/
theorem slowHeld_write {a : Access} (hwrite : a.wstrb ≠ 0) (p : Periph) {s : Bus}
    (hs : s.memReady = false) (htimer : ¬ a.StartsTimer s) :
    slowHeld boot a p s =
      if a.Decoded then
        (s.slowIdle boot true true a).acknowledge (fastWrite p s.regs a s.regs.idle)
      else s.slowIdle boot true true a := by
  -- a write that starts no timer finds the transmitter busy
  have hbusy : a.addr = uartTx → s.regs.uart.txBusy = true := by
    intro haddr
    by_contra hfree
    exact htimer ⟨hwrite, haddr, by simpa using hfree⟩
  have hdecoded : a.Decoded ↔ InApp a.addr ∨ a.addr ∈ ioLabels ∨
      page a.addr = jambuPage ∨ page a.addr = xoodyakPage ∨ page a.addr = cofbPage := by
    rw [Access.Decoded, if_neg hwrite]
  have hio := slowIo_lookup p a.wstrb hbusy
  rw [slowHeld, Bus.slowStep, if_pos (selected hs), if_neg hwrite, hio]
  -- the branches of the decoder in its order
  by_cases happ : InApp a.addr
  · rw [if_pos happ, if_pos (hdecoded.2 (.inl happ)), fastWrite, if_pos happ]
    rfl
  · rw [if_neg happ, fastWrite_eq p s.regs s.regs.idle happ]
    cases hlookup : (fastIoWrites p s.regs a.wstrb).lookup a.addr with
    | some f =>
        have hmem : a.addr ∈ ioLabels := by
          by_contra hnot
          rw [← fastIo_labels p s.regs a.wstrb] at hnot
          rw [lookup_eq_none_iff.2 hnot] at hlookup
          exact absurd hlookup (Option.some_ne_none f).symm
        obtain ⟨hjb, hxd, hgc⟩ := page_ioLabels hmem
        rw [if_pos (hdecoded.2 (.inr (.inl hmem))), onLabel_of_some hlookup]
        simp only [if_neg hjb, if_neg hxd, if_neg hgc]
        rfl
    | none =>
        have hnot : a.addr ∉ ioLabels := lookup_eq_none_iff.1 hlookup
        rw [onLabel_of_none hlookup]
        by_cases hjb : page a.addr = jambuPage
        · have hxd : page a.addr ≠ xoodyakPage := by rw [hjb]; decide
          have hgc : page a.addr ≠ cofbPage := by rw [hjb]; decide
          simp only [if_pos (hdecoded.2 (.inr (.inr (.inl hjb)))), if_pos hjb, if_neg hxd,
            if_neg hgc]
          rfl
        · by_cases hxd : page a.addr = xoodyakPage
          · have hgc : page a.addr ≠ cofbPage := by rw [hxd]; decide
            simp only [if_pos (hdecoded.2 (.inr (.inr (.inr (.inl hxd))))), if_neg hjb, if_pos hxd,
              if_neg hgc]
            rfl
          · by_cases hgc : page a.addr = cofbPage
            · simp only [if_pos (hdecoded.2 (.inr (.inr (.inr (.inr hgc))))), if_neg hjb,
                if_neg hxd, if_pos hgc]
              rfl
            · have hnone : ¬ a.Decoded := by
                rw [hdecoded]
                rintro (h | h | h | h | h)
                exacts [happ h, hnot h, hjb h, hxd h, hgc h]
              simp only [if_neg hnone, if_neg hjb, if_neg hxd, if_neg hgc]

/-- The cycle in which the CPU takes the answer. -/
theorem slowHeld_ready (a : Access) (p : Periph) {s : Bus} (hs : s.memReady = true) :
    slowHeld boot a p s = s.slowIdle boot true true a := by
  simp [slowHeld, Bus.slowStep, hs]

/-! ### The reference -/

theorem fastAccess_regs_read {a : Access} (hread : a.wstrb = 0) (p : Periph) (s : Bus) :
    (fastAccess boot a p s).regs =
      if a.addr = 0x10000008 then s.regs.idle.rxRead else s.regs.idle := by
  simp [fastAccess, Bus.fastStep, Access.la, hread]

theorem fastAccess_regs_write {a : Access} (hwrite : a.wstrb ≠ 0) (p : Periph) (s : Bus) :
    (fastAccess boot a p s).regs = fastWrite p s.regs a s.regs.idle := by
  have hstrb : ¬ a.wstrb = 0#4 := hwrite
  simp [fastAccess, Bus.fastStep, Access.la, hstrb]

theorem fastAccess_memRdata {a : Access} (hread : a.wstrb = 0) (p : Periph) (s : Bus) :
    (fastAccess boot a p s).memRdata =
      ((fastReads p s.regs).lookup a.addr).or (bramRead boot s.regs.appMem a.addr) := by
  simp [fastAccess, Bus.fastStep, Access.la, hread]

/-! ### One access -/

theorem slowIdle_idle (valid : Bool) (a : Access) {s : Bus} (hs : s.mReadEn = false) :
    (s.slowIdle boot true valid a).memReady = false ∧
      (s.slowIdle boot true valid a).mReadEn = false := by
  simp [Bus.slowIdle, hs]

/-- Without a branch the answer never comes. -/
theorem never_ready {a : Access} (ha : ¬ a.Decoded) (p : ℕ → Periph) {s : Bus} (hs : s.Rest) (k : ℕ) :
    (run (slowHeld boot a) p s k).Rest := by
  induction k with
  | zero => exact hs
  | succ k ih =>
      have hstep : slowHeld boot a (p k) (run (slowHeld boot a) p s k) =
          (run (slowHeld boot a) p s k).slowIdle boot true true a := by
        by_cases hread : a.wstrb = 0
        · rw [Access.Decoded, if_pos hread, not_or] at ha
          have hlookup : (fastReads (p k) (run (slowHeld boot a) p s k).regs).lookup a.addr = none := by
            rw [lookup_eq_none_iff, fastReads_labels]
            exact ha.2
          rw [slowHeld_read hread ha.1 _ ih.memReady, hlookup]
        · have htimer : ¬ a.StartsTimer (run (slowHeld boot a) p s k) := by
            rintro ⟨-, haddr, -⟩
            rw [Access.Decoded, if_neg hread, haddr] at ha
            exact ha (.inr (.inl (by decide)))
          rw [slowHeld_write hread _ ih.memReady htimer, if_neg ha]
      rw [run_succ, hstep]
      exact ⟨(slowIdle_idle true a ih.mReadEn).1, (slowIdle_idle true a ih.mReadEn).2⟩

/-- An access that is answered in its first cycle. -/
theorem refined_of_ready {a : Access} {p : ℕ → Periph} {s : Bus}
    (hready : (slowHeld boot a (p 0) s).memReady = true)
    (hdata : a.wstrb = 0 → (slowHeld boot a (p 0) s).memRdata = (fastAccess boot a (p 0) s).memRdata)
    (hregs : (slowHeld boot a (p 0) s).regs = (fastAccess boot a (p 0) s).regs) :
    RefinedIn boot a p s 1 := by
  refine ⟨⟨by decide, hready, fun k hk hk1 => by omega⟩, hdata, hregs, ?_⟩
  intro j hj hj1
  obtain rfl : j = 1 := by omega
  rw [run_succ, slowHeld_ready a (p 1) (s := run (slowHeld boot a) p s 1) hready]
  rfl

theorem readLabels_not_bram {addr : BitVec 32} (h : addr ∈ readLabels) : ¬ addr < 0x00020000 := by
  have hlabels : ∀ k ∈ readLabels, ¬ k < 0x00020000 := by simp [readLabels]
  exact hlabels addr h

/-- The memory read takes two cycles. -/
theorem refined_bram {a : Access} (hread : a.wstrb = 0) (haddr : a.addr < 0x00020000)
    (p : ℕ → Periph) {s : Bus} (hs : s.Rest) : RefinedIn boot a p s 2 := by
  have hne : a.addr ≠ 0x10000008 := by
    rintro h
    rw [h] at haddr
    exact absurd haddr (by decide)
  have hlookup : (fastReads (p 0) s.regs).lookup a.addr = none := by
    rw [lookup_eq_none_iff, fastReads_labels]
    exact fun hmem => readLabels_not_bram hmem haddr
  have hrun₁ : run (slowHeld boot a) p s 1 = { s.slowIdle boot true true a with mReadEn := true } :=
    slowHeld_bram hread haddr (p 0) hs.memReady
  have hlow : (run (slowHeld boot a) p s 1).memReady = false := by
    rw [hrun₁]
    show (s.slowIdle boot true true a).memReady = false
    exact (slowIdle_idle true a hs.mReadEn).1
  have hrun₂ : run (slowHeld boot a) p s 2 =
      { (run (slowHeld boot a) p s 1).slowIdle boot true true a with mReadEn := true } :=
    slowHeld_bram hread haddr (p 1) hlow
  have hready : (run (slowHeld boot a) p s 2).memReady = true := by
    rw [hrun₂, hrun₁]
    simp [Bus.slowIdle, hs.mReadEn]
  refine ⟨⟨by decide, hready, ?_⟩, ?_, ?_, ?_⟩
  · intro k hk hk2
    obtain rfl : k = 1 := by omega
    exact hlow
  · intro _
    rw [fastAccess_memRdata hread, hlookup, Option.none_or, hrun₂, hrun₁]
    rfl
  · rw [fastAccess_regs_read hread, if_neg hne, slowHeld_bram hread haddr (p 0) hs.memReady]
    rfl
  · intro j hj hj2
    have hcases : j = 1 ∨ j = 2 := by omega
    rcases hcases with rfl | rfl
    · rw [hrun₂]
      rfl
    · rw [run_succ, slowHeld_ready a (p 2) hready]
      rfl

theorem refined_label {a : Access} (hread : a.wstrb = 0) (haddr : a.addr ∈ readLabels)
    (p : ℕ → Periph) {s : Bus} (hs : s.Rest) : RefinedIn boot a p s 1 := by
  have hnot := readLabels_not_bram haddr
  cases hlookup : (fastReads (p 0) s.regs).lookup a.addr with
  | none =>
      rw [lookup_eq_none_iff, fastReads_labels] at hlookup
      exact absurd haddr hlookup
  | some d =>
      have hstep := @slowHeld_read boot _ hread hnot (p 0) _ hs.memReady
      rw [hlookup] at hstep
      apply refined_of_ready
      · rw [hstep]
        rfl
      · intro _
        rw [hstep, fastAccess_memRdata hread, hlookup]
        rfl
      · rw [hstep, fastAccess_regs_read hread]
        rfl

theorem refined_write {a : Access} (hwrite : a.wstrb ≠ 0) (ha : a.Decoded) (p : ℕ → Periph) {s : Bus}
    (hs : s.Rest) (htimer : ¬ a.StartsTimer s) : RefinedIn boot a p s 1 := by
  have hstep := @slowHeld_write boot _ hwrite (p 0) _ hs.memReady htimer
  rw [if_pos ha] at hstep
  apply refined_of_ready
  · rw [hstep]
    rfl
  · exact fun hread => absurd hread hwrite
  · rw [hstep, fastAccess_regs_write hwrite]
    rfl

/-- The timer that an accepted UART byte starts tells the two paths apart. -/
theorem not_refined_of_startsTimer {a : Access} {s : Bus} (hs : s.Rest) (ha : a.StartsTimer s)
    (p : ℕ → Periph) : ¬ Refined boot a p s := by
  obtain ⟨hwrite, haddr, hfree⟩ := ha
  have happ : ¬ InApp a.addr := by rw [haddr]; decide
  have htx (timer : BitVec 16) (r : Regs) :
      (uartTxWrite timer s.regs a.wdata r).uart.txCountdown = timer := by
    rw [uartTxWrite, hfree]
    rfl
  have hslow : (slowHeld boot a (p 0) s).regs.uart.txCountdown = 10500 := by
    have hlookup : (slowIoWrites (p 0) s.regs a.wstrb).lookup a.addr =
        some (uartTxWrite 10500 s.regs) := by
      rw [haddr]
      rfl
    rw [slowHeld, Bus.slowStep, if_pos (selected hs.memReady), if_neg hwrite, if_neg happ, hlookup]
    exact htx _ _
  have hfast : (fastAccess boot a (p 0) s).regs.uart.txCountdown = 9000 := by
    have hlookup : (fastIoWrites (p 0) s.regs a.wstrb).lookup a.addr =
        some (uartTxWrite 9000 s.regs) := by
      rw [haddr]
      rfl
    rw [fastAccess_regs_write hwrite, fastWrite, if_neg happ, onLabel_of_some hlookup]
    exact htx _ _
  rintro ⟨k, -, href⟩
  rw [href.regs, hfast] at hslow
  exact absurd hslow (by decide)

theorem refinedIn_of_decoded {a : Access} {s : Bus} (hs : s.Rest) (ha : a.Decoded)
    (htimer : ¬ a.StartsTimer s) (p : ℕ → Periph) : RefinedIn boot a p s 1 ∨ RefinedIn boot a p s 2 := by
  by_cases hread : a.wstrb = 0
  · have hdecoded := ha
    rw [Access.Decoded, if_pos hread] at hdecoded
    rcases hdecoded with hbram | hlabel
    · exact .inr (refined_bram hread hbram p hs)
    · exact .inl (refined_label hread hlabel p hs)
  · exact .inl (refined_write hread ha p hs htimer)

/-- Between two accesses, the next one is refined exactly when it has a branch and does not start
    the UART timer. -/
theorem refined_iff {a : Access} {p : ℕ → Periph} {s : Bus} (hs : s.Rest) :
    Refined boot a p s ↔ a.Decoded ∧ ¬ a.StartsTimer s := by
  constructor
  · intro href
    refine ⟨?_, fun ha => not_refined_of_startsTimer hs ha p href⟩
    by_contra ha
    obtain ⟨k, -, hk⟩ := href
    have hhigh := hk.answered.high
    rw [(never_ready ha p hs k).memReady] at hhigh
    exact absurd hhigh Bool.false_ne_true
  · rintro ⟨ha, htimer⟩
    rcases refinedIn_of_decoded hs ha htimer p with h | h
    · exact ⟨1, by decide, h⟩
    · exact ⟨2, by decide, h⟩

end

/-! ## Runs of accesses -/

/-- A cycle with `mem_valid` low, or an access held until it is answered. -/
inductive BusEvent
  | gap (p : Periph) (m : Access)
  | access (a : Access) (p : ℕ → Periph)

section
variable (boot : Ram bootSize)

/-- The slow path after an event; an access ends with the cycle in which the CPU takes the answer. -/
def slowAfter (s : Bus) : BusEvent → Bus
  | .gap p m => s.slowStep boot true p false m
  | .access a p =>
      if (run (slowHeld boot a) p s 1).memReady then run (slowHeld boot a) p s 2
      else run (slowHeld boot a) p s 3

/-- Every access of the run is refined in the state it meets. -/
def RefinedAll : List BusEvent → Bus → Prop
  | [], _ => True
  | .gap p m :: es, s => RefinedAll es (slowAfter boot s (.gap p m))
  | .access a p :: es, s => Refined boot a p s ∧ RefinedAll es (slowAfter boot s (.access a p))

/-- Every access of the run has a branch, and none is a byte for the UART while its timer is
    stopped. -/
def DecodedAll : List BusEvent → Bus → Prop
  | [], _ => True
  | .gap p m :: es, s => DecodedAll es (slowAfter boot s (.gap p m))
  | .access a p :: es, s =>
      (a.Decoded ∧ ¬ a.StartsTimer s) ∧ DecodedAll es (slowAfter boot s (.access a p))

variable {boot}

theorem rest_slowStep_gap (p : Periph) (m : Access) (s : Bus) : (s.slowStep boot true p false m).Rest :=
  ⟨rfl, rfl⟩

theorem rest_of_ready (a : Access) (p : Periph) {s : Bus} (hs : s.memReady = true) :
    (slowHeld boot a p s).Rest := by
  rw [slowHeld_ready a p hs]
  constructor
  · simp [Bus.slowIdle, hs]
  · rfl

theorem rest_slowAfter {a : Access} {p : ℕ → Periph} {s : Bus} (hs : s.Rest) (ha : a.Decoded)
    (htimer : ¬ a.StartsTimer s) : (slowAfter boot s (.access a p)).Rest := by
  simp only [slowAfter]
  rcases @refinedIn_of_decoded boot _ _ hs ha htimer p with h | h
  · rw [if_pos h.answered.high]
    exact rest_of_ready a (p 1) h.answered.high
  · have hlow := h.answered.low 1 (by decide) (by decide)
    rw [hlow, if_neg Bool.false_ne_true]
    exact rest_of_ready a (p 2) h.answered.high

/-- In every run from a state between two accesses, the slow path refines the fast one access by
    access exactly when each access has a branch and none starts the UART timer. -/
theorem slow_refines_fast_iff {s : Bus} (hs : s.Rest) (es : List BusEvent) :
    RefinedAll boot es s ↔ DecodedAll boot es s := by
  induction es generalizing s with
  | nil => exact Iff.rfl
  | cons e es ih =>
      cases e with
      | gap p m => exact ih (rest_slowStep_gap p m s)
      | access a p =>
          have hiff := @refined_iff boot a p _ hs
          constructor
          · rintro ⟨href, hes⟩
            have hdec := hiff.1 href
            exact ⟨hdec, (ih (rest_slowAfter hs hdec.1 hdec.2)).1 hes⟩
          · rintro ⟨hdec, hes⟩
            exact ⟨hiff.2 hdec, (ih (rest_slowAfter hs hdec.1 hdec.2)).2 hes⟩

/-- A cycle without an access, a word written to application memory and read back, the LED
    register, and the switches. -/
def mappedAccesses : List BusEvent :=
  [.gap .initial ⟨0, 0, 0⟩, .access ⟨0x00010010, 0x12345678, 0xF⟩ fun _ => .initial,
    .access ⟨0x00010010, 0, 0⟩ fun _ => .initial, .access ⟨0x10000000, 0x55, 0xF⟩ fun _ => .initial,
    .access ⟨0x20000000, 0, 0⟩ fun _ => .initial]

/-- From the registers after reset the slow path refines each of these accesses. -/
theorem slow_refines_fast_mappedAccesses :
    RefinedAll (Vector.replicate bootSize 0) mappedAccesses .initial := by
  refine (slow_refines_fast_iff ⟨rfl, rfl⟩ _).2 ?_
  have notUart : ∀ {a : Access} (s : Bus), a.addr ≠ uartTx → ¬ a.StartsTimer s :=
    fun _ h htimer => h htimer.2.1
  exact ⟨⟨by decide, notUart _ (by decide)⟩, ⟨by decide, notUart _ (by decide)⟩,
    ⟨by decide, notUart _ (by decide)⟩, ⟨by decide, notUart _ (by decide)⟩, trivial⟩

/-- A read of the LED register, which is write-only, is never answered. -/
theorem led_read_not_answered :
    ¬ RefinedAll (Vector.replicate bootSize 0) [.access ⟨0x10000000, 0, 0⟩ fun _ => .initial]
      .initial := by
  rintro ⟨⟨k, -, href⟩, -⟩
  have hnone : ¬ Access.Decoded ⟨0x10000000, 0, 0⟩ := by
    rw [Access.Decoded, if_pos rfl]
    rintro (h | h)
    · exact absurd h (by decide)
    · exact absurd h (by simp [readLabels])
  have hhigh := href.answered.high
  rw [(never_ready hnone _ ⟨rfl, rfl⟩ k).memReady] at hhigh
  exact absurd hhigh Bool.false_ne_true

end

end PicoSoc.System
