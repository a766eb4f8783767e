import PicoSoc.System.UartTx

set_option autoImplicit false

/-! # The receive path

A byte is named by the cycle in which the receiver completes it. A read of the data register takes
the buffer in the cycle of the look-ahead pulse; the buffer is cleared one cycle later. -/

namespace PicoSoc.System

open Bytes Clocked

/-! ## The buffer -/

namespace SimpleUart

variable (i : UartIn) (u : SimpleUart) (d : BitVec 32)

theorem recv_step :
    (u.step i d true).recvBufValid = (u.completes || (u.recvBufValid && !i.regDatRe))
      ∧ (u.step i d true).recvBufData = (if u.completes then u.recvPattern else u.recvBufData)
      ∧ (u.completes = true → (u.step i d true).recvState = 0) := by
  show (u.recvStep i).recvBufValid = _ ∧ (u.recvStep i).recvBufData = _
    ∧ (_ → (u.recvStep i).recvState = 0)
  have hread : ∀ t : SimpleUart, t = (if i.regDatRe then
      { u with recvDivcnt := u.recvDivcnt + 1, recvBufValid := false }
      else { u with recvDivcnt := u.recvDivcnt + 1 }) →
      t.recvBufValid = (u.recvBufValid && !i.regDatRe) ∧ t.recvBufData = u.recvBufData := by
    rintro t rfl
    cases i.regDatRe <;> simp
  obtain ⟨hvalid, hdata⟩ := hread _ rfl
  unfold recvStep completes
  dsimp only
  by_cases h₀ : u.recvState = 0
  · have hne : (u.recvState == 10) = false := by rw [h₀]; rfl
    rw [if_pos h₀, hne]
    exact ⟨hvalid, hdata, by simp⟩
  rw [if_neg h₀]
  by_cases h₁ : u.recvState = 1
  · have hne : (u.recvState == 10) = false := by rw [h₁]; rfl
    rw [if_pos h₁, hne]
    split
    · exact ⟨hvalid, hdata, by simp⟩
    · exact ⟨hvalid, hdata, by simp⟩
  rw [if_neg h₁]
  by_cases h₁₀ : u.recvState = 10
  · have heq : (u.recvState == 10) = true := by rw [h₁₀]; rfl
    rw [if_pos h₁₀, heq]
    cases hlate : u.cfgDivider.ult u.recvDivcnt
    · exact ⟨hvalid, hdata, by simp⟩
    · exact ⟨rfl, rfl, fun _ => rfl⟩
  · have hne : (u.recvState == 10) = false := by simpa using h₁₀
    rw [if_neg h₁₀, hne]
    split
    · exact ⟨hvalid, hdata, by simp⟩
    · exact ⟨hvalid, hdata, by simp⟩

theorem not_completes_of_start (h : u.recvState = 0) : u.completes = false := by
  rw [completes, h]
  rfl

end SimpleUart

section

variable (boot : Ram bootSize) (s₀ : Soc) (env : ℕ → SocIn)

theorem rxRd_succ (n : ℕ) :
    (s₀.run boot env (n + 1)).bus.regs.uart.rxRd = (env n).readsRx := by
  rw [Soc.run_succ, uart_step]
  dsimp only
  split
  · split
    · split <;> rfl
    · split <;> rfl
  · rfl

/-- The receiver completes a byte in cycle `n`. -/
def Completes (n : ℕ) : Prop := (s₀.run boot env n).uart.completes = true

/-- The byte that is complete in cycle `n`. -/
def completed (n : ℕ) : Byte := (s₀.run boot env n).uart.recvPattern

/-- In cycle `n` the buffer holds the byte of cycle `c`. -/
structure Buffered (n c : ℕ) : Prop where
  completes : Completes boot s₀ env c
  before : c < n
  last : ∀ k, c < k → k < n → ¬Completes boot s₀ env k
  valid : (s₀.run boot env n).uart.recvBufValid = true

/-- A read in cycle `n` returns the byte of cycle `c`. -/
def Returns (n c : ℕ) : Prop := (env n).readsRx = true ∧ Buffered boot s₀ env n c

/-- A read in cycle `n` clears the byte of cycle `c` from the buffer. -/
def Clears (n c : ℕ) : Prop :=
  (env n).readsRx = true ∧ Buffered boot s₀ env (n + 1) c
    ∧ (s₀.run boot env (n + 2)).uart.recvBufValid = false

/-- No read of the data register in the cycles between `a` and `b`. -/
def Unread (a b : ℕ) : Prop := ∀ k, a < k → k < b → (env k).readsRx = false

/-- No byte of the run is lost and none is returned twice. -/
structure NoneLost : Prop where
  /-- Up to cycle `m` a byte is returned once, replaced before any read, or waits in the buffer. -/
  kept : ∀ c m, Completes boot s₀ env c → c < m →
    (∃ n, c < n ∧ n < m ∧ Returns boot s₀ env n c
        ∧ (s₀.run boot env (n + 1)).bus.memRdata = some ((completed boot s₀ env c).setWidth 32)
        ∧ ∀ n', Returns boot s₀ env n' c → n' = n)
      ∨ (∃ c', c < c' ∧ c' < m ∧ Completes boot s₀ env c' ∧ Unread env c c')
      ∨ (Buffered boot s₀ env m c ∧ Unread env c m)
  clears : ∀ n c, Clears boot s₀ env n c → Returns boot s₀ env n c
  once : ∀ n n' c, Returns boot s₀ env n c → Returns boot s₀ env n' c → n = n'

variable {boot s₀ env}

theorem valid_succ (n : ℕ) :
    (s₀.run boot env (n + 1)).uart.recvBufValid = true ↔
      Completes boot s₀ env n ∨ ((s₀.run boot env n).uart.recvBufValid = true
        ∧ (s₀.run boot env n).bus.regs.uart.rxRd = false) := by
  have h := ((s₀.run boot env n).uart.recv_step ((s₀.run boot env n).uartIn (env n)) 868).1
  rw [Soc.run_succ]
  rw [show ((s₀.run boot env n).step boot (env n)).uart.recvBufValid = _ from h]
  simp [Completes, Soc.uartIn]

/-- The buffered byte is the one that was completed. -/
theorem Buffered.data {n c : ℕ} (h : Buffered boot s₀ env n c) :
    (s₀.run boot env n).uart.recvBufData = completed boot s₀ env c := by
  have hdata (m : ℕ) : (s₀.run boot env (m + 1)).uart.recvBufData =
      if (s₀.run boot env m).uart.completes then (s₀.run boot env m).uart.recvPattern
      else (s₀.run boot env m).uart.recvBufData := by
    rw [Soc.run_succ]
    exact ((s₀.run boot env m).uart.recv_step ((s₀.run boot env m).uartIn (env m)) 868).2.1
  obtain ⟨hc, hlt, hlast, -⟩ := h
  induction n, hlt using Nat.le_induction with
  | base =>
      rw [hdata]
      exact if_pos hc
  | succ m hm ih =>
      rw [hdata]
      exact (if_neg (hlast m hm (by omega))).trans (ih fun k hk hkm => hlast k hk (by omega))

theorem Returns.memRdata {n c : ℕ} (h : Returns boot s₀ env n c) :
    (s₀.run boot env (n + 1)).bus.memRdata = some ((completed boot s₀ env c).setWidth 32) := by
  obtain ⟨hread, hbuf⟩ := h
  simp only [SocIn.readsRx, Bool.and_eq_true, beq_iff_eq] at hread
  have hlookup : ∀ (p : Periph) (r : Regs), (fastReads p r).lookup 0x10000008 = some p.uartDatDo :=
    fun _ _ => rfl
  rw [Soc.run_succ, ← hbuf.data]
  show ((if (env n).la.laRead then _ else none).or _ : Option (BitVec 32)) = _
  rw [if_pos hread.1, hread.2, hlookup, Option.some_or]
  show some (SimpleUart.regDatDo _) = _
  rw [SimpleUart.regDatDo, hbuf.valid]
  rfl

theorem returns_once (hgap : ∀ n, (env n).readsRx = true → (env (n + 1)).readsRx = false)
    {n n' c : ℕ} (h : Returns boot s₀ env n c) (h' : Returns boot s₀ env n' c) : n = n' := by
  have hlt : ∀ n n', Returns boot s₀ env n c → Returns boot s₀ env n' c → ¬n < n' := by
    rintro n n' ⟨hread, hbuf⟩ ⟨hread', hbuf'⟩ hlt
    have hgap' : n + 2 ≤ n' := by
      by_contra hn
      rw [show n' = n + 1 by omega, hgap n hread] at hread'
      exact absurd hread' (by simp)
    -- cleared in cycle `n + 1`, the buffer stays empty until the next completion
    have hempty : ∀ k, n + 2 ≤ k → k ≤ n' → (s₀.run boot env k).uart.recvBufValid ≠ true := by
      intro k hk
      induction k, hk using Nat.le_induction with
      | base =>
          intro _ hv
          rcases valid_succ (n + 1) |>.1 hv with hc | ⟨-, hrd⟩
          · exact hbuf'.last (n + 1) (by have := hbuf.before; omega) (by omega) hc
          · rw [rxRd_succ, hread] at hrd
            exact absurd hrd (by simp)
      | succ k hk ih =>
          intro hkn hv
          rcases (valid_succ k).1 hv with hc | ⟨hv, -⟩
          · exact hbuf'.last k (by have := hbuf.before; omega) (by omega) hc
          · exact ih (by omega) hv
    exact hempty n' hgap' (by omega) hbuf'.valid
  rcases Nat.lt_trichotomy n n' with hn | hn | hn
  · exact absurd hn (hlt _ _ h h')
  · exact hn
  · exact absurd hn (hlt _ _ h' h)

/-- A byte that completes in the cycle of a read is cleared without being returned. -/
theorem clears_of_coincidence {n : ℕ} (hread : (env n).readsRx = true)
    (hc : Completes boot s₀ env n) : Clears boot s₀ env n n := by
  refine ⟨hread, ⟨hc, by omega, fun k hk hkn => absurd hk (by omega),
    (valid_succ n).2 (.inl hc)⟩, ?_⟩
  by_contra hv
  have hv : (s₀.run boot env (n + 2)).uart.recvBufValid = true := by simpa using hv
  rcases (valid_succ (n + 1)).1 hv with hc' | ⟨-, hrd⟩
  · have hidle := ((s₀.run boot env n).uart.recv_step ((s₀.run boot env n).uartIn (env n)) 868).2.2 hc
    rw [Completes, Soc.run_succ] at hc'
    exact absurd ((SimpleUart.not_completes_of_start _ hidle).symm.trans hc') (by simp)
  · rw [rxRd_succ, hread] at hrd
    exact absurd hrd (by simp)

/-- The byte waits, is replaced or is returned, as long as no byte completes in the cycle of a
    read. -/
theorem kept_of_no_coincidence
    (hgap : ∀ n, (env n).readsRx = true → (env (n + 1)).readsRx = false)
    (hno : ∀ n, (env n).readsRx = true → ¬Completes boot s₀ env n) {c m : ℕ}
    (hc : Completes boot s₀ env c) (hm : c < m) :
    (∃ n, c < n ∧ n < m ∧ Returns boot s₀ env n c
        ∧ (s₀.run boot env (n + 1)).bus.memRdata = some ((completed boot s₀ env c).setWidth 32)
        ∧ ∀ n', Returns boot s₀ env n' c → n' = n)
      ∨ (∃ c', c < c' ∧ c' < m ∧ Completes boot s₀ env c' ∧ Unread env c c')
      ∨ (Buffered boot s₀ env m c ∧ Unread env c m) := by
  -- on the cycle looked at; a byte that is returned or replaced stays so
  induction m, hm using Nat.le_induction with
  | base =>
      right; right
      exact ⟨⟨hc, by omega, fun k hk hkn => absurd hk (by omega), (valid_succ c).2 (.inl hc)⟩,
        fun k hk hkn => absurd hk (by omega)⟩
  | succ m hm ih =>
      rcases ih with ⟨n, hcn, hnm, hrest⟩ | ⟨c', hcc', hcm, hrest⟩ | ⟨hbuf, hunread⟩
      · exact .inl ⟨n, hcn, by omega, hrest⟩
      · exact .inr (.inl ⟨c', hcc', by omega, hrest⟩)
      · by_cases hread : (env m).readsRx = true
        · left
          exact ⟨m, hm, by omega, ⟨hread, hbuf⟩, Returns.memRdata ⟨hread, hbuf⟩,
            fun n' hn' => returns_once hgap hn' ⟨hread, hbuf⟩⟩
        · by_cases hcomp : Completes boot s₀ env m
          · exact .inr (.inl ⟨m, hm, by omega, hcomp, hunread⟩)
          · right; right
            obtain ⟨k, rfl⟩ : ∃ k, m = k + 1 := ⟨m - 1, by omega⟩
            -- the read strobe is late by a cycle, and a read there would have met the completion
            have hrd : (env k).readsRx = false := by
              rcases Nat.lt_or_ge c k with hck | hck
              · exact hunread k hck (by omega)
              · obtain rfl : c = k := by omega
                by_contra hr
                exact hno c (by simpa using hr) hc
            have hlast : ∀ j, c < j → j < k + 1 + 1 → ¬Completes boot s₀ env j := by
              intro j hj hjk
              rcases Nat.lt_or_ge j (k + 1) with h | h
              · exact hbuf.last j hj h
              · obtain rfl : j = k + 1 := by omega
                exact hcomp
            have hstill : Unread env c (k + 1 + 1) := by
              intro j hj hjk
              rcases Nat.lt_or_ge j (k + 1) with h | h
              · exact hunread j hj h
              · obtain rfl : j = k + 1 := by omega
                simpa using hread
            exact ⟨⟨hc, by omega, hlast,
              (valid_succ (k + 1)).2 (.inr ⟨hbuf.valid, (rxRd_succ boot s₀ env k).trans hrd⟩)⟩, hstill⟩

theorem clears_of_no_coincidence
    (hno : ∀ n, (env n).readsRx = true → ¬Completes boot s₀ env n) {n c : ℕ}
    (h : Clears boot s₀ env n c) : Returns boot s₀ env n c := by
  obtain ⟨hread, hbuf, -⟩ := h
  have hcn : c < n := by
    rcases Nat.lt_or_ge c n with h | h
    · exact h
    · obtain rfl : c = n := by have := hbuf.before; omega
      exact absurd hbuf.completes (hno c hread)
  refine ⟨hread, hbuf.completes, hcn, fun k hk hkn => hbuf.last k hk (by omega), ?_⟩
  rcases (valid_succ n).1 hbuf.valid with h | ⟨hv, -⟩
  · exact absurd h (hbuf.last n hcn (by omega))
  · exact hv

/-- With accesses at least two cycles apart no received byte is lost in exactly the runs in which
    no byte completes in the cycle of a read. -/
theorem none_lost_iff (boot : Ram bootSize) (s₀ : Soc) (env : ℕ → SocIn)
    (hgap : ∀ n, (env n).access = true → (env (n + 1)).access = false) :
    NoneLost boot s₀ env ↔
      ∀ n, (env n).readsRx = true → (s₀.run boot env n).uart.completes = false := by
  have hgap' : ∀ n, (env n).readsRx = true → (env (n + 1)).readsRx = false := by
    intro n hread
    simp only [SocIn.readsRx, Bool.and_eq_true] at hread
    have := hgap n (by rw [SocIn.access, LookAhead.access, hread.1, Bool.true_or])
    rw [SocIn.access, LookAhead.access, Bool.or_eq_false_iff] at this
    rw [SocIn.readsRx, this.1, Bool.false_and]
  constructor
  · intro h n hread
    by_contra hc
    have hc : Completes boot s₀ env n := Bool.of_not_eq_false hc
    have hreturn := h.clears n n (clears_of_coincidence hread hc)
    exact absurd hreturn.2.before (by omega)
  · intro hno
    have hno : ∀ n, (env n).readsRx = true → ¬Completes boot s₀ env n := by
      intro n hread hc
      rw [Completes, hno n hread] at hc
      exact absurd hc (by simp)
    exact ⟨fun c m hc hm => kept_of_no_coincidence hgap' hno hc hm,
      fun n c h => clears_of_no_coincidence hno h, fun n n' c h h' => returns_once hgap' h h'⟩

/-! ## A frame after reset -/

/-- The receiver waits for the middle of the next bit. -/
theorem SimpleUart.recv_wait (i : UartIn) (u : SimpleUart) (h₀ : u.recvState ≠ 0)
    (hearly : u.cfgDivider.ult (if u.recvState = 1 then 2 * u.recvDivcnt else u.recvDivcnt) = false) :
    (u.recvStep i).recvState = u.recvState ∧ (u.recvStep i).recvDivcnt = u.recvDivcnt + 1 := by
  unfold recvStep
  dsimp only
  rw [if_neg h₀]
  by_cases h₁ : u.recvState = 1
  · rw [if_pos h₁] at hearly
    rw [if_pos h₁, hearly]
    constructor <;> cases i.regDatRe <;> rfl
  · rw [if_neg h₁] at hearly
    rw [if_neg h₁, hearly]
    simp only [Bool.false_eq_true, if_false, ite_self]
    constructor <;> cases i.regDatRe <;> rfl

/-- The receiver takes a bit. -/
theorem SimpleUart.recv_bit (i : UartIn) (u : SimpleUart) (h₀ : u.recvState ≠ 0)
    (h₁₀ : u.recvState ≠ 10)
    (hlate : u.cfgDivider.ult (if u.recvState = 1 then 2 * u.recvDivcnt else u.recvDivcnt) = true) :
    (u.recvStep i).recvState = u.recvState + 1 ∧ (u.recvStep i).recvDivcnt = 0 := by
  unfold recvStep
  dsimp only
  rw [if_neg h₀]
  by_cases h₁ : u.recvState = 1
  · rw [if_pos h₁] at hlate
    rw [if_pos h₁, hlate, h₁]
    exact ⟨rfl, rfl⟩
  · rw [if_neg h₁] at hlate
    rw [if_neg h₁, if_neg h₁₀, hlate]
    exact ⟨rfl, rfl⟩

theorem recv_run_succ (n : ℕ) :
    (s₀.run boot env (n + 1)).uart.recvState
        = ((s₀.run boot env n).uart.recvStep ((s₀.run boot env n).uartIn (env n))).recvState
      ∧ (s₀.run boot env (n + 1)).uart.recvDivcnt
        = ((s₀.run boot env n).uart.recvStep ((s₀.run boot env n).uartIn (env n))).recvDivcnt := by
  rw [Soc.run_succ]
  exact ⟨rfl, rfl⟩

/-- In state `st`, `t` cycles after the last bit. -/
def Waiting (boot : Ram bootSize) (s₀ : Soc) (env : ℕ → SocIn) (n : ℕ) (st : BitVec 4) (t : ℕ) :
    Prop :=
  (s₀.run boot env n).uart.recvState = st ∧ (s₀.run boot env n).uart.recvDivcnt = BitVec.ofNat 32 t

/-- The cycles for which the receiver stays in a state: half a bit for the start bit. -/
def bitTime (st : BitVec 4) : ℕ := if st = 1 then 435 else 869

theorem late_iff {st : BitVec 4} {t : ℕ} (ht : t ≤ 869) :
    (868 : BitVec 32).ult (if st = 1 then 2 * BitVec.ofNat 32 t else BitVec.ofNat 32 t)
      = decide (bitTime st ≤ t) := by
  rw [BitVec.ult_eq_decide, decide_eq_decide, bitTime]
  split
  · rw [BitVec.toNat_mul, BitVec.toNat_ofNat]
    show 868 < 2 * (t % 2 ^ 32) % 2 ^ 32 ↔ 435 ≤ t
    omega
  · rw [BitVec.toNat_ofNat]
    show 868 < t % 2 ^ 32 ↔ 869 ≤ t
    omega

theorem Waiting.wait (hcfg : ∀ n, (s₀.run boot env n).uart.cfgDivider = 868) {n t : ℕ}
    {st : BitVec 4} (h₀ : st ≠ 0) (h : Waiting boot s₀ env n st 0) (ht : t ≤ bitTime st) :
    Waiting boot s₀ env (n + t) st t := by
  have hbound : bitTime st ≤ 869 := by
    rw [bitTime]
    split <;> omega
  induction t with
  | zero => exact h
  | succ t ih =>
      obtain ⟨hst, hcnt⟩ := ih (by omega)
      obtain ⟨hstate, hdivcnt⟩ := @recv_run_succ boot s₀ env (n + t)
      obtain ⟨hwait, hwait'⟩ := SimpleUart.recv_wait ((s₀.run boot env (n + t)).uartIn (env (n + t)))
        (s₀.run boot env (n + t)).uart (by rwa [hst])
        (by rw [hst, hcnt, hcfg, late_iff (by omega)]; exact decide_eq_false (by omega))
      refine ⟨(hstate.trans hwait).trans hst, (hdivcnt.trans hwait').trans ?_⟩
      rw [hcnt, BitVec.ofNat_add]
      rfl

theorem Waiting.bit (hcfg : ∀ n, (s₀.run boot env n).uart.cfgDivider = 868) {n : ℕ}
    {st : BitVec 4} (h₀ : st ≠ 0) (h₁₀ : st ≠ 10) (h : Waiting boot s₀ env n st 0) :
    Waiting boot s₀ env (n + bitTime st + 1) (st + 1) 0 := by
  have hbound : bitTime st ≤ 869 := by
    rw [bitTime]
    split <;> omega
  obtain ⟨hst, hcnt⟩ := h.wait hcfg h₀ le_rfl
  obtain ⟨hstate, hdivcnt⟩ :=
    @recv_run_succ boot s₀ env (n + bitTime st)
  obtain ⟨hbit, hbit'⟩ :=
    SimpleUart.recv_bit ((s₀.run boot env (n + bitTime st)).uartIn (env (n + bitTime st)))
      (s₀.run boot env (n + bitTime st)).uart (by rwa [hst]) (by rwa [hst])
      (by rw [hst, hcnt, hcfg, late_iff hbound]; exact decide_eq_true le_rfl)
  exact ⟨(hstate.trans hbit).trans (by rw [hst]), hdivcnt.trans hbit'⟩

/-- A frame that starts right after reset is complete after 8266 cycles. -/
theorem completes_of_start (hcfg : ∀ n, (s₀.run boot env n).uart.cfgDivider = 868)
    (hrx : (env 0).uartRx = false) : Completes boot s₀ env 8266 := by
  have hfirst : Waiting boot s₀ env 1 1 0 := by
    have hserRx : ((s₀.reset boot (env 0)).uartIn (env 0)).serRx = false := hrx
    have hreset : (s₀.reset boot (env 0)).uart.recvState = 0 := rfl
    obtain ⟨hstate, hdivcnt⟩ := @recv_run_succ boot s₀ env 0
    refine ⟨hstate.trans ?_, hdivcnt.trans ?_⟩ <;> rw [Soc.run_zero, SimpleUart.recvStep]
    · rw [if_pos hreset, hserRx]
      rfl
    · rw [if_pos hreset]
      rfl
  -- eight data bits follow the start bit
  have hbits : ∀ k ≤ 8, Waiting boot s₀ env (437 + 870 * k) (BitVec.ofNat 4 (2 + k)) 0 := by
    intro k hk
    induction k with
    | zero =>
        rw [show 437 + 870 * 0 = 1 + bitTime 1 + 1 from rfl]
        exact hfirst.bit hcfg (by decide) (by decide)
    | succ k ih =>
        have hne : ∀ k < 8, BitVec.ofNat 4 (2 + k) ≠ 0 ∧ BitVec.ofNat 4 (2 + k) ≠ 10
            ∧ bitTime (BitVec.ofNat 4 (2 + k)) = 869
            ∧ BitVec.ofNat 4 (2 + k) + 1 = BitVec.ofNat 4 (2 + (k + 1)) := by
          decide
        obtain ⟨h₀, h₁₀, htime, hnext⟩ := hne k (by omega)
        have h := (ih (by omega)).bit hcfg h₀ h₁₀
        rw [htime, hnext] at h
        rwa [show 437 + 870 * (k + 1) = 437 + 870 * k + 869 + 1 by ring]
  obtain ⟨hst, hcnt⟩ := (hbits 8 le_rfl).wait hcfg (by decide) (le_refl 869)
  have hcfg := hcfg (437 + 870 * 8 + 869)
  rw [show 8266 = 437 + 870 * 8 + 869 by norm_num, Completes, SimpleUart.completes, hst, hcfg, hcnt]
  decide

/-- Without a start bit the receiver stays idle. -/
theorem recvState_of_high {n : ℕ} (h : (s₀.run boot env n).uart.recvState = 0)
    (hrx : (env n).uartRx = true) : (s₀.run boot env (n + 1)).uart.recvState = 0 := by
  have hserRx : ((s₀.run boot env n).uartIn (env n)).serRx = true := hrx
  rw [(@recv_run_succ boot s₀ env n).1, SimpleUart.recvStep]
  dsimp only
  rw [if_pos h, hserRx, ← h]
  simp only [Bool.not_true, Bool.false_eq_true, if_false]
  split <;> rfl

/-- A frame with the byte `0x00`, and a read of the data register in cycle `k`. -/
def frameRead (k : ℕ) : ℕ → SocIn := fun n =>
  if n = k then
    { noAccess with
      la := { addr := 0x10000008, wdata := 0, wstrb := 0, laRead := true, laWrite := false } }
  else { noAccess with uartRx := decide (9 * 870 ≤ n) }

section

variable {k : ℕ}

theorem frameRead_quiet {n : ℕ} (hn : n ≠ k) : (frameRead k n).access = false := by
  rw [frameRead, if_neg hn]
  rfl

theorem frameRead_reads : (frameRead k k).readsRx = true := by
  rw [frameRead, if_pos rfl]
  rfl

theorem eq_of_frameRead {n : ℕ} (h : (frameRead k n).readsRx = true) : n = k := by
  by_contra hn
  rw [frameRead, if_neg hn] at h
  exact Bool.false_ne_true h

theorem frameRead_apart (n : ℕ) (h : (frameRead k n).access = true) :
    (frameRead k (n + 1)).access = false := by
  by_cases hn : n = k
  · exact frameRead_quiet (by omega)
  · rw [frameRead_quiet hn] at h
    exact absurd h (by simp)

/-- The byte of the frame is complete in cycle 8266. -/
theorem frameRead_completes (hk : k ≠ 0) : Completes emptyBoot sampleSoc (frameRead k) 8266 := by
  refine completes_of_start (cfgDivider_of_no_write emptyBoot sampleSoc (frameRead k) fun n hn => ?_) ?_
  · rw [frameRead] at hn
    split at hn <;> exact absurd hn (by simp [noAccess])
  · rw [frameRead, if_neg (Ne.symm hk)]
    rfl

/-- No other byte comes. -/
theorem frameRead_idle (hk : k ≠ 0) {n : ℕ} (hn : 8266 < n) :
    (sampleSoc.run emptyBoot (frameRead k) n).uart.recvState = 0 := by
  induction n, hn using Nat.le_induction with
  | base =>
      rw [Soc.run_succ]
      exact ((sampleSoc.run emptyBoot (frameRead k) 8266).uart.recv_step
        ((sampleSoc.run emptyBoot (frameRead k) 8266).uartIn (frameRead k 8266)) 868).2.2
        (frameRead_completes hk)
  | succ n hn ih =>
      refine recvState_of_high ih ?_
      rw [frameRead]
      split
      · rfl
      · exact decide_eq_true (by omega)

end

/-- A read four cycles later returns the byte. -/
theorem none_lost_frameRead : NoneLost emptyBoot sampleSoc (frameRead 8270)
    ∧ Returns emptyBoot sampleSoc (frameRead 8270) 8270 8266 := by
  have hlow {n : ℕ} (hn : 8266 < n) : ¬Completes emptyBoot sampleSoc (frameRead 8270) n := fun hc =>
    absurd ((SimpleUart.not_completes_of_start _ (frameRead_idle (by decide) hn)).symm.trans hc)
      (by simp)
  have hnone : NoneLost emptyBoot sampleSoc (frameRead 8270) := by
    refine (none_lost_iff emptyBoot sampleSoc (frameRead 8270) frameRead_apart).2 fun n hread => ?_
    rw [eq_of_frameRead hread]
    exact SimpleUart.not_completes_of_start _ (frameRead_idle (by decide) (by decide))
  refine ⟨hnone, ?_⟩
  rcases hnone.kept 8266 8271 (frameRead_completes (by decide)) (by decide) with
    ⟨n, -, -, hreturns, -⟩ | ⟨c', hlt, -, hc', -⟩ | ⟨-, hunread⟩
  · rwa [eq_of_frameRead hreturns.1] at hreturns
  · exact absurd hc' (hlow hlt)
  · exact absurd (hunread 8270 (by decide) (by decide)) (by rw [frameRead_reads]; decide)

/-- A read in the cycle in which the byte is complete loses it. -/
theorem not_none_lost_coincidingRead :
    (∀ n, (frameRead 8266 n).access = true → (frameRead 8266 (n + 1)).access = false)
      ∧ ¬NoneLost emptyBoot sampleSoc (frameRead 8266) := by
  refine ⟨frameRead_apart, fun hnone => ?_⟩
  have hreturn := hnone.clears 8266 8266
    (clears_of_coincidence frameRead_reads (frameRead_completes (by decide)))
  exact absurd hreturn.2.before (by omega)

end

end PicoSoc.System
