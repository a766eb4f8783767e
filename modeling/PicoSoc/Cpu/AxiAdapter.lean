import PicoSoc.Library.Clocked

set_option autoImplicit false

/-! # The AXI4-Lite adapter (`picorv32_axi_adapter`)

The adapter turns a native transaction into handshakes on the AXI channels; one flag a channel
remembers that its handshake has happened. A native master and an AXI slave are contracts over the
cycles of a run. -/

namespace PicoSoc.AxiAdapter

open Clocked

/-! ## The circuit -/

/-- The flags. -/
structure Adapter where
  ackAwvalid : Bool
  ackArvalid : Bool
  ackWvalid : Bool
  xferDone : Bool
  deriving DecidableEq

/-- The inputs of a cycle: the native request and what the slave drives. -/
structure Wires where
  resetn : Bool
  memValid : Bool
  memInstr : Bool
  memAddr : BitVec 32
  memWdata : BitVec 32
  memWstrb : BitVec 4
  awready : Bool
  wready : Bool
  bvalid : Bool
  arready : Bool
  rvalid : Bool
  rdata : BitVec 32
  deriving DecidableEq

variable (w : Wires) (s : Adapter)

/-- `mem_axi_awvalid`: a write, until its address is taken. -/
def awvalid : Bool := w.memValid && w.memWstrb != 0 && !s.ackAwvalid
/-- `mem_axi_awaddr` -/
def awaddr : BitVec 32 := w.memAddr
/-- `mem_axi_awprot` -/
def awprot : BitVec 3 := 0

/-- `mem_axi_arvalid`: a read, until its address is taken. -/
def arvalid : Bool := w.memValid && w.memWstrb == 0 && !s.ackArvalid
/-- `mem_axi_araddr` -/
def araddr : BitVec 32 := w.memAddr
/-- `mem_axi_arprot` -/
def arprot : BitVec 3 := if w.memInstr then 4 else 0

/-- `mem_axi_wvalid`: a write, until its data are taken. -/
def wvalid : Bool := w.memValid && w.memWstrb != 0 && !s.ackWvalid
/-- `mem_axi_wdata` -/
def wdata : BitVec 32 := w.memWdata
/-- `mem_axi_wstrb` -/
def wstrb : BitVec 4 := w.memWstrb

/-- `mem_ready`: either response. -/
def memReady : Bool := w.bvalid || w.rvalid
/-- `mem_axi_bready` -/
def bready : Bool := w.memValid && w.memWstrb != 0
/-- `mem_axi_rready` -/
def rready : Bool := w.memValid && w.memWstrb == 0
/-- `mem_rdata` -/
def memRdata : BitVec 32 := w.rdata

/-- The clock edge. Reset clears one flag only. -/
def Adapter.step : Adapter :=
  if !w.resetn then { s with ackAwvalid := false }
  else
    let clear := s.xferDone || !w.memValid
    { xferDone := w.memValid && memReady w
      ackAwvalid := if clear then false else s.ackAwvalid || (w.awready && awvalid w s)
      ackArvalid := if clear then false else s.ackArvalid || (w.arready && arvalid w s)
      ackWvalid := if clear then false else s.ackWvalid || (w.wready && wvalid w s) }

/-! ## Transactions of a run -/

section Run

variable (env : ℕ → Wires) (s₀ : Adapter)

/-- The native transaction that occupies cycle `n` began in cycle `a`. -/
structure Current (a n : ℕ) : Prop where
  le : a ≤ n
  valid : (env n).memValid = true
  begin : a = 0 ∨ ∃ p, a = p + 1 ∧ ((env p).memValid = false ∨ memReady (env p) = true)
  pending : ∀ k, a ≤ k → k < n → (env k).memValid = true ∧ memReady (env k) = false

/-- The native request of cycle `n`. -/
def request (n : ℕ) : Bool × BitVec 32 × BitVec 32 × BitVec 4 :=
  ((env n).memInstr, (env n).memAddr, (env n).memWdata, (env n).memWstrb)

/-- The request of cycle `n` writes no byte. -/
def IsRead (n : ℕ) : Prop := (env n).memWstrb = 0

/-- A handshake on the write address channel in cycle `n`. -/
def Aw (n : ℕ) : Prop :=
  (env n).awready = true ∧ awvalid (env n) (run Adapter.step env s₀ n) = true

/-- A handshake on the write data channel. -/
def W (n : ℕ) : Prop :=
  (env n).wready = true ∧ wvalid (env n) (run Adapter.step env s₀ n) = true

/-- A handshake on the read address channel. -/
def Ar (n : ℕ) : Prop :=
  (env n).arready = true ∧ arvalid (env n) (run Adapter.step env s₀ n) = true

/-- The master is idle in the first cycle, holds a request until it is answered and then pauses,
    unless a read follows a read. -/
structure Master : Prop where
  idle : (env 0).memValid = false
  hold : ∀ n, (env n).memValid = true → memReady (env n) = false →
    (env (n + 1)).memValid = true ∧ request env (n + 1) = request env n
  pause : ∀ n, (env n).memValid = true → memReady (env n) = true →
    (env (n + 1)).memValid = false ∨ IsRead env n ∧ IsRead env (n + 1)

/-- The slave answers a write once it has taken address and data of the current transaction, a read
    once it has taken its address. -/
structure Slave : Prop where
  write : ∀ n, (env n).bvalid = true → ∃ a, Current env a n ∧
    (∃ k, a ≤ k ∧ k ≤ n ∧ Aw env s₀ k) ∧ ∃ k, a ≤ k ∧ k ≤ n ∧ W env s₀ k
  read : ∀ n, (env n).rvalid = true → ∃ a, Current env a n ∧ ∃ k, a ≤ k ∧ k ≤ n ∧ Ar env s₀ k

variable {env s₀} {n : ℕ}

/-! ### The cycles of a transaction -/

theorem Current.unique {a b n : ℕ} (ha : Current env a n) (hb : Current env b n) : a = b := by
  have hle : ∀ {a b : ℕ}, Current env a n → Current env b n → b ≤ a := by
    intro a b ha hb
    by_contra hlt
    rcases hb.begin with rfl | ⟨p, rfl, hp⟩
    · omega
    · obtain ⟨hvalid, hready⟩ := ha.pending p (by omega) (by have := hb.le; omega)
      rcases hp with hp | hp
      · rw [hvalid] at hp
        cases hp
      · rw [hready] at hp
        cases hp
  exact le_antisymm (hle hb ha) (hle ha hb)

/-- The next cycle belongs to the same transaction while there is no answer. -/
theorem Current.next {a n : ℕ} (h : Current env a n) (hready : memReady (env n) = false)
    (hvalid : (env (n + 1)).memValid = true) : Current env a (n + 1) := by
  refine ⟨by have := h.le; omega, hvalid, h.begin, fun k hk hkn => ?_⟩
  rcases Nat.eq_or_lt_of_le (Nat.le_of_lt_succ hkn) with rfl | hlt
  · exact ⟨h.valid, hready⟩
  · exact h.pending k hk hlt

/-- A transaction does not last beyond an answer. -/
theorem Current.le_of_ready {a n c : ℕ} (h : Current env a n) (hac : a ≤ c)
    (hready : memReady (env c) = true) : n ≤ c := by
  by_contra hlt
  have hlow := (h.pending c hac (by omega)).2
  rw [hready] at hlow
  cases hlow

/-- After an idle cycle or an answer a new transaction begins. -/
theorem Current.start {n : ℕ} (hvalid : (env (n + 1)).memValid = true)
    (hprev : (env n).memValid = false ∨ memReady (env n) = true) : Current env (n + 1) (n + 1) :=
  ⟨le_rfl, hvalid, .inr ⟨n, rfl, hprev⟩, fun _ hk hkn => absurd hkn (by omega)⟩

theorem Current.exists {n : ℕ} (h : (env n).memValid = true) : ∃ a, Current env a n := by
  induction n with
  | zero => exact ⟨0, le_rfl, h, .inl rfl, fun _ _ hk => absurd hk (by omega)⟩
  | succ n ih =>
      by_cases hvalid : (env n).memValid = true
      · by_cases hready : memReady (env n) = true
        · exact ⟨_, .start h (.inr hready)⟩
        · obtain ⟨a, ha⟩ := ih hvalid
          exact ⟨a, ha.next (by simpa using hready) h⟩
      · exact ⟨_, .start h (.inl (by simpa using hvalid))⟩

/-- The request is the same in all cycles of its transaction. -/
theorem Master.request_eq (master : Master env) {a n : ℕ} (h : Current env a n) :
    ∀ k, a ≤ k → k ≤ n → request env k = request env a := by
  intro k hk
  induction k, hk using Nat.le_induction with
  | base => exact fun _ => rfl
  | succ k hk ih =>
      intro hkn
      obtain ⟨hvalid, hready⟩ := h.pending k hk (by omega)
      exact (master.hold k hvalid hready).2.trans (ih (by omega))

theorem Master.isRead_iff (master : Master env) {a n : ℕ} (h : Current env a n) {k : ℕ}
    (hk : a ≤ k) (hkn : k ≤ n) : IsRead env k ↔ IsRead env n := by
  have heq := (master.request_eq h k hk hkn).trans (master.request_eq h n h.le le_rfl).symm
  have hstrb : (env k).memWstrb = (env n).memWstrb := congrArg (fun r => r.2.2.2) heq
  rw [IsRead, IsRead, hstrb]

/-! ### What the flags say -/

/-- `P` has held in a cycle of `[a, n)`. -/
def Since (P : ℕ → Prop) (a n : ℕ) : Prop := ∃ k, a ≤ k ∧ k < n ∧ P k

theorem since_self (P : ℕ → Prop) (a : ℕ) : ¬ Since P a a := by
  rintro ⟨k, hk, hka, -⟩
  omega

theorem since_mono {P : ℕ → Prop} {a n m : ℕ} (h : Since P a n) (hnm : n ≤ m) : Since P a m := by
  obtain ⟨k, hk, hkn, hp⟩ := h
  exact ⟨k, hk, by omega, hp⟩

theorem since_succ {P : ℕ → Prop} {a n : ℕ} (h : a ≤ n) : Since P a (n + 1) ↔ Since P a n ∨ P n := by
  constructor
  · rintro ⟨k, hk, hkn, hp⟩
    rcases Nat.eq_or_lt_of_le (Nat.le_of_lt_succ hkn) with rfl | hlt
    · exact .inr hp
    · exact .inl ⟨k, hk, hlt, hp⟩
  · rintro (⟨k, hk, hkn, hp⟩ | hp)
    · exact ⟨k, hk, by omega, hp⟩
    · exact ⟨n, h, by omega, hp⟩

/-- The flags before cycle `n`: in the first cycle of a read that follows a read they are those of
    the finished read, otherwise they tell which handshakes of the transaction have happened. -/
structure Flags (env : ℕ → Wires) (s₀ : Adapter) (n : ℕ) : Prop where
  fresh : ∀ a, Current env a n → (run Adapter.step env s₀ n).xferDone = false →
    ((run Adapter.step env s₀ n).ackAwvalid = true ↔ Since (Aw env s₀) a n) ∧
    ((run Adapter.step env s₀ n).ackWvalid = true ↔ Since (W env s₀) a n) ∧
    ((run Adapter.step env s₀ n).ackArvalid = true ↔ Since (Ar env s₀) a n)
  chained : (env n).memValid = true → (run Adapter.step env s₀ n).xferDone = true →
    IsRead env n ∧ Current env n n ∧ (run Adapter.step env s₀ n).ackArvalid = true ∧
      (run Adapter.step env s₀ n).ackAwvalid = false ∧ (run Adapter.step env s₀ n).ackWvalid = false

theorem Aw.parts {n : ℕ} (h : Aw env s₀ n) :
    (env n).memValid = true ∧ ¬ IsRead env n ∧ (run Adapter.step env s₀ n).ackAwvalid = false := by
  obtain ⟨-, hv⟩ := h
  simp only [awvalid, Bool.and_eq_true, bne_iff_ne, Bool.not_eq_true'] at hv
  exact ⟨hv.1.1, hv.1.2, hv.2⟩

theorem W.parts {n : ℕ} (h : W env s₀ n) :
    (env n).memValid = true ∧ ¬ IsRead env n ∧ (run Adapter.step env s₀ n).ackWvalid = false := by
  obtain ⟨-, hv⟩ := h
  simp only [wvalid, Bool.and_eq_true, bne_iff_ne, Bool.not_eq_true'] at hv
  exact ⟨hv.1.1, hv.1.2, hv.2⟩

theorem Ar.parts {n : ℕ} (h : Ar env s₀ n) :
    (env n).memValid = true ∧ IsRead env n ∧ (run Adapter.step env s₀ n).ackArvalid = false := by
  obtain ⟨-, hv⟩ := h
  simp only [arvalid, Bool.and_eq_true, beq_iff_eq, Bool.not_eq_true'] at hv
  exact ⟨hv.1.1, hv.1.2, hv.2⟩

/-- Only a write is answered on the write channel. -/
theorem Slave.bvalid_write (slave : Slave env s₀) (master : Master env) {n : ℕ}
    (h : (env n).bvalid = true) : ¬ IsRead env n := by
  obtain ⟨a, ha, ⟨k, hk, hkn, hw⟩, -⟩ := slave.write n h
  rw [← master.isRead_iff ha hk hkn]
  exact hw.parts.2.1

theorem Slave.rvalid_read (slave : Slave env s₀) (master : Master env) {n : ℕ}
    (h : (env n).rvalid = true) : IsRead env n := by
  obtain ⟨a, ha, k, hk, hkn, hr⟩ := slave.read n h
  rw [← master.isRead_iff ha hk hkn]
  exact hr.parts.2.1

/-- No answer without a request. -/
theorem Slave.valid_of_ready (slave : Slave env s₀) {n : ℕ} (h : memReady (env n) = true) :
    (env n).memValid = true := by
  rw [memReady, Bool.or_eq_true] at h
  rcases h with h | h
  · obtain ⟨a, ha, -⟩ := slave.write n h
    exact ha.valid
  · obtain ⟨a, ha, -⟩ := slave.read n h
    exact ha.valid

/-- A read is answered after its handshake, and never in the cycle of the flags of the read before. -/
theorem Flags.answered_read (h : Flags env s₀ n) (slave : Slave env s₀) (master : Master env)
    (hready : memReady (env n) = true) (hread : IsRead env n) :
    (run Adapter.step env s₀ n).xferDone = false ∧
      ∃ a, Current env a n ∧ Since (Ar env s₀) a (n + 1) := by
  rw [memReady, Bool.or_eq_true] at hready
  have hr := hready.resolve_left fun hb => slave.bvalid_write master hb hread
  obtain ⟨a, ha, k, hk, hkn, har⟩ := slave.read n hr
  refine ⟨?_, a, ha, k, hk, by omega, har⟩
  by_contra hx
  obtain ⟨-, hn, hack, -⟩ := h.chained ha.valid (by simpa using hx)
  obtain rfl := ha.unique hn
  obtain rfl : k = a := by omega
  rw [har.parts.2.2] at hack
  cases hack

/-- In a write the flags are those of the transaction. -/
theorem Flags.write_fresh (h : Flags env s₀ n) (hvalid : (env n).memValid = true)
    (hwrite : ¬ IsRead env n) : (run Adapter.step env s₀ n).xferDone = false := by
  by_contra hx
  exact hwrite (h.chained hvalid (by simpa using hx)).1

theorem run_xferDone (hresetn : (env n).resetn = true) :
    (run Adapter.step env s₀ (n + 1)).xferDone = ((env n).memValid && memReady (env n)) := by
  rw [run_succ, Adapter.step, hresetn]
  rfl

/-- The flags are cleared after an answer and in idle cycles. -/
theorem run_clear (hresetn : (env n).resetn = true)
    (hclear : (run Adapter.step env s₀ n).xferDone = true ∨ (env n).memValid = false) :
    (run Adapter.step env s₀ (n + 1)).ackAwvalid = false ∧
      (run Adapter.step env s₀ (n + 1)).ackWvalid = false ∧
      (run Adapter.step env s₀ (n + 1)).ackArvalid = false := by
  have hc : ((run Adapter.step env s₀ n).xferDone || !(env n).memValid) = true := by
    rcases hclear with h | h <;> simp [h]
  rw [run_succ, Adapter.step, hresetn]
  simp [hc]

/-- Otherwise a flag remembers its handshake. -/
theorem run_keep (hresetn : (env n).resetn = true)
    (hxfer : (run Adapter.step env s₀ n).xferDone = false) (hvalid : (env n).memValid = true) :
    ((run Adapter.step env s₀ (n + 1)).ackAwvalid = true ↔
      (run Adapter.step env s₀ n).ackAwvalid = true ∨ Aw env s₀ n) ∧
    ((run Adapter.step env s₀ (n + 1)).ackWvalid = true ↔
      (run Adapter.step env s₀ n).ackWvalid = true ∨ W env s₀ n) ∧
    ((run Adapter.step env s₀ (n + 1)).ackArvalid = true ↔
      (run Adapter.step env s₀ n).ackArvalid = true ∨ Ar env s₀ n) := by
  rw [run_succ, Adapter.step, hresetn]
  simp [hxfer, hvalid, Aw, W, Ar]

theorem Flags.zero (master : Master env) : Flags env s₀ 0 := by
  constructor
  · intro a ha
    exact absurd ha.valid (by simp [master.idle])
  · intro hvalid
    exact absurd hvalid (by simp [master.idle])

theorem Flags.succ (h : Flags env s₀ n) (hresetn : (env n).resetn = true) (slave : Slave env s₀)
    (master : Master env) : Flags env s₀ (n + 1) := by
  have hxfer := @run_xferDone env s₀ n hresetn
  constructor
  · intro a ha hfresh
    have hnone : ∀ P : ℕ → Prop, ∀ b : Bool, b = false → (b = true ↔ Since P (n + 1) (n + 1)) :=
      fun P b hb => ⟨fun ht => absurd ht (by simp [hb]), fun hp => absurd hp (since_self P _)⟩
    by_cases hvalid : (env n).memValid = true
    · have hready : memReady (env n) = false := by
        rw [hxfer, hvalid] at hfresh
        simpa using hfresh
      obtain ⟨b, hb⟩ := Current.exists hvalid
      obtain rfl := ha.unique (hb.next hready ha.valid)
      by_cases hx : (run Adapter.step env s₀ n).xferDone = true
      · -- the first cycle of a read after a read passes without a handshake
        obtain ⟨hread, hn, hack, -⟩ := h.chained hvalid hx
        obtain rfl := hb.unique hn
        obtain ⟨haw, hw, har⟩ := run_clear hresetn (.inl hx)
        rw [since_succ le_rfl, since_succ le_rfl, since_succ le_rfl, haw, hw, har]
        refine ⟨?_, ?_, ?_⟩
        · exact ⟨nofun, fun hs => (hs.resolve_left (since_self _ _)).parts.2.1 hread |>.elim⟩
        · exact ⟨nofun, fun hs => (hs.resolve_left (since_self _ _)).parts.2.1 hread |>.elim⟩
        · refine ⟨nofun, fun hs => ?_⟩
          rw [(hs.resolve_left (since_self _ _)).parts.2.2] at hack
          exact hack
      · obtain ⟨haw, hw, har⟩ := h.fresh a hb (by simpa using hx)
        obtain ⟨kaw, kw, kar⟩ := run_keep hresetn (by simpa using hx) hvalid
        rw [since_succ hb.le, since_succ hb.le, since_succ hb.le]
        exact ⟨kaw.trans (or_congr_left haw), kw.trans (or_congr_left hw),
          kar.trans (or_congr_left har)⟩
    · -- an idle cycle clears the flags
      have hidle : (env n).memValid = false := by simpa using hvalid
      obtain rfl := ha.unique (.start ha.valid (.inl hidle))
      obtain ⟨haw, hw, har⟩ := run_clear hresetn (.inr hidle)
      exact ⟨hnone _ _ haw, hnone _ _ hw, hnone _ _ har⟩
  · intro hnext hdone
    -- a read without a pause: the flag of the finished read is still set
    rw [hxfer, Bool.and_eq_true] at hdone
    obtain ⟨hvalid, hready⟩ := hdone
    obtain ⟨hread, hread'⟩ := (master.pause n hvalid hready).resolve_left (by simp [hnext])
    obtain ⟨hx, a, ha, hsince⟩ := h.answered_read slave master hready hread
    obtain ⟨haw, hw, har⟩ := h.fresh a ha hx
    obtain ⟨kaw, kw, kar⟩ := run_keep hresetn hx hvalid
    have hnot : ∀ k, a ≤ k → k < n + 1 → IsRead env k :=
      fun k hk hkn => (master.isRead_iff ha hk (by omega)).2 hread
    refine ⟨hread', .start hnext (.inr hready), ?_, ?_, ?_⟩
    · rw [kar, har, ← since_succ ha.le]
      exact hsince
    · rw [← Bool.not_eq_true, kaw, haw, ← since_succ ha.le]
      rintro ⟨k, hk, hkn, hp⟩
      exact hp.parts.2.1 (hnot k hk hkn)
    · rw [← Bool.not_eq_true, kw, hw, ← since_succ ha.le]
      rintro ⟨k, hk, hkn, hp⟩
      exact hp.parts.2.1 (hnot k hk hkn)

theorem flags (hresetn : ∀ n, (env n).resetn = true) (master : Master env) (slave : Slave env s₀)
    (n : ℕ) : Flags env s₀ n := by
  induction n with
  | zero => exact .zero master
  | succ n ih => exact ih.succ (hresetn n) slave master

/-! ### What a transaction does -/

variable (env s₀)

/-- `P` happens in exactly one cycle from `a` to `c`. -/
def Once (P : ℕ → Prop) (a c : ℕ) : Prop := ∃ k, a ≤ k ∧ k ≤ c ∧ P k ∧ ∀ j, a ≤ j → j ≤ c → P j → j = k

/-- `P` does not happen twice from `a` to `c`. -/
def AtMostOnce (P : ℕ → Prop) (a c : ℕ) : Prop :=
  ∀ j k, a ≤ j → j ≤ c → a ≤ k → k ≤ c → P j → P k → j = k

/-- `P` does not happen from `a` to `c`. -/
def Never (P : ℕ → Prop) (a c : ℕ) : Prop := ∀ k, a ≤ k → k ≤ c → ¬ P k

/-- A write from cycle `a` to its answer in cycle `c`. -/
structure WriteDone (a c : ℕ) : Prop where
  aw : Once (Aw env s₀) a c
  w : Once (W env s₀) a c
  ar : Never (Ar env s₀) a c
  payload : ∀ k, a ≤ k → k ≤ c → awaddr (env k) = (env a).memAddr ∧
    wdata (env k) = (env a).memWdata ∧ wstrb (env k) = (env a).memWstrb
  response : Once (fun k => (env k).bvalid = true ∧ bready (env k) = true) a c
  answer : (env c).bvalid = true ∧ bready (env c) = true
  other : Never (fun k => (env k).rvalid = true) a c

/-- A read from cycle `a` to its answer in cycle `c`. -/
structure ReadDone (a c : ℕ) : Prop where
  ar : Once (Ar env s₀) a c
  aw : Never (Aw env s₀) a c
  w : Never (W env s₀) a c
  payload : ∀ k, a ≤ k → k ≤ c → araddr (env k) = (env a).memAddr ∧
    arprot (env k) = if (env a).memInstr then 4 else 0
  response : Once (fun k => (env k).rvalid = true ∧ rready (env k) = true) a c
  answer : (env c).rvalid = true ∧ rready (env c) = true
  data : memRdata (env c) = (env c).rdata
  other : Never (fun k => (env k).bvalid = true) a c

/-- No valid of cycle `n` is dropped before its ready, and its payload stays. -/
structure Kept (n : ℕ) : Prop where
  aw : awvalid (env n) (run Adapter.step env s₀ n) = true → (env n).awready = false →
    awvalid (env (n + 1)) (run Adapter.step env s₀ (n + 1)) = true ∧
      awaddr (env (n + 1)) = awaddr (env n)
  w : wvalid (env n) (run Adapter.step env s₀ n) = true → (env n).wready = false →
    wvalid (env (n + 1)) (run Adapter.step env s₀ (n + 1)) = true ∧
      wdata (env (n + 1)) = wdata (env n) ∧ wstrb (env (n + 1)) = wstrb (env n)
  ar : arvalid (env n) (run Adapter.step env s₀ n) = true → (env n).arready = false →
    arvalid (env (n + 1)) (run Adapter.step env s₀ (n + 1)) = true ∧
      araddr (env (n + 1)) = araddr (env n) ∧ arprot (env (n + 1)) = arprot (env n)

/-- Cycle `n` follows an answer. -/
def Follows (n : ℕ) : Prop := ∃ p, n = p + 1 ∧ (env p).memValid = true ∧ memReady (env p) = true

/-- Cycle `n` of a transaction that began in cycle `a`. -/
structure Driven (a n : ℕ) : Prop where
  -- each valid is high until its handshake; a read that follows an answer waits for a cycle
  aw : awvalid (env n) (run Adapter.step env s₀ n) = true ↔
    ¬ IsRead env a ∧ ¬ Since (Aw env s₀) a n
  w : wvalid (env n) (run Adapter.step env s₀ n) = true ↔
    ¬ IsRead env a ∧ ¬ Since (W env s₀) a n
  ar : arvalid (env n) (run Adapter.step env s₀ n) = true ↔
    IsRead env a ∧ ¬ Since (Ar env s₀) a n ∧ ¬ Follows env n
  -- the native answer is the handshake of the response
  written : ¬ IsRead env a →
    (memReady (env n) = true ↔ (env n).bvalid = true ∧ bready (env n) = true)
  read : IsRead env a →
    (memReady (env n) = true ↔ (env n).rvalid = true ∧ rready (env n) = true)

/-- The slave takes in the end what it is offered, and answers in the end what it has taken. -/
structure Answering : Prop where
  takesAw : ∀ n, awvalid (env n) (run Adapter.step env s₀ n) = true →
    ∃ k, n ≤ k ∧ (env k).awready = true
  takesW : ∀ n, wvalid (env n) (run Adapter.step env s₀ n) = true →
    ∃ k, n ≤ k ∧ (env k).wready = true
  takesAr : ∀ n, arvalid (env n) (run Adapter.step env s₀ n) = true →
    ∃ k, n ≤ k ∧ (env k).arready = true
  answersWrite : ∀ a n, Current env a n → Since (Aw env s₀) a (n + 1) →
    Since (W env s₀) a (n + 1) → ∃ k, n ≤ k ∧ (env k).bvalid = true
  answersRead : ∀ a n, Current env a n → Since (Ar env s₀) a (n + 1) →
    ∃ k, n ≤ k ∧ (env k).rvalid = true

variable {env s₀}

theorem once_of_since {P : ℕ → Prop} {a c : ℕ} (hmost : AtMostOnce P a c) (h : Since P a (c + 1)) :
    Once P a c := by
  obtain ⟨k, hk, hkc, hp⟩ := h
  exact ⟨k, hk, by omega, hp, fun j hj hjc hq => hmost j k hj hjc hk (by omega) hq hp⟩

/-- A handshake finds its flag low, so no handshake of the transaction came before it. -/
theorem atMostOnce_of_fresh {P : ℕ → Prop} {a n : ℕ}
    (hfirst : ∀ k, a ≤ k → k ≤ n → P k → ¬ Since P a k) : AtMostOnce P a n := by
  intro j k hj hjn hk hkn hpj hpk
  rcases Nat.lt_trichotomy j k with h | h | h
  · exact absurd ⟨j, hj, h, hpj⟩ (hfirst k hk hkn hpk)
  · exact h
  · exact absurd ⟨k, hk, h, hpk⟩ (hfirst j hj hjn hpj)

theorem Current.upTo {a n k : ℕ} (h : Current env a n) (hk : a ≤ k) (hkn : k ≤ n) :
    Current env a k := by
  refine ⟨hk, ?_, h.begin, fun j hj hjk => h.pending j hj (by omega)⟩
  rcases Nat.eq_or_lt_of_le hkn with rfl | hlt
  · exact h.valid
  · exact (h.pending k hk hlt).1

/-- An answered write has had both handshakes. -/
theorem Slave.write_since (slave : Slave env s₀) (master : Master env) {a : ℕ}
    (ha : Current env a n) (hwrite : ¬ IsRead env n) (hready : memReady (env n) = true) :
    (env n).bvalid = true ∧ (env n).rvalid = false ∧ Since (Aw env s₀) a (n + 1) ∧
      Since (W env s₀) a (n + 1) := by
  have hr : (env n).rvalid = false := by
    by_contra h
    exact hwrite (slave.rvalid_read master (by simpa using h))
  have hb : (env n).bvalid = true := by
    rw [memReady, hr, Bool.or_false] at hready
    exact hready
  obtain ⟨b, hb', ⟨j, hj, hjn, haw⟩, k, hk, hkn, hw⟩ := slave.write n hb
  obtain rfl := ha.unique hb'
  exact ⟨hb, hr, ⟨j, hj, by omega, haw⟩, k, hk, by omega, hw⟩

theorem Slave.read_since (slave : Slave env s₀) (master : Master env) {a : ℕ}
    (ha : Current env a n) (hread : IsRead env n) (hready : memReady (env n) = true) :
    (env n).rvalid = true ∧ (env n).bvalid = false ∧ Since (Ar env s₀) a (n + 1) := by
  have hb : (env n).bvalid = false := by
    by_contra h
    exact slave.bvalid_write master (by simpa using h) hread
  have hr : (env n).rvalid = true := by
    rw [memReady, hb, Bool.false_or] at hready
    exact hready
  obtain ⟨b, hb', k, hk, hkn, har⟩ := slave.read n hr
  obtain rfl := ha.unique hb'
  exact ⟨hr, hb, k, hk, by omega, har⟩

section Transaction

variable (hresetn : ∀ n, (env n).resetn = true) (master : Master env) (slave : Slave env s₀)
include hresetn master slave

theorem atMostOnce {a n : ℕ} (h : Current env a n) :
    AtMostOnce (Aw env s₀) a n ∧ AtMostOnce (W env s₀) a n ∧ AtMostOnce (Ar env s₀) a n := by
  have hflags := flags hresetn master slave
  refine ⟨atMostOnce_of_fresh fun k hk hkn hp => ?_, atMostOnce_of_fresh fun k hk hkn hp => ?_,
    atMostOnce_of_fresh fun k hk hkn hp => ?_⟩
  · obtain ⟨hvalid, hwrite, hack⟩ := hp.parts
    rw [← ((hflags k).fresh a (h.upTo hk hkn) ((hflags k).write_fresh hvalid hwrite)).1, hack]
    exact Bool.false_ne_true
  · obtain ⟨hvalid, hwrite, hack⟩ := hp.parts
    rw [← ((hflags k).fresh a (h.upTo hk hkn) ((hflags k).write_fresh hvalid hwrite)).2.1, hack]
    exact Bool.false_ne_true
  · obtain ⟨hvalid, -, hack⟩ := hp.parts
    have hx : (run Adapter.step env s₀ k).xferDone = false := by
      by_contra hx
      have := ((hflags k).chained hvalid (by simpa using hx)).2.2.1
      rw [hack] at this
      cases this
    rw [← ((hflags k).fresh a (h.upTo hk hkn) hx).2.2, hack]
    exact Bool.false_ne_true

omit slave in
/-- The adapter knows from its own flag that a request follows an answer. -/
theorem xferDone_iff (hvalid : (env n).memValid = true) :
    (run Adapter.step env s₀ n).xferDone = true ↔ Follows env n := by
  cases n with
  | zero =>
      rw [master.idle] at hvalid
      exact absurd hvalid Bool.false_ne_true
  | succ p =>
      rw [run_xferDone (hresetn p), Bool.and_eq_true]
      constructor
      · exact fun h => ⟨p, rfl, h⟩
      · rintro ⟨q, hq, h⟩
        obtain rfl := Nat.succ.inj hq
        exact h

omit hresetn in
/-- A transaction is answered on its own channel only. -/
theorem Current.ready_iff {a : ℕ} (h : Current env a n) :
    (¬ IsRead env a →
      (memReady (env n) = true ↔ (env n).bvalid = true ∧ bready (env n) = true)) ∧
    (IsRead env a →
      (memReady (env n) = true ↔ (env n).rvalid = true ∧ rready (env n) = true)) := by
  have hiff := master.isRead_iff h le_rfl h.le
  constructor
  · intro hwrite
    rw [hiff] at hwrite
    have hbready : bready (env n) = true := by
      rw [bready, h.valid, bne_iff_ne.2 hwrite]
      rfl
    refine ⟨fun hready => ⟨(slave.write_since master h hwrite hready).1, hbready⟩, fun hb => ?_⟩
    rw [memReady, hb.1, Bool.true_or]
  · intro hread
    rw [hiff] at hread
    have hrready : rready (env n) = true := by
      rw [rready, h.valid, beq_iff_eq.2 hread]
      rfl
    refine ⟨fun hready => ⟨(slave.read_since master h hread hready).1, hrready⟩, fun hr => ?_⟩
    rw [memReady, hr.1, Bool.or_true]

theorem Current.driven {a : ℕ} (h : Current env a n) : Driven env s₀ a n := by
  have hflags := flags hresetn master slave n
  have hfollows : (run Adapter.step env s₀ n).xferDone = true ↔ Follows env n :=
    xferDone_iff hresetn master h.valid
  have hiff := master.isRead_iff h le_rfl h.le
  have haw : awvalid (env n) (run Adapter.step env s₀ n) = true ↔
      ¬ IsRead env a ∧ ¬ (run Adapter.step env s₀ n).ackAwvalid = true := by
    rw [hiff, awvalid, h.valid]
    simp [IsRead]
  have hw : wvalid (env n) (run Adapter.step env s₀ n) = true ↔
      ¬ IsRead env a ∧ ¬ (run Adapter.step env s₀ n).ackWvalid = true := by
    rw [hiff, wvalid, h.valid]
    simp [IsRead]
  have har : arvalid (env n) (run Adapter.step env s₀ n) = true ↔
      IsRead env a ∧ ¬ (run Adapter.step env s₀ n).ackArvalid = true := by
    rw [hiff, arvalid, h.valid]
    simp [IsRead]
  obtain ⟨hwritten, hreturned⟩ := h.ready_iff master slave
  by_cases hx : (run Adapter.step env s₀ n).xferDone = true
  · -- a read after a read, with the flags of the read before
    obtain ⟨hread, hn, hack, -⟩ := hflags.chained h.valid hx
    obtain rfl := h.unique hn
    rw [hack] at har
    refine ⟨haw.trans ⟨fun hv => absurd hread hv.1, fun hv => absurd hread hv.1⟩,
      hw.trans ⟨fun hv => absurd hread hv.1, fun hv => absurd hread hv.1⟩,
      har.trans ⟨fun hv => absurd rfl hv.2, fun hv => absurd (hfollows.1 hx) hv.2.2⟩,
      hwritten, hreturned⟩
  · obtain ⟨faw, fw, far⟩ := hflags.fresh a h (by simpa using hx)
    rw [faw] at haw
    rw [fw] at hw
    rw [far] at har
    rw [hfollows] at hx
    exact ⟨haw, hw, har.trans (and_congr_right fun _ => (and_iff_left hx).symm),
      hwritten, hreturned⟩

/-- Without an answer the transaction goes on in the next cycle. -/
theorem Current.waits {a : ℕ} (h : Current env a n) (hready : memReady (env n) = false) :
    Driven env s₀ a (n + 1) ∧ ¬ Follows env (n + 1) ∧ request env (n + 1) = request env n := by
  obtain ⟨hvalid, hreq⟩ := master.hold n h.valid hready
  refine ⟨(h.next hready hvalid).driven hresetn master slave, ?_, hreq⟩
  rintro ⟨p, hp, -, hlow⟩
  obtain rfl := Nat.succ.inj hp
  rw [hready] at hlow
  cases hlow

theorem kept (n : ℕ) : Kept env s₀ n := by
  -- what is offered in vain has not been taken in this cycle either, so there is no answer yet
  have hstay {P : ℕ → Prop} {a : ℕ} (h : Current env a n) (hsince : ¬ Since P a n) (hnow : ¬ P n)
      (hanswer : memReady (env n) = true → Since P a (n + 1)) :
      ¬ Since P a (n + 1) ∧ memReady (env n) = false := by
    have hnone : ¬ Since P a (n + 1) := by
      rw [since_succ h.le]
      exact not_or.2 ⟨hsince, hnow⟩
    exact ⟨hnone, Bool.eq_false_iff.2 fun hready => hnone (hanswer hready)⟩
  refine ⟨fun hv hr => ?_, fun hv hr => ?_, fun hv hr => ?_⟩
  · obtain ⟨a, ha⟩ := Current.exists (Bool.and_eq_true_iff.1 (Bool.and_eq_true_iff.1 hv).1).1
    obtain ⟨hwrite, hsince⟩ := (ha.driven hresetn master slave).aw.1 hv
    obtain ⟨hnone, hready⟩ := hstay ha hsince (fun h => by rw [h.1] at hr; cases hr) fun hready =>
      (slave.write_since master ha ((master.isRead_iff ha le_rfl ha.le).not.1 hwrite) hready).2.2.1
    obtain ⟨hdriven, -, hreq⟩ := ha.waits hresetn master slave hready
    simp only [request, Prod.mk.injEq] at hreq
    exact ⟨hdriven.aw.2 ⟨hwrite, hnone⟩, hreq.2.1⟩
  · obtain ⟨a, ha⟩ := Current.exists (Bool.and_eq_true_iff.1 (Bool.and_eq_true_iff.1 hv).1).1
    obtain ⟨hwrite, hsince⟩ := (ha.driven hresetn master slave).w.1 hv
    obtain ⟨hnone, hready⟩ := hstay ha hsince (fun h => by rw [h.1] at hr; cases hr) fun hready =>
      (slave.write_since master ha ((master.isRead_iff ha le_rfl ha.le).not.1 hwrite) hready).2.2.2
    obtain ⟨hdriven, -, hreq⟩ := ha.waits hresetn master slave hready
    simp only [request, Prod.mk.injEq] at hreq
    exact ⟨hdriven.w.2 ⟨hwrite, hnone⟩, hreq.2.2⟩
  · obtain ⟨a, ha⟩ := Current.exists (Bool.and_eq_true_iff.1 (Bool.and_eq_true_iff.1 hv).1).1
    obtain ⟨hread, hsince, -⟩ := (ha.driven hresetn master slave).ar.1 hv
    obtain ⟨hnone, hready⟩ := hstay ha hsince (fun h => by rw [h.1] at hr; cases hr) fun hready =>
      (slave.read_since master ha ((master.isRead_iff ha le_rfl ha.le).1 hread) hready).2.2
    obtain ⟨hdriven, hfollows, hreq⟩ := ha.waits hresetn master slave hready
    simp only [request, Prod.mk.injEq] at hreq
    exact ⟨hdriven.ar.2 ⟨hread, hnone, hfollows⟩, hreq.2.1, by rw [arprot, arprot, hreq.1]⟩

theorem writeDone {a c : ℕ} (h : Current env a c) (hready : memReady (env c) = true)
    (hwrite : ¬ IsRead env a) : WriteDone env s₀ a c := by
  obtain ⟨hawOnce, hwOnce, -⟩ := atMostOnce hresetn master slave h
  have hwrite' : ∀ k, a ≤ k → k ≤ c → ¬ IsRead env k := fun k hk hkc => by
    rw [master.isRead_iff h hk hkc, ← master.isRead_iff h le_rfl h.le]
    exact hwrite
  obtain ⟨hb, -, haw, hw⟩ := slave.write_since master h (hwrite' c h.le le_rfl) hready
  have hbready : bready (env c) = true := by
    rw [bready, h.valid, bne_iff_ne.2 (hwrite' c h.le le_rfl)]
    rfl
  refine ⟨once_of_since hawOnce haw, once_of_since hwOnce hw, ?_, ?_, ?_, ⟨hb, hbready⟩, ?_⟩
  · exact fun k hk hkc har => hwrite' k hk hkc har.parts.2.1
  · intro k hk hkc
    have hreq := master.request_eq h k hk hkc
    simp only [request, Prod.mk.injEq] at hreq
    exact hreq.2
  · refine ⟨c, h.le, le_rfl, ⟨hb, hbready⟩, fun j hj hjc hbj => ?_⟩
    by_contra hne
    have hlow := (h.pending j hj (by omega)).2
    rw [memReady, hbj.1, Bool.true_or] at hlow
    cases hlow
  · exact fun k hk hkc hr => hwrite' k hk hkc (slave.rvalid_read master hr)

theorem readDone {a c : ℕ} (h : Current env a c) (hready : memReady (env c) = true)
    (hread : IsRead env a) : ReadDone env s₀ a c := by
  obtain ⟨-, -, harOnce⟩ := atMostOnce hresetn master slave h
  have hread' : ∀ k, a ≤ k → k ≤ c → IsRead env k := fun k hk hkc => by
    rw [master.isRead_iff h hk hkc, ← master.isRead_iff h le_rfl h.le]
    exact hread
  obtain ⟨hr, -, har⟩ := slave.read_since master h (hread' c h.le le_rfl) hready
  have hrready : rready (env c) = true := by
    rw [rready, h.valid, beq_iff_eq.2 (hread' c h.le le_rfl)]
    rfl
  refine ⟨once_of_since harOnce har, ?_, ?_, ?_, ?_, ⟨hr, hrready⟩, rfl, ?_⟩
  · exact fun k hk hkc haw => haw.parts.2.1 (hread' k hk hkc)
  · exact fun k hk hkc hw => hw.parts.2.1 (hread' k hk hkc)
  · intro k hk hkc
    have hreq := master.request_eq h k hk hkc
    simp only [request, Prod.mk.injEq] at hreq
    exact ⟨hreq.2.1, by rw [arprot, hreq.1]⟩
  · refine ⟨c, h.le, le_rfl, ⟨hr, hrready⟩, fun j hj hjc hrj => ?_⟩
    by_contra hne
    have hlow := (h.pending j hj (by omega)).2
    rw [memReady, hrj.1, Bool.or_true] at hlow
    cases hlow
  · exact fun k hk hkc hb => slave.bvalid_write master hb (hread' k hk hkc)

/-! ### Completion -/

omit hresetn master slave in
/-- What is offered until it is taken is taken. -/
theorem since_offered {P : ℕ → Prop} {a n : ℕ} (offer ready : ℕ → Bool) (han : a ≤ n)
    (htake : ∀ k, ready k = true → offer k = true → P k)
    (hoffer : ∀ k, n < k → ¬Since P a k → offer k = true)
    (hready : ∀ k, offer k = true → ∃ m, k ≤ m ∧ ready m = true) :
    ∃ m, n ≤ m ∧ Since P a (m + 1) := by
  by_cases hfirst : Since P a (n + 1)
  · exact ⟨n, le_rfl, hfirst⟩
  · obtain ⟨m, hm, hm'⟩ := hready (n + 1) (hoffer (n + 1) (Nat.lt_succ_self n) hfirst)
    refine ⟨m, by omega, ?_⟩
    by_cases hbefore : Since P a m
    · exact since_mono hbefore (Nat.le_succ m)
    · exact ⟨m, by omega, Nat.lt_succ_self m, htake m hm' (hoffer m (by omega) hbefore)⟩

/-- With a slave that answers, a transaction comes to its answer. -/
theorem Answering.answered (answering : Answering env s₀) {a : ℕ} (ha : Current env a n) :
    ∃ c, n ≤ c ∧ Current env a c ∧ memReady (env c) = true := by
  by_contra hno
  have hlow {k : ℕ} (hk : n ≤ k) (h : Current env a k) : memReady (env k) = false :=
    Bool.eq_false_iff.2 fun hready => hno ⟨k, hk, h, hready⟩
  -- without an answer it would go on for ever, offering all that has not been taken
  have hcurrent (k : ℕ) (hk : n ≤ k) : Current env a k := by
    induction k, hk using Nat.le_induction with
    | base => exact ha
    | succ k hk ih => exact ih.next (hlow hk ih) (master.hold k ih.valid (hlow hk ih)).1
  have hnone (k : ℕ) (hk : n ≤ k) : memReady (env k) = false := hlow hk (hcurrent k hk)
  have hdriven (k : ℕ) (hk : n ≤ k) : Driven env s₀ a k :=
    (hcurrent k hk).driven hresetn master slave
  by_cases hread : IsRead env a
  · obtain ⟨m, hm, hsince⟩ := since_offered (P := Ar env s₀)
      (fun k => arvalid (env k) (run Adapter.step env s₀ k)) (fun k => (env k).arready) ha.le
      (fun k hready hoffer => ⟨hready, hoffer⟩)
      (fun k hk hnot => (hdriven k hk.le).ar.2 ⟨hread, hnot, by
        rintro ⟨p, rfl, -, hlow⟩
        rw [hnone p (by omega)] at hlow
        cases hlow⟩) answering.takesAr
    obtain ⟨k, hk, hr⟩ := answering.answersRead a m (hcurrent m hm) hsince
    have hlow := hnone k (by omega)
    rw [memReady, hr, Bool.or_true] at hlow
    cases hlow
  · obtain ⟨m, hm, haw⟩ := since_offered (P := Aw env s₀)
      (fun k => awvalid (env k) (run Adapter.step env s₀ k)) (fun k => (env k).awready) ha.le
      (fun k hready hoffer => ⟨hready, hoffer⟩)
      (fun k hk hnot => (hdriven k hk.le).aw.2 ⟨hread, hnot⟩) answering.takesAw
    obtain ⟨m', hm', hw⟩ := since_offered (P := W env s₀)
      (fun k => wvalid (env k) (run Adapter.step env s₀ k)) (fun k => (env k).wready) ha.le
      (fun k hready hoffer => ⟨hready, hoffer⟩)
      (fun k hk hnot => (hdriven k hk.le).w.2 ⟨hread, hnot⟩) answering.takesW
    obtain ⟨k, hk, hb⟩ := answering.answersWrite a (max m m') (hcurrent _ (by omega))
      (since_mono haw (by omega)) (since_mono hw (by omega))
    have hlow := hnone k (by omega)
    rw [memReady, hb, Bool.true_or] at hlow
    cases hlow

/-- One answer, with a slave that answers. -/
theorem Answering.answered_once (answering : Answering env s₀) {a : ℕ} (ha : Current env a n) :
    ∃! c, Current env a c ∧ memReady (env c) = true := by
  obtain ⟨c, -, hc, hready⟩ := answering.answered hresetn master slave ha
  refine ⟨c, ⟨hc, hready⟩, fun k hk => ?_⟩
  obtain ⟨hk, hready'⟩ := hk
  exact Nat.le_antisymm (hk.le_of_ready hc.le hready) (hc.le_of_ready hk.le hready')

end Transaction

/-- **Every native transaction is performed once.** In each cycle of a request the adapter offers
    what has not been taken yet, with no valid dropped, and a response is the native answer; when
    that comes, each handshake of the transaction has happened once, with its own payload. No
    handshake comes twice, there is none outside a transaction, and with a slave that answers every
    transaction ends, once. -/
theorem each_transaction_once (hresetn : ∀ n, (env n).resetn = true) (master : Master env)
    (slave : Slave env s₀) :
    (∀ n, (env n).memValid = true → ∃ a, Current env a n ∧ Driven env s₀ a n) ∧
    (∀ n, Kept env s₀ n) ∧
    (∀ a c, Current env a c → memReady (env c) = true →
      (¬ IsRead env a → WriteDone env s₀ a c) ∧ (IsRead env a → ReadDone env s₀ a c)) ∧
    (∀ a n, Current env a n → AtMostOnce (Aw env s₀) a n ∧ AtMostOnce (W env s₀) a n ∧
      AtMostOnce (Ar env s₀) a n) ∧
    (∀ n, Aw env s₀ n ∨ W env s₀ n ∨ Ar env s₀ n ∨ memReady (env n) = true →
      ∃ a, Current env a n) ∧
    (Answering env s₀ → ∀ a n, Current env a n →
      ∃! c, Current env a c ∧ memReady (env c) = true) := by
  refine ⟨fun n hvalid => ?_, kept hresetn master slave, fun a c h hready =>
    ⟨writeDone hresetn master slave h hready, readDone hresetn master slave h hready⟩,
    fun a n h => atMostOnce hresetn master slave h, fun n h => ?_,
    fun answering a n h => answering.answered_once hresetn master slave h⟩
  · obtain ⟨a, ha⟩ := Current.exists hvalid
    exact ⟨a, ha, ha.driven hresetn master slave⟩
  · rcases h with h | h | h | h
    · exact Current.exists h.parts.1
    · exact Current.exists h.parts.1
    · exact Current.exists h.parts.1
    · exact Current.exists (slave.valid_of_ready h)

end Run

/-! ## A run -/

/-- No request and a silent slave. -/
def idleWires : Wires where
  resetn := true
  memValid := false
  memInstr := false
  memAddr := 0
  memWdata := 0
  memWstrb := 0
  awready := false
  wready := false
  bvalid := false
  arready := false
  rvalid := false
  rdata := 0

/-- A write whose data are taken before its address, and two reads in a row, the first one answered
    together with its handshake. -/
def sampleWires : ℕ → Wires
  | 1 => { idleWires with memValid := true, memAddr := 8, memWdata := 5, memWstrb := 15, wready := true }
  | 2 => { idleWires with memValid := true, memAddr := 8, memWdata := 5, memWstrb := 15, awready := true }
  | 3 => { idleWires with memValid := true, memAddr := 8, memWdata := 5, memWstrb := 15, bvalid := true }
  | 5 => { idleWires with memValid := true, memAddr := 8, arready := true, rvalid := true, rdata := 5 }
  | 6 => { idleWires with memValid := true, memAddr := 12, arready := true }
  | 7 => { idleWires with memValid := true, memAddr := 12, arready := true }
  | 8 => { idleWires with memValid := true, memAddr := 12, rvalid := true, rdata := 7 }
  | _ => idleWires

/-- The flags as they may power up. -/
def powerUp : Adapter := ⟨false, true, true, true⟩

theorem sampleWires_late {n : ℕ} (h : 9 ≤ n) : sampleWires n = idleWires := by
  obtain ⟨k, rfl⟩ : ∃ k, n = k + 9 := ⟨n - 9, by omega⟩
  rfl

theorem sampleWires_master : Master sampleWires := by
  have hlate : ∀ n, 9 ≤ n → (sampleWires n).memValid ≠ true := by
    intro n hn
    rw [sampleWires_late hn]
    decide
  refine ⟨rfl, fun n hvalid => ?_, fun n hvalid => ?_⟩
  · rcases Nat.lt_or_ge n 9 with h | h
    · revert hvalid
      interval_cases n <;> decide
    · exact absurd hvalid (hlate n h)
  · rcases Nat.lt_or_ge n 9 with h | h
    · revert hvalid
      unfold IsRead
      interval_cases n <;> decide
    · exact absurd hvalid (hlate n h)

theorem sampleWires_slave : Slave sampleWires powerUp := by
  constructor
  · intro n hb
    obtain rfl : n = 3 := by
      rcases Nat.lt_or_ge n 9 with h | h
      · interval_cases n <;> first | rfl | exact absurd hb (by decide)
      · rw [sampleWires_late h] at hb
        exact absurd hb (by decide)
    refine ⟨1, ⟨by decide, rfl, .inr ⟨0, rfl, .inl rfl⟩, fun k hk hkn => ?_⟩,
      ⟨2, by decide, by decide, by unfold Aw; decide⟩, 1, by decide, by decide, by unfold W; decide⟩
    interval_cases k <;> decide
  · intro n hr
    have hn : n = 5 ∨ n = 8 := by
      rcases Nat.lt_or_ge n 9 with h | h
      · interval_cases n <;> first | exact .inl rfl | exact .inr rfl | exact absurd hr (by decide)
      · rw [sampleWires_late h] at hr
        exact absurd hr (by decide)
    rcases hn with rfl | rfl
    · exact ⟨5, ⟨by decide, rfl, .inr ⟨4, rfl, .inl rfl⟩, fun k hk hkn => absurd hkn (by omega)⟩,
        5, by decide, by decide, by unfold Ar; decide⟩
    · refine ⟨6, ⟨by decide, rfl, .inr ⟨5, rfl, .inr rfl⟩, fun k hk hkn => ?_⟩, 7, by decide,
        by decide, by unfold Ar; decide⟩
      interval_cases k <;> decide

theorem sampleWires_lt {n : ℕ} (h : (sampleWires n).memValid = true) : n < 9 := by
  by_contra hn
  rw [sampleWires_late (by omega)] at h
  exact absurd h (by decide)

theorem sampleWires_aw {n : ℕ} (h : Aw sampleWires powerUp n) : n = 2 := by
  have hn := sampleWires_lt h.parts.1
  revert h
  unfold Aw
  interval_cases n <;> decide

theorem sampleWires_ar {n : ℕ} (h : Ar sampleWires powerUp n) : n = 5 ∨ n = 7 := by
  have hn := sampleWires_lt h.parts.1
  revert h
  unfold Ar
  interval_cases n <;> decide

theorem sampleWires_answering : Answering sampleWires powerUp := by
  have hvalid : ∀ {n : ℕ} {b c : Bool}, ((sampleWires n).memValid && b && c) = true → n < 9 :=
    fun h => sampleWires_lt (Bool.and_eq_true_iff.1 (Bool.and_eq_true_iff.1 h).1).1
  refine ⟨fun n h => ⟨2, ?_, rfl⟩, fun n h => ⟨1, ?_, rfl⟩, fun n h => ⟨7, ?_, rfl⟩,
    fun a n ha haw _ => ⟨3, ?_, rfl⟩, fun a n ha har => ⟨8, ?_, rfl⟩⟩
  · have hn := hvalid h
    revert h
    interval_cases n <;> decide
  · have hn := hvalid h
    revert h
    interval_cases n <;> decide
  · have hn := hvalid h
    revert h
    interval_cases n <;> decide
  · obtain ⟨k, hak, -, hk⟩ := haw
    obtain rfl := sampleWires_aw hk
    exact ha.le_of_ready (by omega) rfl
  · obtain ⟨k, hak, -, hk⟩ := har
    rcases sampleWires_ar hk with rfl | rfl
    · exact (ha.le_of_ready hak rfl).trans (by decide)
    · exact ha.le_of_ready (by omega) rfl

theorem each_transaction_once_sample :
    (∀ n, (sampleWires n).memValid = true →
      ∃ a, Current sampleWires a n ∧ Driven sampleWires powerUp a n) ∧
    (∀ n, Kept sampleWires powerUp n) ∧
    (∀ a c, Current sampleWires a c → memReady (sampleWires c) = true →
      (¬ IsRead sampleWires a → WriteDone sampleWires powerUp a c) ∧
        (IsRead sampleWires a → ReadDone sampleWires powerUp a c)) ∧
    (∀ a n, Current sampleWires a n → AtMostOnce (Aw sampleWires powerUp) a n ∧
      AtMostOnce (W sampleWires powerUp) a n ∧ AtMostOnce (Ar sampleWires powerUp) a n) ∧
    (∀ n, Aw sampleWires powerUp n ∨ W sampleWires powerUp n ∨ Ar sampleWires powerUp n ∨
      memReady (sampleWires n) = true → ∃ a, Current sampleWires a n) ∧
    ∀ a n, Current sampleWires a n → ∃! c, Current sampleWires a c ∧
      memReady (sampleWires c) = true := by
  obtain ⟨hdriven, hkept, hdone, hmost, honly, hends⟩ := each_transaction_once (fun n => by
    rcases Nat.lt_or_ge n 9 with h | h
    · interval_cases n <;> rfl
    · rw [sampleWires_late h]
      rfl) sampleWires_master sampleWires_slave
  exact ⟨hdriven, hkept, hdone, hmost, honly, hends sampleWires_answering⟩

end PicoSoc.AxiAdapter
