import PicoSoc.Library.Mmio
import PicoSoc.System.Accelerators
import PicoSoc.System.UartTx

set_option autoImplicit false

/-! # The system under a driver

The driver's accesses are those of the look-ahead bus. Between them the processor fetches its code
and uses its memory, below the peripherals. `Resting` is the slot of an accelerator between two
operations. -/

namespace PicoSoc.System

open Bytes Clocked Mmio

/-! ## The target -/

/-- The inputs of a cycle; what the processor does beside the driver is in the memories. -/
structure HostIn where
  io : SocIn
  aside : io.la.addr.toNat < 0x20000
  /-- An undefined word. -/
  undef : Word

/-- The look-ahead signals of an access, with all four strobes at a write. -/
def hostLa (la : LookAhead) : Option Mmio.Access → LookAhead
  | none => la
  | some (.read addr) => { la with addr := addr, laRead := true, laWrite := false }
  | some (.write addr data) =>
    { addr := addr, wdata := data, wstrb := 0b1111, laRead := false, laWrite := true }

def socIn (i : HostIn) (a : Option Mmio.Access) : SocIn := { i.io with la := hostLa i.io.la a }

def socTarget (boot : Ram bootSize) : Target Soc HostIn where
  step i a s := s.step boot (socIn i a)
  rdata i s := s.bus.memRdata.getD i.undef

theorem rdata_step {boot : Ram bootSize} {i j : HostIn} {acc : Option Mmio.Access} {s : Soc}
    {w : Word} (h : (s.step boot (socIn i acc)).bus.memRdata = some w) :
    (socTarget boot).rdata j ((socTarget boot).step i acc s) = w := by
  show (s.step boot (socIn i acc)).bus.memRdata.getD j.undef = w
  rw [h, Option.getD_some]

/-- A processor that gets to its accesses at once. -/
def promptEnv (_ : ℕ) : Mmio.Cycle HostIn :=
  ⟨true, { io := noAccess, aside := by decide, undef := 0 }⟩

theorem promptEnv_fair : Fair promptEnv := fun n => ⟨n, le_rfl, rfl⟩

/-- What every cycle keeps in which the driver writes no label outside `L`. -/
structure Frame (boot : Ram bootSize) (L : Word → Prop) (F : Soc → Prop) : Prop where
  idle : Stable (socTarget boot) F
  read : ∀ i s addr, F s → F ((socTarget boot).step i (some (.read addr)) s)
  write : ∀ i s addr data, L addr → F s →
    F ((socTarget boot).step i (some (.write addr data)) s)

theorem Frame.true (boot : Ram bootSize) (L : Word → Prop) : Frame boot L fun _ => True :=
  ⟨fun _ _ _ => trivial, fun _ _ _ _ => trivial, fun _ _ _ _ _ _ => trivial⟩

theorem Frame.mono {boot : Ram bootSize} {L L' : Word → Prop} {F : Soc → Prop}
    (h : Frame boot L F) (hL : ∀ addr, L' addr → L addr) : Frame boot L' F :=
  ⟨h.idle, h.read, fun i s addr data ha hs => h.write i s addr data (hL addr ha) hs⟩

theorem Frame.and {boot : Ram bootSize} {L : Word → Prop} {F G : Soc → Prop}
    (hF : Frame boot L F) (hG : Frame boot L G) : Frame boot L fun s => F s ∧ G s :=
  ⟨fun i s h => ⟨hF.idle i s h.1, hG.idle i s h.2⟩,
    fun i s addr h => ⟨hF.read i s addr h.1, hG.read i s addr h.2⟩,
    fun i s addr data ha h => ⟨hF.write i s addr data ha h.1, hG.write i s addr data ha h.2⟩⟩

theorem Frame.exists {γ : Type} {boot : Ram bootSize} {L : Word → Prop} {F : γ → Soc → Prop}
    (h : ∀ x, Frame boot L (F x)) : Frame boot L fun s => ∃ x, F x s :=
  ⟨fun i s ⟨x, hs⟩ => ⟨x, (h x).idle i s hs⟩, fun i s addr ⟨x, hs⟩ => ⟨x, (h x).read i s addr hs⟩,
    fun i s addr data ha ⟨x, hs⟩ => ⟨x, (h x).write i s addr data ha hs⟩⟩

/-! ## Slots -/

variable {ρ ι σ α : Type}

/-- Where a slot sits, and what its core does without a start. -/
structure Slot.Lawful (a : Slot ρ ι σ α) : Prop where
  regs_step : ∀ boot i s, a.regs (Soc.step boot i s) =
    if i.la.laWrite = true ∧ ¬InApp i.la.addr then
      onLabel a.writes i.la.addr i.la.wdata (a.clear (a.regs s))
    else a.clear (a.regs s)
  core_step : ∀ boot i s, a.core (Soc.step boot i s) = a.step (a.inputs (a.regs s)) (a.core s)
  sticky_step : ∀ boot i s, a.sticky (Soc.step boot i s) =
    (a.sticky s).step (a.start (a.regs s)) (a.done (a.core s)) (a.valid (a.core s))
  above : ∀ e ∈ a.writes, 0x20000000 ≤ e.1.toNat
  start_clear : ∀ r, a.start (a.clear r) = false
  clear_clear : ∀ r, a.clear (a.clear r) = a.clear r
  rest : ∀ r c, a.start r = false → a.idle c → a.idle (a.step (a.inputs r) c)
    ∧ a.out (a.step (a.inputs r) c) = a.out c ∧ a.done (a.step (a.inputs r) c) = false

/-- Nothing runs: the registers, the results of the last operation and its flags. -/
structure Slot.Resting (a : Slot ρ ι σ α) (r : ρ) (o : α) (k : Sticky) (s : Soc) : Prop where
  regs : a.regs s = r
  clear : a.clear r = r
  idle : a.idle (a.core s)
  done : a.done (a.core s) = false
  out : a.out (a.core s) = o
  sticky : a.sticky s = k

/-- The slot at rest, and the rest of the system in `F`. -/
def Slot.At (a : Slot ρ ι σ α) (F : Soc → Prop) (r : ρ) (o : α) (k : Sticky) (s : Soc) : Prop :=
  a.Resting r o k s ∧ F s

/-- Accesses that write none of the registers of the slot. -/
def Slot.Spares (a : Slot ρ ι σ α) (acc : Option Mmio.Access) : Prop :=
  ∀ addr data, acc = some (.write addr data) → a.writes.lookup addr = none

theorem Slot.spares_none (a : Slot ρ ι σ α) : a.Spares none := fun _ _ h => by cases h

theorem Slot.spares_read (a : Slot ρ ι σ α) (addr : Word) : a.Spares (some (.read addr)) :=
  fun _ _ h => by cases h

theorem Slot.spares_write {a : Slot ρ ι σ α} {addr data : Word} (h : a.writes.lookup addr = none) :
    a.Spares (some (.write addr data)) := fun _ _ he => by
  cases he
  exact h

section

variable {a : Slot ρ ι σ α} (ha : a.Lawful) {boot : Ram bootSize} {i : HostIn} {s : Soc} {r : ρ}
  {o : α} {k : Sticky} {acc : Option Mmio.Access}

include ha

theorem Slot.Lawful.not_inApp {addr : Word} {f : Word → ρ → ρ}
    (h : a.writes.lookup addr = some f) : ¬InApp addr := by
  obtain ⟨l₁, l₂, hl, -⟩ := List.lookup_eq_some_iff.1 h
  have habove := ha.above (addr, f) (by rw [hl]; simp)
  intro happ
  have htop : addr.extractLsb' 16 16 = 0x0001 := happ
  have hone : (0x0001 : BitVec 16).toNat = 1 := rfl
  rw [← BitVec.toNat_inj, BitVec.extractLsb'_toNat, Nat.shiftRight_eq_div_pow, hone] at htop
  have hlt := addr.isLt
  have habove : 0x20000000 ≤ addr.toNat := habove
  omega

/-- The registers of a slot change by the writes of the driver to them only. -/
theorem Slot.Lawful.regs_spared (hacc : a.Spares acc) :
    a.regs ((socTarget boot).step i acc s) = a.clear (a.regs s) := by
  show a.regs (s.step boot (socIn i acc)) = _
  rw [ha.regs_step]
  split_ifs with hw
  · cases acc with
    | none =>
        have haside := i.aside
        refine onLabel_of_none (lookup_eq_none_iff.2 fun hmem => ?_) _ _
        obtain ⟨e, he, hlabel⟩ := List.mem_map.1 hmem
        have habove := ha.above e he
        rw [hlabel] at habove
        have habove : 0x20000000 ≤ i.io.la.addr.toNat := habove
        omega
    | some x =>
        cases x with
        | read addr => exact absurd hw.1 Bool.false_ne_true
        | write addr data => exact onLabel_of_none (hacc addr data rfl) _ _
  · rfl

/-- A slot at rest stays as it is. -/
theorem Slot.Resting.step (h : a.Resting r o k s) (hacc : a.Spares acc) :
    a.Resting r o k ((socTarget boot).step i acc s) := by
  have hlow : a.start (a.regs s) = false := by rw [h.regs, ← h.clear, ha.start_clear]
  obtain ⟨hidle, hout, hdone⟩ := ha.rest _ _ hlow h.idle
  have hcore : a.core ((socTarget boot).step i acc s) = _ := ha.core_step boot (socIn i acc) s
  rw [← hcore] at hidle hout hdone
  refine ⟨?_, h.clear, hidle, hdone, hout.trans h.out, ?_⟩
  · rw [ha.regs_spared hacc, h.regs, h.clear]
  · refine (ha.sticky_step boot (socIn i acc) s).trans ?_
    rw [hlow, h.done, h.sticky]
    rfl

/-- A write to a register of the slot. -/
theorem Slot.Resting.written (h : a.Resting r o k s) {addr data : Word} {f : Word → ρ → ρ}
    (hf : a.writes.lookup addr = some f) {s' : Soc}
    (hs' : s' = (socTarget boot).step i (some (.write addr data)) s) :
    a.regs s' = f data r ∧ a.idle (a.core s') ∧ a.done (a.core s') = false
      ∧ a.out (a.core s') = o ∧ a.sticky s' = k := by
  have hlow : a.start (a.regs s) = false := by rw [h.regs, ← h.clear, ha.start_clear]
  obtain ⟨hidle, hout, hdone⟩ := ha.rest _ _ hlow h.idle
  have hcore : a.core s' = a.step (a.inputs (a.regs s)) (a.core s) := by
    rw [hs']
    exact ha.core_step boot (socIn i (some (.write addr data))) s
  rw [← hcore] at hidle hout hdone
  refine ⟨?_, hidle, hdone, hout.trans h.out, ?_⟩
  · rw [hs']
    refine (ha.regs_step boot (socIn i (some (.write addr data))) s).trans ?_
    rw [if_pos ⟨rfl, ha.not_inApp hf⟩, h.regs, h.clear]
    exact onLabel_of_some hf _ _
  · rw [hs']
    refine (ha.sticky_step boot (socIn i (some (.write addr data))) s).trans ?_
    rw [hlow, h.done, h.sticky]
    rfl

/-- A write to a register of operands. -/
theorem Slot.Resting.put (h : a.Resting r o k s) {addr data : Word} {f : Word → ρ → ρ}
    (hf : a.writes.lookup addr = some f) (hclear : a.clear (f data r) = f data r) :
    a.Resting (f data r) o k ((socTarget boot).step i (some (.write addr data)) s) := by
  have hs' := Eq.refl ((socTarget boot).step i (some (.write addr data)) s)
  obtain ⟨hregs, hidle, hdone, hout, hsticky⟩ := h.written ha hf hs'
  exact ⟨hregs, hclear, hidle, hdone, hout, hsticky⟩

end

/-! ## Operations -/

/-- The inputs of the core from the start pulse on. -/
def Slot.opEnv (a : Slot ρ ι σ α) (r : ρ) (n : ℕ) : ι :=
  if n = 0 then a.inputs r else a.inputs (a.clear r)

/-- The operation from core `c` ends after `n` cycles, with output `o` and `valid` as `v`. -/
structure Slot.EndsWith (a : Slot ρ ι σ α) (r : ρ) (o : α) (v : Bool) (c : σ) (n : ℕ) : Prop where
  done : FirstDone a.step (a.opEnv r) c a.done n
  idle : a.idle (run a.step (a.opEnv r) c n)
  out : a.out (run a.step (a.opEnv r) c n) = o
  valid : a.valid (run a.step (a.opEnv r) c n) = v

/-- What the operation with the registers `r` computes. -/
def Slot.Computes (a : Slot ρ ι σ α) (r : ρ) (o : α) (v : Bool) : Prop :=
  ∀ c, a.idle c → ∃ n, a.EndsWith r o v c n

/-- The operation has `n` cycles to go until a poll sees its end. -/
inductive Slot.Polling (a : Slot ρ ι σ α) (r : ρ) (o : α) (v : Bool) : ℕ → Soc → Prop
  | running {c : σ} {m n l : ℕ} {s : Soc} (hends : a.EndsWith r o v c n) (hm : 0 < m) (hmn : m ≤ n)
      (hl : l + m = n + 1) (hregs : a.regs s = a.clear r)
      (hcore : a.core s = run a.step (a.opEnv r) c m) (hsticky : a.sticky s = ⟨false, false⟩) :
      Slot.Polling a r o v l s
  | ended {s : Soc} (h : a.Resting (a.clear r) o ⟨true, v⟩ s) : Slot.Polling a r o v 0 s

section

variable {a : Slot ρ ι σ α} (ha : a.Lawful) {boot : Ram bootSize} {i : HostIn} {s : Soc} {r : ρ}
  {o : α} {k : Sticky} {v : Bool} {acc : Option Mmio.Access}

include ha

/-- A cycle of the operation. -/
theorem Slot.Polling.step {n : ℕ} (h : a.Polling r o v n s) (hacc : a.Spares acc) :
    a.Polling r o v (n - 1) ((socTarget boot).step i acc s) := by
  cases h with
  | ended h => exact .ended (h.step ha hacc)
  | @running c m n' _ _ hends hm hmn hl hregs hcore hsticky =>
      have hregs' : a.regs ((socTarget boot).step i acc s) = a.clear r := by
        rw [ha.regs_spared hacc, hregs, ha.clear_clear]
      have hcore' : a.core ((socTarget boot).step i acc s) = run a.step (a.opEnv r) c (m + 1) := by
        refine (ha.core_step boot (socIn i acc) s).trans ?_
        rw [hregs, hcore, run_succ, opEnv, if_neg (by omega)]
      have hsticky' : a.sticky ((socTarget boot).step i acc s) =
          (⟨false, false⟩ : Sticky).step false (a.done (a.core s)) (a.valid (a.core s)) := by
        refine (ha.sticky_step boot (socIn i acc) s).trans ?_
        rw [hregs, ha.start_clear, hsticky]
      rcases Nat.lt_or_ge m n' with hlt | hge
      · have hlow : a.done (a.core s) = false := by
          rw [hcore]
          exact hends.done.low m hm hlt
        rw [hlow] at hsticky'
        exact .running hends (Nat.succ_pos m) hlt (by omega) hregs' hcore' hsticky'
      · -- `done` is high in this cycle
        obtain rfl : m = n' := by omega
        obtain rfl : n = 1 := by omega
        have hnext := ha.rest (a.clear r) (run a.step (a.opEnv r) c m) (ha.start_clear r) hends.idle
        have hcore'' : run a.step (a.opEnv r) c (m + 1) =
            a.step (a.inputs (a.clear r)) (run a.step (a.opEnv r) c m) := by
          rw [run_succ, opEnv, if_neg (by omega)]
        rw [← hcore'', ← hcore'] at hnext
        refine .ended ⟨hregs', ha.clear_clear r, hnext.1, hnext.2.2, hnext.2.1.trans hends.out, ?_⟩
        rw [hsticky', hcore, hends.done.high, hends.valid]
        rfl

/-- The write to CTRL. -/
theorem Slot.Resting.starts (h : a.Resting r o k s) {ctrl data : Word} {f : Word → ρ → ρ}
    (hf : a.writes.lookup ctrl = some f) (hstart : a.start (f data r) = true) {o' : α}
    (hop : a.Computes (f data r) o' v) (j : HostIn) : ∃ n, a.Polling (f data r) o' v n
      ((socTarget boot).step j none ((socTarget boot).step i (some (.write ctrl data)) s)) := by
  generalize hs' : (socTarget boot).step i (some (.write ctrl data)) s = s'
  obtain ⟨hregs, hidle, -, -, -⟩ := h.written ha hf hs'.symm
  obtain ⟨n, hends⟩ := hop _ hidle
  refine ⟨n, .running (m := 1) hends Nat.one_pos hends.done.pos rfl ?_ ?_ ?_⟩
  · rw [ha.regs_spared a.spares_none, hregs]
  · refine (ha.core_step boot (socIn j none) s').trans ?_
    rw [hregs]
    rfl
  · refine (ha.sticky_step boot (socIn j none) s').trans ?_
    rw [hregs, hstart]
    rfl

theorem Slot.Lawful.stable_at {L : Word → Prop} {F : Soc → Prop} (hF : Frame boot L F) :
    Stable (socTarget boot) (a.At F r o k) :=
  fun i s h => ⟨h.1.step ha a.spares_none, hF.idle i s h.2⟩

/-- A slot at rest is a frame for what does not write its registers. -/
theorem Slot.Lawful.frame {L : Word → Prop} (hL : ∀ addr, L addr → a.writes.lookup addr = none) :
    Frame boot L (a.Resting r o k) :=
  ⟨fun _ _ h => h.step ha a.spares_none, fun _ _ addr h => h.step ha (a.spares_read addr),
    fun _ _ _ _ haddr h => h.step ha (a.spares_write (hL _ haddr))⟩

/-! ## Rules for drivers -/

variable {β : Type} {Q : β → Soc → Prop} {L : Word → Prop} {F : Soc → Prop}

/-- `*addr = data` on a register of operands. -/
theorem Slot.Lawful.ends_store (hF : Frame boot L F) {addr data : Word} (hL : L addr)
    {f : Word → ρ → ρ} (hf : a.writes.lookup addr = some f)
    (hclear : ∀ d r, a.clear (f d r) = f d (a.clear r)) {g : Unit → Prog β}
    (hg : Ends (socTarget boot) (a.At F (f data r) o k) (g ()) Q) :
    Ends (socTarget boot) (a.At F r o k) (store addr data >>= g) Q := by
  refine Ends.write (ha.stable_at hF) (fun i j l s h => ha.stable_at hF l _ ⟨?_, ?_⟩) hg
  · refine (h.1.put ha hf ?_).step ha a.spares_none
    rw [hclear, h.1.clear]
  · exact hF.idle j _ (hF.write i s addr data hL h.2)

/-- The operation: CTRL, and STATUS until `done`. -/
theorem Slot.Lawful.ends_operation (hF : Frame boot L F) {ctrl status data : Word} (hL : L ctrl)
    {f : Word → ρ → ρ} (hf : a.writes.lookup ctrl = some f) (hstart : a.start (f data r) = true)
    {o' : α} (hop : a.Computes (f data r) o' v) {test : Word → Bool}
    (hstatus : ∀ boot i s, SocIn.reads i status →
      ∃ d, (Soc.step boot i s).bus.memRdata = some d ∧ test d = (a.sticky s).done)
    {g : Unit → Prog β}
    (hg : Ends (socTarget boot) (a.At F (a.clear (f data r)) o' ⟨true, v⟩) (g ()) Q) :
    Ends (socTarget boot) (a.At F r o k)
      (store ctrl data >>= fun _ => waitUntil status test >>= g) Q := by
  refine Ends.write (R := fun s => ∃ n, a.Polling (f data r) o' v n s ∧ F s) (ha.stable_at hF)
    (fun i j l s h => ?_) ?_
  · obtain ⟨n, hn⟩ := h.1.starts ha hf hstart hop j
    exact ⟨n - 1, hn.step ha a.spares_none,
      hF.idle l _ (hF.idle j _ (hF.write i s ctrl data hL h.2))⟩
  refine Ends.exists fun n => Ends.poll (I := fun n s => a.Polling (f data r) o' v n s ∧ F s)
    (R := fun _ => a.At F (a.clear (f data r)) o' ⟨true, v⟩)
    (fun n i s h => ⟨n - 1, Nat.sub_le n 1, h.1.step ha a.spares_none, hF.idle i s h.2⟩)
    (fun n i j l s h s' d hs' hd => ?_) (fun _ => hg) n
  obtain ⟨w, hw, htest⟩ := hstatus boot (socIn i (some (.read status))) s ⟨rfl, rfl⟩
  have hd : d = w := by
    rw [hd, hs']
    exact rdata_step hw
  have hread : a.Polling (f data r) o' v (n - 1) s' := by
    rw [hs']
    exact h.1.step ha (a.spares_read status)
  have hnext : a.Polling (f data r) o' v (n - 1 - 1 - 1)
      ((socTarget boot).step l none ((socTarget boot).step j none s')) :=
    (hread.step ha a.spares_none).step ha a.spares_none
  have hF' : F ((socTarget boot).step l none ((socTarget boot).step j none s')) := by
    rw [hs']
    exact hF.idle l _ (hF.idle j _ (hF.read i s status h.2))
  rw [hd, htest]
  cases h.1 with
  | ended h =>
      refine .inl ⟨congrArg Sticky.done h.sticky, ?_, hF'⟩
      rw [hs']
      exact ((h.step ha (a.spares_read status)).step ha a.spares_none).step ha a.spares_none
  | running _ hm hmn hl _ _ hsticky =>
      exact .inr ⟨congrArg Sticky.done hsticky, _, by omega, hnext, hF'⟩

/-- A read that the results of the operation determine. -/
theorem Slot.Lawful.ends_load (hF : Frame boot L F) {addr w : Word} {g : Word → Prog β}
    (hread : ∀ boot i s, a.Resting r o k s → SocIn.reads i addr →
      (Soc.step boot i s).bus.memRdata = some w)
    (hg : Ends (socTarget boot) (a.At F r o k) (g w) Q) :
    Ends (socTarget boot) (a.At F r o k) (load addr >>= g) Q := by
  refine Ends.read (R := fun d s => d = w ∧ a.At F r o k s) (ha.stable_at hF)
    (fun i j l s h => ⟨?_, ?_⟩) fun d => ?_
  · exact rdata_step (hread boot (socIn i (some (.read addr))) s h.1 ⟨rfl, rfl⟩)
  · refine ha.stable_at hF l _ (ha.stable_at hF j _ ⟨?_, hF.read i s addr h.2⟩)
    exact h.1.step ha (a.spares_read addr)
  · intro env hfair s hs
    obtain ⟨rfl, hs⟩ := hs
    exact hg env hfair s hs

end

end PicoSoc.System
