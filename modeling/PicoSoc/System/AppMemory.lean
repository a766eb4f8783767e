import PicoSoc.Library.Clocked
import PicoSoc.System.Bus

set_option autoImplicit false

/-! # The application memory

The region `0x0001_0000 … 0x0001_FFFF` is decoded by `mem_la_addr[31:16]`, the array behind it has
`APP_SIZE` words. The stores of a run, in their order, say what the reads must return. -/

namespace PicoSoc.System

open Bytes Clocked

/-! ## Accesses to the application memory -/

/-- What the bus sees in one cycle. -/
structure BusIn where
  resetn : Bool
  periph : Periph
  la : LookAhead

def Bus.fast (boot : Ram bootSize) (i : BusIn) (s : Bus) : Bus := s.fastStep boot i.resetn i.periph i.la

/-- The store of a cycle, if it has one. -/
def BusIn.appStore (i : BusIn) : List Store :=
  if i.resetn = true ∧ i.la.laWrite = true ∧ InApp i.la.addr then
    [⟨appIndex i.la.addr, i.la.wstrb, i.la.wdata⟩]
  else []

/-- The cycle reads word `k` of the application memory. -/
def BusIn.ReadsApp (i : BusIn) (k : ℕ) : Prop :=
  i.resetn = true ∧ i.la.laRead = true ∧ InApp i.la.addr ∧ appIndex i.la.addr = k

/-- The stores before cycle `n`, oldest first. -/
def appStores (env : ℕ → BusIn) (n : ℕ) : List Store := (List.range n).flatMap fun k => (env k).appStore

theorem appStores_succ (env : ℕ → BusIn) (n : ℕ) :
    appStores env (n + 1) = appStores env n ++ (env n).appStore := by
  rw [appStores, List.range_succ, List.flatMap_append, List.flatMap_singleton]
  rfl

/-! ## One cycle -/

theorem appMem_fastWrite (p : Periph) (old : Regs) (a : Access) (r : Regs) :
    (fastWrite p old a r).appMem =
      if InApp a.addr then r.appMem.write ⟨appIndex a.addr, a.wstrb, a.wdata⟩ else r.appMem := by
  unfold fastWrite
  by_cases happ : InApp a.addr
  · rw [if_pos happ, if_pos happ]
    rfl
  · rw [if_neg happ, if_neg happ]
    refine onLabel_preserves Regs.appMem r a.wdata ?_ a.addr
    intro e he
    simp only [fastIoWrites, List.mem_cons, List.not_mem_nil, or_false] at he
    rcases he with rfl | rfl | rfl | rfl | rfl | rfl
    · rfl
    · dsimp only [uartTxWrite]
      split <;> rfl
    · rfl
    · dsimp only
      split <;> rfl
    · rfl
    · rfl

/-- The array changes by the store of the cycle only. -/
theorem appMem_fast (boot : Ram bootSize) (i : BusIn) (s : Bus) :
    (s.fast boot i).regs.appMem = s.regs.appMem.stores i.appStore := by
  by_cases hresetn : i.resetn = true
  · have hidle : (if i.la.laRead && i.la.addr == 0x10000008 then s.regs.idle.rxRead
        else s.regs.idle).appMem = s.regs.appMem := by
      split <;> rfl
    rw [Bus.fast, Bus.fastStep, if_pos hresetn]
    by_cases hwrite : i.la.laWrite = true
    · simp only [hwrite, if_true]
      rw [appMem_fastWrite, hidle]
      by_cases happ : InApp i.la.addr
      · have hstore : i.appStore = [⟨appIndex i.la.addr, i.la.wstrb, i.la.wdata⟩] :=
          if_pos ⟨hresetn, hwrite, happ⟩
        rw [if_pos happ, hstore, Ram.stores_singleton]
      · have hstore : i.appStore = [] := if_neg fun h => happ h.2.2
        rw [if_neg happ, hstore, Ram.stores_nil]
    · have hstore : i.appStore = [] := if_neg fun h => hwrite h.2.1
      simp only [hwrite, Bool.false_eq_true, if_false]
      rw [hstore, Ram.stores_nil]
      exact hidle
  · have hstore : i.appStore = [] := if_neg fun h => hresetn h.1
    rw [Bus.fast, Bus.fastStep, if_neg hresetn, hstore, Ram.stores_nil]
    rfl

/-- No label of the peripheral reads lies in the region. -/
theorem fastReads_app (p : Periph) (r : Regs) {addr : BitVec 32} (h : InApp addr) :
    (fastReads p r).lookup addr = none := by
  rw [lookup_eq_none_iff, fastReads_labels]
  have hlabels : ∀ k ∈ readLabels, ¬ InApp k := by simp [readLabels, InApp]
  exact fun hmem => hlabels addr hmem h

theorem memRdata_app (boot : Ram bootSize) {i : BusIn} {k : ℕ} (h : i.ReadsApp k) (s : Bus) :
    (s.fast boot i).memRdata = s.regs.appMem.read k := by
  obtain ⟨hresetn, hread, happ, rfl⟩ := h
  have hboot : ¬ i.la.addr < 0x00010000 := by
    have htop : i.la.addr.extractLsb' 16 16 = 0x0001 := happ
    have hbase : (0x00010000 : BitVec 32).toNat = 0x10000 := rfl
    have hone : (0x0001 : BitVec 16).toNat = 1 := rfl
    intro hlt
    rw [← BitVec.toNat_inj, BitVec.extractLsb'_toNat, Nat.shiftRight_eq_div_pow, hone] at htop
    rw [BitVec.lt_def, hbase] at hlt
    omega
  unfold Bus.fast Bus.fastStep
  simp only [hresetn, hread, if_true, fastReads_app _ _ happ, Option.none_or]
  rw [bramRead, if_neg hboot, if_pos happ]

/-! ## Runs -/

variable (boot : Ram bootSize) (env : ℕ → BusIn) (s : Bus)

theorem appMem_run (n : ℕ) :
    (run (Bus.fast boot) env s n).regs.appMem = s.regs.appMem.stores (appStores env n) := by
  induction n with
  | zero => rfl
  | succ n ih => rw [run_succ, appMem_fast, ih, appStores_succ, Ram.stores_append]

/-- Every read of a word that has been written returns the last value written to each byte. -/
def ReturnsLastWrite : Prop :=
  ∀ n k, (env n).ReadsApp k → Stored (appStores env n) k →
    ∃ w, (run (Bus.fast boot) env s (n + 1)).memRdata = some w ∧
      ∀ b < 4, ∀ v, lastByte (appStores env n) k b = some v → byteLE w b = v

/-- A write to one word changes no other. -/
def WritesOneWord : Prop :=
  ∀ n k, (∀ w ∈ (env n).appStore, w.index ≠ k) →
    (run (Bus.fast boot) env s (n + 1)).regs.appMem.read k =
      (run (Bus.fast boot) env s n).regs.appMem.read k

/-- No word past the array is read after it has been written. -/
def NoReadBackPastEnd : Prop :=
  ∀ n k, (env n).ReadsApp k → Stored (appStores env n) k → k < appSize

theorem writesOneWord : WritesOneWord boot env s := by
  intro n k hk
  rw [run_succ, appMem_fast]
  cases hstore : (env n).appStore with
  | nil => rfl
  | cons w rest =>
      have hrest : rest = [] := by
        unfold BusIn.appStore at hstore
        split at hstore
        · exact (List.cons.inj hstore).2.symm
        · exact absurd hstore (List.cons_ne_nil _ _).symm
      subst hrest
      rw [hstore] at hk
      exact Ram.read_write_ne _ _ (hk w (List.mem_singleton_self _))

theorem returnsLastWrite_iff : ReturnsLastWrite boot env s ↔ NoReadBackPastEnd env := by
  constructor
  · intro hram n k hread hstored
    obtain ⟨w, hw, -⟩ := hram n k hread hstored
    rw [run_succ, memRdata_app boot hread] at hw
    by_contra hge
    rw [Ram.read_of_ge _ (Nat.le_of_not_lt hge)] at hw
    exact absurd hw (Option.some_ne_none w).symm
  · intro hend n k hread hstored
    have hk := hend n k hread hstored
    refine ⟨(s.regs.appMem.stores (appStores env n))[k], ?_, ?_⟩
    · rw [run_succ, memRdata_app boot hread, appMem_run]
      exact Ram.read_of_lt _ hk
    · intro b hb v hlast
      rw [(Ram.byteLE_stores _ _ hk hb).2, hlast, Option.getD_some]

/-- The region behaves as a memory exactly in the runs that read back nothing past the array. -/
theorem app_memory_iff :
    ReturnsLastWrite boot env s ∧ WritesOneWord boot env s ↔ NoReadBackPastEnd env := by
  rw [returnsLastWrite_iff]
  exact and_iff_left (writesOneWord boot env s)

/-- The first word past the array is written, then read. -/
def pastEnd (n : ℕ) : BusIn where
  resetn := true
  periph := .initial
  la := ⟨⟨0x00014000, 0, 0xF⟩, n == 1, n == 0⟩

theorem past_end_not_read_back :
    ¬ (ReturnsLastWrite (Vector.replicate bootSize 0) pastEnd .initial ∧
      WritesOneWord (Vector.replicate bootSize 0) pastEnd .initial) := by
  rintro ⟨hram, -⟩
  have hread : (pastEnd 1).ReadsApp appSize := ⟨rfl, rfl, by decide, by decide⟩
  have hstored : Stored (appStores pastEnd 1) appSize := ⟨0, by decide, by decide⟩
  have hlt := (returnsLastWrite_iff _ _ _).1 hram 1 appSize hread hstored
  exact lt_irrefl _ hlt

end PicoSoc.System
