import PicoSoc.Library.Clocked

set_option autoImplicit false

/-! # Programs over memory-mapped registers

A program writes registers, and polls a register until what it reads passes a test. A host runs it
on a clocked device: it makes an access when the environment lets it, takes the answer in the cycle
after and goes on one more cycle later. `Ends` is total correctness under every fair timing; its
rules follow the program. A `Trace` is a processor seen from the bus, among its other accesses. -/

namespace Mmio

open Clocked

/-- A word of the bus. -/
abbrev Word := BitVec 32

/-! ## Programs -/

/-- What a driver asks of the bus. -/
inductive Access
  | read (addr : Word)
  | write (addr data : Word)

/-- `poll` reads until `test` holds of the word, and goes on with it. -/
inductive Prog (α : Type)
  | ret (a : α)
  | write (addr data : Word) (k : Prog α)
  | poll (addr : Word) (test : Word → Bool) (k : Word → Prog α)

variable {α β : Type}

namespace Prog

/-- A program, and another one with its result. -/
def bind : Prog α → (α → Prog β) → Prog β
  | .ret a, f => f a
  | .write addr data k, f => .write addr data (k.bind f)
  | .poll addr test k, f => .poll addr test fun d => (k d).bind f

instance instMonadProg : Monad Prog where
  pure := .ret
  bind := bind

/-- The access that comes next. -/
def access : Prog α → Option Access
  | .ret _ => none
  | .write addr data _ => some (.write addr data)
  | .poll addr _ _ => some (.read addr)

/-- The program after its access. -/
def answered : Prog α → Word → Prog α
  | .ret a, _ => .ret a
  | .write _ _ k, _ => k
  | .poll addr test k, d => if test d then k d else .poll addr test k

end Prog

/-- A write, `*addr = data`. -/
def store (addr data : Word) : Prog Unit := .write addr data (.ret ())

/-- A read, `*addr`. -/
def load (addr : Word) : Prog Word := .poll addr (fun _ => true) .ret

/-- `while (!test(*addr)) ;` -/
def waitUntil (addr : Word) (test : Word → Bool) : Prog Unit := .poll addr test fun _ => .ret ()

/-! ## The host and the device -/

variable {σ ι : Type}

/-- A clocked device: what a cycle does with an access or without one, and what a read has
    brought, in the cycle after it. -/
structure Target (σ ι : Type) where
  step : ι → Option Access → σ → σ
  rdata : ι → σ → Word

/-- The host before an access, or in the two cycles after one. -/
inductive Host (α : Type)
  | ready (p : Prog α)
  | waiting (k : Word → Prog α)
  | resting (p : Prog α)

/-- A cycle: the host may make an access, and the inputs of the device. -/
structure Cycle (ι : Type) where
  go : Bool
  input : ι

namespace Host

/-- The access of a cycle, in which the driver runs if `go` holds. -/
def access (go : Bool) : Host α → Option Access
  | .ready p => if go then p.access else none
  | .waiting _ => none
  | .resting _ => none

/-- A cycle of the driver, with `d` on the bus. -/
def step (go : Bool) (d : Word) : Host α → Host α
  | .ready p => if go && p.access.isSome then .waiting p.answered else .ready p
  | .waiting k => .resting (k d)
  | .resting p => .ready p

/-- The rest of the driver, and another program with its result. -/
def bind (h : Host α) (f : α → Prog β) : Host β :=
  match h with
  | .ready p => .ready (p.bind f)
  | .waiting k => .waiting fun d => (k d).bind f
  | .resting p => .resting (p.bind f)

end Host

/-- A driver and the device it drives. -/
structure Hosted (σ α : Type) where
  host : Host α
  device : σ

/-- A cycle of both. -/
def Hosted.step (t : Target σ ι) (c : Cycle ι) (s : Hosted σ α) : Hosted σ α where
  host := s.host.step c.go (t.rdata c.input s.device)
  device := t.step c.input (s.host.access c.go) s.device

/-- The host is always let again. -/
def Fair (env : ℕ → Cycle ι) : Prop := ∀ n, ∃ m, n ≤ m ∧ (env m).go = true

/-- The program has not come to its end before cycle `n`. -/
def Busy (t : Target σ ι) (env : ℕ → Cycle ι) (s : Hosted σ α) (n : ℕ) : Prop :=
  ∀ m < n, ∀ a, (run (Hosted.step t) env s m).host ≠ .ready (.ret a)

/-- The program comes to its end, with `Q` of its value and the device. -/
def Returns (t : Target σ ι) (env : ℕ → Cycle ι) (s : Hosted σ α) (Q : α → σ → Prop) : Prop :=
  ∃ n a, Busy t env s n ∧ (run (Hosted.step t) env s n).host = .ready (.ret a)
    ∧ Q a (run (Hosted.step t) env s n).device

/-- From `P` the program comes to its end, whatever the timing. -/
def Ends (t : Target σ ι) (P : σ → Prop) (p : Prog α) (Q : α → σ → Prop) : Prop :=
  ∀ env : ℕ → Cycle ι, Fair env → ∀ s, P s → Returns t env ⟨.ready p, s⟩ Q

/-- What a cycle without an access keeps. -/
def Stable (t : Target σ ι) (P : σ → Prop) : Prop := ∀ i s, P s → P (t.step i none s)

variable {t : Target σ ι} {P R : σ → Prop} {Q : α → σ → Prop} {p : Prog α}
  {env : ℕ → Cycle ι}

theorem Fair.shift (h : Fair env) (k : ℕ) : Fair fun n => env (k + n) := by
  intro n
  obtain ⟨m, hm, hgo⟩ := h (k + n)
  refine ⟨m - k, by omega, ?_⟩
  show (env (k + (m - k))).go = true
  rw [Nat.add_sub_cancel' (by omega), hgo]

/-! ## One access -/

theorem ready_ne_ret {a : Access} (hp : p.access = some a) (b : α) :
    Host.ready p ≠ .ready (.ret b) := by
  intro h
  cases h
  cases hp

/-- The host comes to its access, and nothing else has happened to the device. -/
theorem exists_access (hfair : Fair env) {a : Access} (hp : p.access = some a) (hP : Stable t P)
    {s : σ} (hs : P s) : ∃ n s', P s' ∧ Busy t env ⟨.ready p, s⟩ n
      ∧ run (Hosted.step t) env ⟨.ready p, s⟩ n = ⟨.ready p, s'⟩ ∧ (env n).go = true := by
  classical
  obtain ⟨m, -, hm⟩ := hfair 0
  have hex : ∃ m, (env m).go = true := ⟨m, hm⟩
  -- up to the first cycle in which the host is let, nothing is accessed
  have hwait : ∀ n ≤ Nat.find hex, ∃ s', P s' ∧
      run (Hosted.step t) env ⟨.ready p, s⟩ n = ⟨.ready p, s'⟩ := by
    intro n hn
    induction n with
    | zero => exact ⟨s, hs, rfl⟩
    | succ n ih =>
        obtain ⟨s', hs', hrun⟩ := ih (by omega)
        have hgo : (env n).go = false := by simpa using Nat.find_min hex (show n < _ by omega)
        refine ⟨t.step (env n).input none s', hP _ _ hs', ?_⟩
        rw [run_succ, hrun, Hosted.step, Host.step, Host.access, hgo]
        rfl
  obtain ⟨s', hs', hrun⟩ := hwait _ le_rfl
  refine ⟨_, s', hs', fun k hk b => ?_, hrun, Nat.find_spec hex⟩
  obtain ⟨s'', -, hrun'⟩ := hwait k hk.le
  rw [hrun']
  exact ready_ne_ret hp b

/-- After an access the host goes on with the answer. -/
theorem run_access {s : Hosted σ α} {n : ℕ} {s' : σ} {a : Access} (hbusy : Busy t env s n)
    (hrun : run (Hosted.step t) env s n = ⟨.ready p, s'⟩) (hgo : (env n).go = true)
    (hp : p.access = some a) :
    Busy t env s (n + 3) ∧ run (Hosted.step t) env s (n + 3) =
      ⟨.ready (p.answered (t.rdata (env (n + 1)).input (t.step (env n).input (some a) s'))),
        t.step (env (n + 2)).input none
          (t.step (env (n + 1)).input none (t.step (env n).input (some a) s'))⟩ := by
  have hone : run (Hosted.step t) env s (n + 1) =
      ⟨.waiting p.answered, t.step (env n).input (some a) s'⟩ := by
    rw [run_succ, hrun]
    simp only [Hosted.step, Host.step, Host.access, hgo, hp, Option.isSome_some, Bool.and_self,
      if_true]
  have htwo : run (Hosted.step t) env s (n + 2) =
      ⟨.resting (p.answered (t.rdata (env (n + 1)).input (t.step (env n).input (some a) s'))),
        t.step (env (n + 1)).input none (t.step (env n).input (some a) s')⟩ := by
    rw [run_succ, hone]
    rfl
  refine ⟨fun m hm b => ?_, by rw [run_succ, htwo]; rfl⟩
  rcases Nat.lt_or_ge m n with hlt | hge
  · exact hbusy m hlt b
  · obtain rfl | rfl | rfl : m = n ∨ m = n + 1 ∨ m = n + 2 := by omega
    · rw [hrun]
      exact ready_ne_ret hp b
    · rw [hone]
      exact fun h => by cases h
    · rw [htwo]
      exact fun h => by cases h

theorem returns_of_run (hfair : Fair env) {s : Hosted σ α} {n : ℕ} {s' : σ}
    (hbusy : Busy t env s n) (hrun : run (Hosted.step t) env s n = ⟨.ready p, s'⟩)
    (h : Ends t P p Q) (hs' : P s') : Returns t env s Q := by
  obtain ⟨m, a, hbusy', hret, hQ⟩ := h (fun k => env (n + k)) (hfair.shift n) s' hs'
  refine ⟨n + m, a, fun k hk b => ?_, ?_, ?_⟩
  · rcases Nat.lt_or_ge k n with hlt | hge
    · exact hbusy k hlt b
    · obtain ⟨j, rfl⟩ : ∃ j, k = n + j := ⟨k - n, by omega⟩
      rw [run_add, hrun]
      exact hbusy' j (by omega) b
  · rw [run_add, hrun]
    exact hret
  · rw [run_add, hrun]
    exact hQ

/-! ## Rules -/

theorem Ends.ret {a : α} (h : ∀ s, P s → Q a s) : Ends t P (.ret a) Q :=
  fun _ _ s hs => ⟨0, a, fun _ hm => absurd hm (Nat.not_lt_zero _), rfl, h s hs⟩

theorem Ends.mono {P' : σ → Prop} {Q' : α → σ → Prop} (h : Ends t P p Q) (hP : ∀ s, P' s → P s)
    (hQ : ∀ a s, Q a s → Q' a s) : Ends t P' p Q' := by
  intro env hfair s hs
  obtain ⟨n, a, hbusy, hret, ha⟩ := h env hfair s (hP s hs)
  exact ⟨n, a, hbusy, hret, hQ _ _ ha⟩

theorem Ends.exists {γ : Type} {I : γ → σ → Prop} (h : ∀ x, Ends t (I x) p Q) :
    Ends t (fun s => ∃ x, I x s) p Q := by
  rintro env hfair s ⟨x, hs⟩
  exact h x env hfair s hs

theorem Ends.write {addr data : Word} {k : Prog α} (hP : Stable t P)
    (hstep : ∀ i j l s, P s →
      R (t.step l none (t.step j none (t.step i (some (.write addr data)) s))))
    (hk : Ends t R k Q) : Ends t P (.write addr data k) Q := by
  intro env hfair s hs
  obtain ⟨n, s', hs', hbusy, hrun, hgo⟩ :=
    exists_access (p := .write addr data k) hfair rfl hP hs
  obtain ⟨hbusy', hrun'⟩ := run_access hbusy hrun hgo rfl
  exact returns_of_run hfair hbusy' hrun' hk (hstep _ _ _ _ hs')

/-- Polling ends when the measure `n` of the states comes down with every read that fails. -/
theorem Ends.poll {addr : Word} {test : Word → Bool} {k : Word → Prog α} {I : ℕ → σ → Prop}
    {R : Word → σ → Prop} (hidle : ∀ n i s, I n s → ∃ m ≤ n, I m (t.step i none s))
    (hread : ∀ n i j l s, I n s → ∀ s' d, s' = t.step i (some (.read addr)) s → d = t.rdata j s' →
      (test d = true ∧ R d (t.step l none (t.step j none s'))) ∨
        (test d = false ∧ ∃ m < n, I m (t.step l none (t.step j none s'))))
    (hk : ∀ d, Ends t (R d) (k d) Q) (n : ℕ) : Ends t (I n) (.poll addr test k) Q := by
  induction n using Nat.strong_induction_on with
  | _ n ih =>
      -- the measure may come down on its own before the access
      have hstable : Stable t fun s => ∃ m ≤ n, I m s := by
        rintro i s ⟨m, hm, hs⟩
        obtain ⟨m', hm', hs'⟩ := hidle m i s hs
        exact ⟨m', hm'.trans hm, hs'⟩
      intro env hfair s hs
      obtain ⟨c, s', ⟨m, hm, hs'⟩, hbusy, hrun, hgo⟩ :=
        exists_access (p := .poll addr test k) hfair rfl hstable ⟨n, le_rfl, hs⟩
      obtain ⟨hbusy', hnext⟩ := run_access hbusy hrun hgo rfl
      rcases hread m _ (env (c + 1)).input (env (c + 2)).input s' hs' _ _ rfl rfl with
        ⟨htest, hR⟩ | ⟨htest, m', hm', hI⟩
      · rw [Prog.answered, if_pos htest] at hnext
        exact returns_of_run hfair hbusy' hnext (hk _) hR
      · rw [Prog.answered, if_neg (by rw [htest]; decide)] at hnext
        exact returns_of_run hfair hbusy' hnext (ih m' (by omega)) hI

/-- A single read. -/
theorem Ends.read {addr : Word} {k : Word → Prog α} {R : Word → σ → Prop} (hP : Stable t P)
    (hread : ∀ i j l s, P s → R (t.rdata j (t.step i (some (.read addr)) s))
      (t.step l none (t.step j none (t.step i (some (.read addr)) s))))
    (hk : ∀ d, Ends t (R d) (k d) Q) : Ends t P (.poll addr (fun _ => true) k) Q :=
  Ends.poll (I := fun _ => P) (fun n i s hs => ⟨n, le_rfl, hP i s hs⟩)
    (fun _ i j l s hs s' d hs' hd => .inl ⟨rfl, by rw [hd, hs']; exact hread i j l s hs⟩) hk 0

/-! ## Sequences -/

theorem Host.step_bind (f : α → Prog β) (go : Bool) (d : Word) {h : Host α}
    (hne : ∀ a, h ≠ .ready (.ret a)) :
    (h.bind f).step go d = (h.step go d).bind f ∧ (h.bind f).access go = h.access go := by
  cases h with
  | waiting k => exact ⟨rfl, rfl⟩
  | resting p => exact ⟨rfl, rfl⟩
  | ready p =>
      cases p with
      | ret a => exact absurd rfl (hne a)
      | write addr data k => cases go <;> exact ⟨rfl, rfl⟩
      | poll addr test k =>
          cases go with
          | false => exact ⟨rfl, rfl⟩
          | true =>
              refine ⟨?_, rfl⟩
              show Host.waiting _ = Host.waiting _
              congr 1
              funext d
              show (if test d then (k d).bind f else _) = Prog.bind (if test d then k d else _) f
              split_ifs <;> rfl

theorem Host.bind_ne_ret (f : α → Prog β) {h : Host α} (hne : ∀ a, h ≠ .ready (.ret a)) (b : β) :
    h.bind f ≠ .ready (.ret b) := by
  intro hret
  cases h with
  | waiting k => cases hret
  | resting p => cases hret
  | ready p =>
      cases p with
      | ret a => exact hne a rfl
      | write addr data k => cases hret
      | poll addr test k => cases hret

/-- A program runs like its first part until that ends. -/
theorem run_bind (f : α → Prog β) {s : Hosted σ α} {n : ℕ} (hbusy : Busy t env s n) :
    run (Hosted.step t) env ⟨s.host.bind f, s.device⟩ n =
      ⟨(run (Hosted.step t) env s n).host.bind f, (run (Hosted.step t) env s n).device⟩ := by
  induction n with
  | zero => rfl
  | succ n ih =>
      obtain ⟨hhost, haccess⟩ := Host.step_bind f (env n).go
        (t.rdata (env n).input (run (Hosted.step t) env s n).device)
        (hbusy n (Nat.lt_succ_self n))
      rw [run_succ, ih fun m hm => hbusy m (by omega), run_succ]
      simp only [Hosted.step, hhost, haccess]

theorem Ends.bind {f : α → Prog β} {R : α → σ → Prop} {Q : β → σ → Prop} (h : Ends t P p R)
    (hf : ∀ a, Ends t (R a) (f a) Q) : Ends t P (p.bind f) Q := by
  intro env hfair s hs
  obtain ⟨n, a, hbusy, hret, hR⟩ := h env hfair s hs
  have hrun {m : ℕ} (hm : m ≤ n) : run (Hosted.step t) env ⟨(Host.ready p).bind f, s⟩ m =
      ⟨(run (Hosted.step t) env ⟨.ready p, s⟩ m).host.bind f,
        (run (Hosted.step t) env ⟨.ready p, s⟩ m).device⟩ :=
    run_bind f fun k hk => hbusy k (by omega)
  have hbusy' : Busy t env ⟨.ready (p.bind f), s⟩ n := by
    intro m hm b
    have hm' := hrun hm.le
    show (run (Hosted.step t) env ⟨(Host.ready p).bind f, s⟩ m).host ≠ _
    rw [hm']
    exact Host.bind_ne_ret f (hbusy m hm) b
  have hend : run (Hosted.step t) env ⟨.ready (p.bind f), s⟩ n =
      ⟨.ready (f a), (run (Hosted.step t) env ⟨.ready p, s⟩ n).device⟩ := by
    refine (hrun le_rfl).trans ?_
    rw [hret]
    rfl
  exact returns_of_run hfair hbusy' hend (hf a) hR

/-! ## Traces -/

/-- The accesses of each cycle, and what a read of that cycle brings. -/
structure Trace where
  access : ℕ → Access → Prop
  rdata : ℕ → Word

namespace Trace

variable (tr : Trace) (own : Word → Prop)

/-- Nothing is written in cycle `n` to the registers `own`. -/
def Quiet (n : ℕ) : Prop := ∀ addr data, own addr → ¬ tr.access n (.write addr data)

/-- The polls from cycle `a` on fail up to cycle `n`. -/
def Failing (addr : Word) (test : Word → Bool) (a n : ℕ) : Prop :=
  ∀ m, a ≤ m → m < n → tr.access m (.read addr) → test (tr.rdata m) = false

/-- The poll in cycle `c` is the first from cycle `a` on that passes. -/
structure Passes (addr : Word) (test : Word → Bool) (a c : ℕ) : Prop where
  le : a ≤ c
  read : tr.access c (.read addr)
  passes : test (tr.rdata c) = true
  before : tr.Failing addr test a c

/-- From cycle `a` on the processor runs the program, at its own pace: it comes to each write, it
    polls again as long as the polls fail, and it writes nothing else to the registers `own`. -/
def Executes : Prog α → ℕ → Prop
  | .ret _, _ => True
  | .write addr data k, a => ∃ c, a ≤ c ∧ tr.access c (.write addr data)
      ∧ (∀ n, a ≤ n → n < c → tr.Quiet own n) ∧ Executes k (c + 1)
  | .poll addr test k, a =>
      (∀ n, a ≤ n → tr.Failing addr test a n →
        tr.Quiet own n ∧ ∃ m, n ≤ m ∧ tr.access m (.read addr))
      ∧ ∀ c, tr.Passes addr test a c → Executes (k (tr.rdata c)) (c + 1)

/-- The program that begins in cycle `a` has come to its end before cycle `b`, with the value `v`. -/
def Returns (v : α) (b : ℕ) : Prog α → ℕ → Prop
  | .ret a, n => a = v ∧ n = b
  | .write addr data k, a => ∃ c, a ≤ c ∧ tr.access c (.write addr data) ∧ Returns v b k (c + 1)
  | .poll addr test k, a => ∃ c, tr.Passes addr test a c ∧ Returns v b (k (tr.rdata c)) (c + 1)

variable {tr own}

theorem Failing.mono {addr : Word} {test : Word → Bool} {a n m : ℕ} (h : tr.Failing addr test a n)
    (hm : m ≤ n) : tr.Failing addr test a m := fun k hk hkm => h k hk (by omega)

/-- A loop ends when its polls pass from some cycle on. -/
theorem Executes.passes {addr : Word} {test : Word → Bool} {k : Word → Prog α} {a : ℕ}
    (h : tr.Executes own (.poll addr test k) a) (N : ℕ)
    (hend : ∀ c, a ≤ c → N ≤ c → (∀ n, a ≤ n → n ≤ c → tr.Quiet own n) →
      tr.access c (.read addr) → test (tr.rdata c) = true) :
    ∃ c, tr.Passes addr test a c ∧ (∀ n, a ≤ n → n ≤ c → tr.Quiet own n)
      ∧ tr.Executes own (k (tr.rdata c)) (c + 1) := by
  obtain ⟨hloop, hnext⟩ := h
  have hquiet {c : ℕ} (hc : tr.Failing addr test a c) (n : ℕ) (hn : a ≤ n) (hnc : n ≤ c) :
      tr.Quiet own n := (hloop n hn (hc.mono hnc)).1
  by_contra hno
  -- otherwise all polls fail, those in the end among them
  have hfailing (n : ℕ) : tr.Failing addr test a n := by
    induction n with
    | zero => exact fun m _ hm => absurd hm (Nat.not_lt_zero m)
    | succ n ih =>
        intro m ham hm hread
        rcases Nat.eq_or_lt_of_le (Nat.le_of_lt_succ hm) with rfl | hlt
        · by_contra htest
          have hpass : tr.Passes addr test a m := ⟨ham, hread, by simpa using htest, ih⟩
          exact hno ⟨m, hpass, hquiet ih, hnext m hpass⟩
        · exact ih m ham hlt hread
  obtain ⟨-, m, hm, hread⟩ := hloop (max a N) (le_max_left a N) (hfailing _)
  have htest := hend m (by omega) (by omega) (hquiet (hfailing m)) hread
  rw [hfailing (m + 1) m (by omega) (Nat.lt_succ_self m) hread] at htest
  cases htest

end Trace

end Mmio
