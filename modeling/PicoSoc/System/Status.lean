import PicoSoc.System.Accelerators

set_option autoImplicit false

/-! # What a poll of STATUS shows

CTRL write, start pulse, cleared flag, machine and `done` are each one cycle apart. With accesses at
least three cycles apart no poll falls between them: a flag that a read returns belongs to the
operation of the last CTRL write, and a request bit to a block that is still to be served. -/

namespace PicoSoc.System

open Bytes Clocked

section

variable (boot : Ram bootSize) (s₀ : Soc) (env : ℕ → SocIn)

/-- Bit `k` of what the read in cycle `u` returns. -/
def readBit (u k : ℕ) : Bool := (s₀.run boot env (u + 1)).bus.memRdata.any (·.getLsbD k)

/-! ## Statements -/

section

variable {σ ι α : Type} (a : Accel σ ι α)

/-- CTRL is written again only after a read of STATUS has returned `done` since the last write. -/
def Accel.Polls : Prop :=
  ∀ n, (env n).writes a.ctrl → (∃ m < n, (env m).writes a.ctrl) →
    ∃ u < n, (env u).reads a.status ∧ readBit boot s₀ env u 1 = true
      ∧ ∀ m < n, (env m).writes a.ctrl → m < u

/-- The last write to CTRL before cycle `n` is in cycle `t`. -/
structure Accel.LastWrite (t n : ℕ) : Prop where
  write : (env t).writes a.ctrl
  before : t < n
  last : ∀ m, t < m → m < n → ¬(env m).writes a.ctrl

/-- The idle core takes the start pulse of the write in cycle `t`, and finishes `k` cycles after
    it. -/
structure Accel.OperationEnds (t k : ℕ) : Prop where
  idle : a.idle (a.core (s₀.run boot env (t + 1)))
  start : a.start (s₀.run boot env (t + 1)) = true
  ends : FirstDone a.step (fun j => a.inputs (s₀.run boot env (t + 1 + j)))
    (a.core (s₀.run boot env (t + 1))) a.done k

/-- A read of STATUS that returns `done` comes after the end of the operation of the last CTRL write
    and returns its `valid`; the output registers keep the results until the next CTRL write. -/
def Accel.Current : Prop :=
  ∀ t u, a.LastWrite env t u → (env u).reads a.status → readBit boot s₀ env u 1 = true →
    ∃ k, a.OperationEnds boot s₀ env t k ∧ t + 1 + k < u
      ∧ readBit boot s₀ env u 0 = a.valid (a.core (s₀.run boot env (t + 1 + k)))
      ∧ ∀ w, t + 1 + k ≤ w → a.LastWrite env t w →
        a.out (a.core (s₀.run boot env w)) = a.out (a.core (s₀.run boot env (t + 1 + k)))

end

/-- A request of the GIFT-COFB core: where it waits, where the acknowledge takes it, and the bits
    of STATUS and ACK. -/
structure Channel where
  waits : GiftCofb.FsmState
  next : GiftCofb.FsmState
  req : GiftCofb.Core → Bool
  ack : CofbRegs → Bool
  bit : ℕ
  ackBit : ℕ

def adChannel : Channel :=
  { waits := .reqAd, next := .procAd, req := GiftCofb.Core.adReq, ack := CofbRegs.adAck
    bit := 3, ackBit := 1 }

def msgChannel : Channel :=
  { waits := .reqMsg, next := .procMsg, req := GiftCofb.Core.msgReq, ack := CofbRegs.msgAck
    bit := 2, ackBit := 0 }

/-- A write to ACK with the bit of the channel. -/
def Channel.Acks (c : Channel) (n : ℕ) : Prop :=
  (env n).writes 0x50000078 ∧ (env n).la.wdata.getLsbD c.ackBit = true

/-- The write in cycle `w` answers the request that the read in cycle `u` has shown. -/
structure Channel.Answers (c : Channel) (u w : ℕ) : Prop where
  read : (env u).reads giftCofb.status
  shown : readBit boot s₀ env u c.bit = true
  acks : c.Acks env w
  after : u < w
  first : ∀ m, u < m → m < w → ¬c.Acks env m

/-- The requests so far. -/
def Channel.requests (c : Channel) (n : ℕ) : ℕ := rises (fun k => c.req (s₀.run boot env k).gc) n

/-- An answer takes the waiting core to the block; a later read shows the bit only for a later
    block, and without another acknowledge for the next one. -/
def Channel.ServedOnce (c : Channel) : Prop :=
  ∀ u w, c.Answers boot s₀ env u w →
    (s₀.run boot env (w + 1)).gc.state = c.waits ∧ (s₀.run boot env (w + 2)).gc.state = c.next
      ∧ ∀ v, w < v → (env v).reads giftCofb.status → readBit boot s₀ env v c.bit = true →
        c.requests boot s₀ env u < c.requests boot s₀ env v
          ∧ ((∀ m, u < m → m < v → c.Acks env m → m = w) →
            c.requests boot s₀ env v = c.requests boot s₀ env u + 1)

/-! ## Polls -/

section

variable {boot s₀ env} {σ ι α : Type} {a : Accel σ ι α} {inv : σ → Prop}

theorem Accel.Wired.readBit_flags (hw : a.Wired) {u : ℕ} (h : (env u).reads a.status) :
    readBit boot s₀ env u 1 = (a.sticky (s₀.run boot env u)).done
      ∧ readBit boot s₀ env u 0 = (a.sticky (s₀.run boot env u)).valid := by
  obtain ⟨d, hd, hdone, hvalid⟩ := hw.status_read boot (env u) (s₀.run boot env u) h
  rw [← Soc.run_succ] at hd
  rw [readBit, readBit, hd]
  exact ⟨hdone, hvalid⟩

/-- The accesses of a run that keep their distance, at a device. -/
theorem Accel.Polls.polled (hw : a.Wired) (hp : a.Polls boot s₀ env)
    (hapart : ∀ m n, (env m).access = true → (env n).access = true → m < n → m + 3 ≤ n) :
    (a.device boot s₀ env).Polled (fun n => (env n).writes a.ctrl)
      (fun n => (env n).reads a.status) where
  start_succ := by
    intro n
    show a.start (s₀.run boot env (n + 1)) = true ↔ _
    rw [Soc.run_succ]
    exact hw.start_step boot (env n) (s₀.run boot env n)
  apart := by
    intro m n hm hn
    have haccess : ∀ k, (env k).writes a.ctrl ∨ (env k).reads a.status → (env k).access = true :=
      fun k hk => hk.elim SocIn.writes.access SocIn.reads.access
    exact hapart m n (haccess m hm) (haccess n hn)
  seen := by
    intro n hn hfirst
    obtain ⟨u, hun, hread, hbit, hlast⟩ := hp n hn hfirst
    rw [(hw.readBit_flags hread).1] at hbit
    exact ⟨u, hun, hread, hbit, hlast⟩

theorem Accel.Polls.current (hw : a.Wired) (hm : a.Machine inv) (hp : a.Polls boot s₀ env)
    (hapart : ∀ m n, (env m).access = true → (env n).access = true → m < n → m + 3 ≤ n) :
    a.Current boot s₀ env := by
  intro t u hlast hread hbit
  rw [(hw.readBit_flags hread).1] at hbit
  obtain ⟨hidle, hstart, e, hte, heu, hdone, hlow, hvalid, hout⟩ :=
    (hp.polled hw hapart).read_sticky (Accel.device_lawful boot s₀ env hw hm) hlast.write hlast.last
      hlast.before hread hbit
  obtain ⟨k, rfl⟩ : ∃ k, e = t + 1 + k := ⟨e - (t + 1), by omega⟩
  refine ⟨k, ⟨hidle, hstart, ?_⟩, heu, (hw.readBit_flags hread).2.trans hvalid, ?_⟩
  · refine ⟨by omega, ?_, fun j hj hjk => ?_⟩
    · rw [← hw.core_run]
      exact hdone
    · rw [← hw.core_run]
      exact hlow (t + 1 + j) (by omega) (by omega)
  · exact fun w hkw hlast' => hout w hkw hlast'.last

end

/-! ## Requests -/

section

variable {boot s₀ env} {c : Channel}

/-- What the core does in the waiting state of a channel, and what the bus shows of it. -/
structure Channel.Wired (c : Channel) : Prop where
  req_zero : ∀ s : GiftCofb.Core, c.req s.reset = false
  ack_zero : c.ack .reset = false
  req_step : ∀ i s, c.req (GiftCofb.Core.step i s) = true ↔ s.state = c.waits
  wait_step : ∀ s : Soc, s.gc.state = c.waits →
    (s.gc.step s.gcIn).state = if c.ack s.bus.regs.gc then c.next else c.waits
  ne : c.next ≠ c.waits
  ack_step : ∀ boot i s, c.ack (Soc.step boot i s).bus.regs.gc = true ↔
    i.writes 0x50000078 ∧ i.la.wdata.getLsbD c.ackBit = true
  read : ∀ boot i s, i.reads giftCofb.status →
    ∃ d, (Soc.step boot i s).bus.memRdata = some d ∧ d.getLsbD c.bit = c.req s.gc

theorem adChannel_wired : adChannel.Wired where
  req_zero := fun _ => rfl
  ack_zero := rfl
  req_step := GiftCofb.Core.adReq_step
  wait_step := fun s h => GiftCofb.Core.reqAd_step s.gcIn h
  ne := by decide
  ack_step := fun boot i s => (gcAck_step boot i s).1
  read := by
    intro boot i s h
    refine ⟨_, memRdata_step boot i s h rfl, ?_⟩
    dsimp only [Soc.periph, adChannel]
    cases s.gcSticky.done <;> cases s.gcSticky.valid <;> cases s.gc.adReq <;>
      cases s.gc.msgReq <;> decide

theorem msgChannel_wired : msgChannel.Wired where
  req_zero := fun _ => rfl
  ack_zero := rfl
  req_step := GiftCofb.Core.msgReq_step
  wait_step := fun s h => GiftCofb.Core.reqMsg_step s.gcIn h
  ne := by decide
  ack_step := fun boot i s => (gcAck_step boot i s).2
  read := by
    intro boot i s h
    refine ⟨_, memRdata_step boot i s h rfl, ?_⟩
    dsimp only [Soc.periph, msgChannel]
    cases s.gcSticky.done <;> cases s.gcSticky.valid <;> cases s.gc.adReq <;>
      cases s.gc.msgReq <;> decide

/-- The signals of a channel in a run of the system. -/
def Channel.requester (c : Channel) (boot : Ram bootSize) (s₀ : Soc) (env : ℕ → SocIn) :
    Requester where
  waits := fun n => (s₀.run boot env n).gc.state = c.waits
  req := fun n => c.req (s₀.run boot env n).gc
  ack := fun n => c.ack (s₀.run boot env n).bus.regs.gc

theorem Channel.Wired.state_succ (hw : c.Wired) {n : ℕ}
    (h : (s₀.run boot env n).gc.state = c.waits) :
    (s₀.run boot env (n + 1)).gc.state =
      if c.ack (s₀.run boot env n).bus.regs.gc then c.next else c.waits := by
  rw [Soc.run_succ]
  exact hw.wait_step _ h

theorem Channel.Wired.lawful (hw : c.Wired) : (c.requester boot s₀ env).Lawful where
  req_zero := hw.req_zero _
  ack_zero := hw.ack_zero
  req_succ := by
    intro n
    show c.req (s₀.run boot env (n + 1)).gc = true ↔ _
    rw [Soc.run_succ]
    exact hw.req_step _ _
  stay := by
    intro n hwaits hack
    have hack : c.ack (s₀.run boot env n).bus.regs.gc = false := hack
    show (s₀.run boot env (n + 1)).gc.state = c.waits
    rw [hw.state_succ hwaits, hack]
    rfl
  leave := by
    intro n hwaits hack hnext
    have hack : c.ack (s₀.run boot env n).bus.regs.gc = true := hack
    have hnext : (s₀.run boot env (n + 1)).gc.state = c.waits := hnext
    rw [hw.state_succ hwaits, hack, if_pos rfl] at hnext
    exact hw.ne hnext

theorem Channel.Wired.readBit_req (hw : c.Wired) {u : ℕ} (h : (env u).reads giftCofb.status) :
    readBit boot s₀ env u c.bit = c.req (s₀.run boot env u).gc := by
  obtain ⟨d, hd, hbit⟩ := hw.read boot (env u) (s₀.run boot env u) h
  rw [← Soc.run_succ] at hd
  rw [readBit, hd]
  exact hbit

theorem Channel.Wired.answered (hw : c.Wired)
    (hapart : ∀ m n, (env m).access = true → (env n).access = true → m < n → m + 3 ≤ n) :
    (c.requester boot s₀ env).Answered (c.Acks env) (fun n => (env n).reads giftCofb.status) where
  ack_succ := by
    intro n
    show c.ack (s₀.run boot env (n + 1)).bus.regs.gc = true ↔ _
    rw [Soc.run_succ]
    exact hw.ack_step boot (env n) (s₀.run boot env n)
  apart := by
    intro m n hm hn
    have haccess : ∀ k, c.Acks env k ∨ (env k).reads giftCofb.status → (env k).access = true :=
      fun k hk => hk.elim (fun h => h.1.access) SocIn.reads.access
    exact hapart m n (haccess m hm) (haccess n hn)
  single := by
    intro n hack hread
    exact absurd (hack.1.2.symm.trans hread.2) (by decide)

theorem Channel.Wired.servedOnce (hw : c.Wired)
    (hapart : ∀ m n, (env m).access = true → (env n).access = true → m < n → m + 3 ≤ n) :
    c.ServedOnce boot s₀ env := by
  intro u w h
  have hl : (c.requester boot s₀ env).Lawful := hw.lawful
  have ha : (c.requester boot s₀ env).Answered (c.Acks env) (fun n => (env n).reads giftCofb.status) :=
    hw.answered hapart
  have hreq := (hw.readBit_req h.read).symm.trans h.shown
  obtain ⟨hwaits, hack⟩ := ha.taken hl h.read hreq h.acks h.after h.first
  have hack : c.ack (s₀.run boot env (w + 1)).bus.regs.gc = true := hack
  refine ⟨hwaits, ?_, ?_⟩
  · rw [hw.state_succ hwaits, hack]
    rfl
  · intro v hwv hread' hshown'
    have hreq' := (hw.readBit_req hread').symm.trans hshown'
    refine ⟨ha.again hl h.read hreq h.acks h.after h.first hwv hread' hreq', fun hone => ?_⟩
    exact ha.next hl h.read hreq h.acks h.after hone hwv hread' hreq'

end

/-! ## All runs -/

/-- With accesses at least three cycles apart the flags are never stale, for each accelerator whose
    CTRL is written only when it has been seen done, and no request is served twice. -/
theorem status_current
    (hapart : ∀ m n, (env m).access = true → (env n).access = true → m < n → m + 3 ≤ n) :
    (jambu.Polls boot s₀ env → jambu.Current boot s₀ env)
      ∧ (xoodyak.Polls boot s₀ env → xoodyak.Current boot s₀ env)
      ∧ (giftCofb.Polls boot s₀ env → giftCofb.Current boot s₀ env)
      ∧ adChannel.ServedOnce boot s₀ env ∧ msgChannel.ServedOnce boot s₀ env :=
  ⟨fun hp => hp.current jambu_wired jambu_machine hapart,
    fun hp => hp.current xoodyak_wired xoodyak_machine hapart,
    fun hp => hp.current giftCofb_wired giftCofb_machine hapart,
    adChannel_wired.servedOnce hapart, msgChannel_wired.servedOnce hapart⟩

end

/-- The given writes, and a poll of `status` in every third cycle without one. -/
def polling (status : BitVec 32) (writes : ℕ → Option (BitVec 32 × BitVec 32)) (n : ℕ) : SocIn :=
  match writes n with
  | some (addr, data) =>
    { noAccess with
      la := { addr := addr, wdata := data, wstrb := 0xF, laRead := false, laWrite := true } }
  | none =>
    if n % 3 = 0 then
      { noAccess with
        la := { addr := status, wdata := 0, wstrb := 0, laRead := true, laWrite := false } }
    else noAccess

/-- An encryption of the Xoodyak core. -/
def xoodyakWrites (n : ℕ) : Option (BitVec 32 × BitVec 32) :=
  if n = 0 then some (0x40000050, 0x30004) else none

/-- An encryption of the GIFT-COFB core with 17 bytes in each stream, and an answer to each request
    three cycles after the poll that shows it. -/
def cofbWrites (n : ℕ) : Option (BitVec 32 × BitVec 32) :=
  if n = 0 then some (0x50000050, 0x1111)
  else if n = 96 then some (0x50000078, 0x2)
  else if n = 189 then some (0x50000078, 0x1)
  else none

section

variable {status : BitVec 32} {writes : ℕ → Option (BitVec 32 × BitVec 32)}

theorem polling_apart (hwrites : ∀ n, n % 3 ≠ 0 → writes n = none) (m n : ℕ)
    (hm : (polling status writes m).access = true) (hn : (polling status writes n).access = true)
    (hmn : m < n) : m + 3 ≤ n := by
  have haccess (k : ℕ) (hk : (polling status writes k).access = true) : k % 3 = 0 := by
    by_contra hne
    rw [polling, hwrites k hne] at hk
    dsimp only at hk
    rw [if_neg hne] at hk
    exact absurd hk (by decide)
  have := haccess m hm
  have := haccess n hn
  omega

theorem polling_writes {addr : BitVec 32} {n : ℕ} (h : (polling status writes n).writes addr) :
    ∃ data, writes n = some (addr, data) := by
  rw [polling] at h
  cases hwrite : writes n with
  | some e =>
      rw [hwrite] at h
      exact ⟨e.2, by rw [← h.2]⟩
  | none =>
      rw [hwrite] at h
      obtain ⟨hw, -⟩ := h
      dsimp only at hw
      split at hw <;> exact absurd hw Bool.false_ne_true

end

/-- The second operation of a run would need a second write to CTRL. -/
theorem Accel.polls_of_single {σ ι α : Type} {a : Accel σ ι α} {env : ℕ → SocIn}
    {boot : Ram bootSize} {s₀ : Soc} (h : ∀ n, (env n).writes a.ctrl → n = 0) :
    a.Polls boot s₀ env := by
  rintro n hn ⟨m, hmn, -⟩
  have := h n hn
  omega

/-- A poll that shows a request of the run, and the write of its acknowledge three cycles later. -/
theorem cofb_answers {c : Channel} (hw : c.Wired) {u : ℕ} {data : BitVec 32}
    (hread : (polling 0x50000054 cofbWrites u).reads giftCofb.status)
    (hreq : c.req (sampleSoc.run emptyBoot (polling 0x50000054 cofbWrites) u).gc = true)
    (hquiet : ∀ m, u < m → m < u + 3 → cofbWrites m = none)
    (hwrite : cofbWrites (u + 3) = some (0x50000078, data)) (hbit : data.getLsbD c.ackBit = true) :
    c.Answers emptyBoot sampleSoc (polling 0x50000054 cofbWrites) u (u + 3) := by
  have hinput : polling 0x50000054 cofbWrites (u + 3) = { noAccess with
      la := { addr := 0x50000078, wdata := data, wstrb := 0xF, laRead := false,
              laWrite := true } } := by
    rw [polling, hwrite]
  refine ⟨hread, (hw.readBit_req hread).trans hreq, ?_, by omega, fun m hum hm hack => ?_⟩
  · rw [Channel.Acks, hinput]
    exact ⟨⟨rfl, rfl⟩, hbit⟩
  · obtain ⟨data, hdata⟩ := polling_writes hack.1
    rw [hquiet m hum hm] at hdata
    cases hdata

theorem status_current_polling :
    let r := sampleSoc.run emptyBoot (polling 0x50000054 cofbWrites)
    xoodyak.Current emptyBoot sampleSoc (polling 0x40000054 xoodyakWrites)
      ∧ giftCofb.Current emptyBoot sampleSoc (polling 0x50000054 cofbWrites)
      ∧ (r 97).gc.state = .reqAd ∧ (r 98).gc.state = .procAd
      ∧ (r 190).gc.state = .reqMsg ∧ (r 191).gc.state = .procMsg := by
  have hxoodyak : ∀ n, n % 3 ≠ 0 → xoodyakWrites n = none := fun n hn => if_neg (by omega)
  have hquiet {m : ℕ} (h₀ : m ≠ 0) (h₁ : m ≠ 96) (h₂ : m ≠ 189) : cofbWrites m = none := by
    rw [cofbWrites, if_neg h₀, if_neg h₁, if_neg h₂]
  obtain ⟨-, hcurrent, -⟩ := status_current emptyBoot sampleSoc (polling 0x40000054 xoodyakWrites)
    (polling_apart hxoodyak)
  obtain ⟨-, -, hcurrent', had, hmsg⟩ := status_current emptyBoot sampleSoc
    (polling 0x50000054 cofbWrites)
    (polling_apart fun n hn => hquiet (by omega) (by omega) (by omega))
  -- the polls in cycles 93 and 186 show the requests
  have hadAnswer := cofb_answers adChannel_wired (u := 93) ⟨rfl, rfl⟩ (by decide +kernel)
    (fun m hm hm' => hquiet (by omega) (by omega) (by omega)) rfl rfl
  have hmsgAnswer := cofb_answers msgChannel_wired (u := 186) ⟨rfl, rfl⟩ (by decide +kernel)
    (fun m hm hm' => hquiet (by omega) (by omega) (by omega)) rfl rfl
  obtain ⟨hwaits, hnext, -⟩ := had 93 96 hadAnswer
  obtain ⟨hwaits', hnext', -⟩ := hmsg 186 189 hmsgAnswer
  refine ⟨hcurrent (Accel.polls_of_single fun n hn => ?_),
    hcurrent' (Accel.polls_of_single fun n hn => ?_), hwaits, hnext, hwaits', hnext'⟩
  · obtain ⟨data, hwrite⟩ := polling_writes hn
    by_contra hne
    rw [xoodyakWrites, if_neg hne] at hwrite
    cases hwrite
  · obtain ⟨data, hwrite⟩ := polling_writes hn
    by_contra hne
    rw [cofbWrites, if_neg hne] at hwrite
    split_ifs at hwrite
    all_goals
      simp only [Option.some.injEq, Prod.mk.injEq] at hwrite
      exact absurd hwrite.1 (by decide)

end PicoSoc.System
