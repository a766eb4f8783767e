import PicoSoc.Library.Handshake

set_option autoImplicit false

/-! # A device behind a start pulse and a sticky flag

The device takes a start pulse when it is idle, is busy for a while and shows `done` for one cycle
when it is idle again. A flag keeps `done` until the next start. The host starts the device by a
write and polls the flag; it never starts it again before a poll has seen the flag. -/

namespace Clocked

/-! ## The device -/

/-- The signals of a device with its flag, by cycle. -/
structure Device (α : Type) where
  idle : ℕ → Prop
  start : ℕ → Bool
  done : ℕ → Bool
  valid : ℕ → Bool
  sticky : ℕ → Bool
  stickyValid : ℕ → Bool
  out : ℕ → α

/-- What the device does from reset on. -/
structure Device.Lawful {α : Type} (d : Device α) : Prop where
  idle_zero : d.idle 0
  start_zero : d.start 0 = false
  done_zero : d.done 0 = false
  sticky_zero : d.sticky 0 = false
  rest : ∀ n, d.idle n → d.start n = false → d.idle (n + 1) ∧ d.out (n + 1) = d.out n
  accept : ∀ n, d.idle n → d.start n = true → ¬d.idle (n + 1)
  quiet : ∀ n, d.idle n → d.done (n + 1) = false
  finish : ∀ n, ¬d.idle n → d.done n = false → d.start n = false →
    (d.done (n + 1) = true ↔ d.idle (n + 1))
  sticky_succ : ∀ n, d.sticky (n + 1) =
    if d.start n then false else if d.done n then true else d.sticky n
  stickyValid_succ : ∀ n, d.stickyValid (n + 1) =
    if d.start n then false else if d.done n then d.valid n else d.stickyValid n

/-- The host: a write gives a start pulse in the next cycle, reads and writes keep their distance,
    and between two writes a read has seen the flag. -/
structure Device.Polled {α : Type} (d : Device α) (write read : ℕ → Prop) : Prop where
  start_succ : ∀ n, d.start (n + 1) = true ↔ write n
  apart : ∀ m n, (write m ∨ read m) → (write n ∨ read n) → m < n → m + 3 ≤ n
  seen : ∀ n, write n → (∃ m < n, write m) →
    ∃ u < n, read u ∧ d.sticky u = true ∧ ∀ m < n, write m → m < u

section Device

variable {α : Type} {d : Device α} {write read : ℕ → Prop}

/-- The device after a start in cycle `t`: it is busy with the operation. -/
structure Device.Busy (d : Device α) (t n : ℕ) : Prop where
  idle : ∀ m, t < m → m ≤ n → ¬d.idle m
  done : ∀ m, t < m → m ≤ n → d.done m = false
  sticky : d.sticky n = false

/-- Or it has finished in cycle `e` and keeps the results. -/
structure Device.Finished (d : Device α) (t n e : ℕ) : Prop where
  after : t + 1 < e
  reached : e ≤ n
  done : d.done e = true
  low : ∀ m, t < m → m < e → d.done m = false
  idle : d.idle n
  out : d.out n = d.out e
  done_iff : d.done n = true ↔ n = e
  sticky_iff : d.sticky n = true ↔ e < n
  valid : e < n → d.stickyValid n = d.valid e

/-- From a start to the next one the device is busy and then finished. -/
theorem Device.Lawful.busy_or_finished (h : d.Lawful) {t : ℕ} (hidle : d.idle t)
    (hstart : d.start t = true) {n : ℕ} (hn : t < n) (hno : ∀ m, t < m → m < n → d.start m = false) :
    d.Busy t n ∨ ∃ e, d.Finished t n e := by
  -- once finished the device stays so, since it starts only on request
  induction n, hn using Nat.le_induction with
  | base =>
      left
      have hone : ∀ m, t < m → m ≤ t + 1 → m = t + 1 := fun m _ _ => by omega
      refine ⟨?_, ?_, ?_⟩
      · intro m hm hmt
        rw [hone m hm hmt]
        exact h.accept t hidle hstart
      · intro m hm hmt
        rw [hone m hm hmt]
        exact h.quiet t hidle
      · rw [h.sticky_succ, hstart]
        rfl
  | succ n hn ih =>
      have hlow : d.start n = false := hno n hn (by omega)
      rcases ih fun m hm hmn => hno m hm (by omega) with hbusy | ⟨e, hfin⟩
      · have hdone := hbusy.done n hn le_rfl
        have hfinish := h.finish n (hbusy.idle n hn le_rfl) hdone hlow
        have hsticky : d.sticky (n + 1) = false := by
          rw [h.sticky_succ, hlow, hdone]
          exact hbusy.sticky
        -- the device ends in this cycle, with `done` high, or goes on
        by_cases hend : d.idle (n + 1)
        · right
          refine ⟨n + 1, ⟨by omega, le_rfl, hfinish.2 hend, ?_, hend, rfl, ?_, ?_, ?_⟩⟩
          · exact fun m hm hmn => hbusy.done m hm (by omega)
          · exact ⟨fun _ => rfl, fun _ => hfinish.2 hend⟩
          · rw [hsticky]
            exact ⟨fun hs => absurd hs (by simp), fun hlt => absurd hlt (by omega)⟩
          · exact fun hlt => absurd hlt (by omega)
        · left
          have hnext : d.done (n + 1) = false := by
            cases hd : d.done (n + 1) with
            | false => rfl
            | true => exact absurd (hfinish.1 hd) hend
          refine ⟨?_, ?_, hsticky⟩
          · intro m hm hmn
            rcases Nat.lt_or_ge n m with hlt | hge
            · obtain rfl : m = n + 1 := by omega
              exact hend
            · exact hbusy.idle m hm hge
          · intro m hm hmn
            rcases Nat.lt_or_ge n m with hlt | hge
            · obtain rfl : m = n + 1 := by omega
              exact hnext
            · exact hbusy.done m hm hge
      · right
        obtain ⟨hrest, hout⟩ := h.rest n hfin.idle hlow
        have hreached := hfin.reached
        refine ⟨e, ⟨hfin.after, by omega, hfin.done, hfin.low, hrest, hout.trans hfin.out, ?_, ?_, ?_⟩⟩
        · rw [h.quiet n hfin.idle]
          exact ⟨fun hd => absurd hd (by simp), fun heq => absurd heq (by omega)⟩
        · rw [h.sticky_succ, hlow]
          refine ⟨fun _ => by omega, fun _ => ?_⟩
          cases hd : d.done n with
          | true => rfl
          | false =>
              have hne : n ≠ e := fun heq => by
                rw [hfin.done_iff.2 heq] at hd
                exact absurd hd (by simp)
              exact hfin.sticky_iff.2 (by omega)
        · intro _
          rw [h.stickyValid_succ, hlow]
          cases hd : d.done n with
          | true =>
              rw [hfin.done_iff.1 hd]
              rfl
          | false =>
              have hne : n ≠ e := fun heq => by
                rw [hfin.done_iff.2 heq] at hd
                exact absurd hd (by simp)
              exact hfin.valid (by omega)

theorem Device.Polled.start_low (hp : d.Polled write read) {t n : ℕ}
    (hno : ∀ m, t < m → m < n → ¬write m) {m : ℕ} (hm : t + 1 < m) (hmn : m ≤ n) :
    d.start m = false := by
  obtain ⟨k, rfl⟩ : ∃ k, m = k + 1 := ⟨m - 1, by omega⟩
  by_contra hs
  exact hno k (by omega) (by omega) ((hp.start_succ k).1 (by simpa using hs))

/-- A flag that a read sees belongs to the last operation. -/
theorem Device.Polled.finished_of_sticky (h : d.Lawful) (hp : d.Polled write read) {t u : ℕ}
    (hwrite : write t) (hidle : d.idle (t + 1)) (hlast : ∀ m, t < m → m < u → ¬write m)
    (htu : t < u) (hread : read u) (hsticky : d.sticky u = true) :
    ∃ e, d.Finished (t + 1) u e ∧ e < u := by
  have happart := hp.apart t u (.inl hwrite) (.inr hread) htu
  rcases h.busy_or_finished hidle ((hp.start_succ t).2 hwrite) (show t + 1 < u by omega)
    (fun m hm hmu => hp.start_low hlast hm (by omega)) with hbusy | ⟨e, hfin⟩
  · rw [hbusy.sticky] at hsticky
    exact absurd hsticky (by simp)
  · exact ⟨e, hfin, hfin.sticky_iff.1 hsticky⟩

/-- Every write finds the device idle. -/
theorem Device.Polled.idle_of_write (h : d.Lawful) (hp : d.Polled write read) {n : ℕ}
    (hwrite : write n) : d.idle (n + 1) := by
  induction n using Nat.strong_induction_on with
  | _ n ih =>
      by_cases hfirst : ∃ m < n, write m
      · obtain ⟨u, hun, hread, hsticky, hseen⟩ := hp.seen n hwrite hfirst
        classical
        -- the last write before `n`
        obtain ⟨t, htn, hwrite_t, hlast⟩ : ∃ t < n, write t ∧ ∀ m, t < m → m < n → ¬write m := by
          obtain ⟨m, hmn, hm⟩ := hfirst
          have hle : m ≤ n - 1 := by omega
          refine ⟨Nat.findGreatest write (n - 1), ?_, Nat.findGreatest_spec hle hm, ?_⟩
          · have := Nat.findGreatest_le (P := write) (n - 1)
            omega
          · intro k hk hkn
            exact Nat.findGreatest_is_greatest hk (by omega)
        have hidle := ih t htn hwrite_t
        have htu := hseen t htn hwrite_t
        obtain ⟨e, hfin, -⟩ := hp.finished_of_sticky h hwrite_t hidle
          (fun m hm hmu => hlast m hm (by omega)) htu hread hsticky
        rcases h.busy_or_finished hidle ((hp.start_succ t).2 hwrite_t) (show t + 1 < n + 1 by omega)
          (fun m hm hmn => hp.start_low hlast hm (by omega)) with hbusy | ⟨e', hfin'⟩
        · exact absurd hfin.idle (hbusy.idle u (by have := hfin.after; have := hfin.reached; omega)
            (by omega))
        · exact hfin'.idle
      · have hrest : ∀ m ≤ n + 1, d.idle m := by
          intro m hm
          induction m with
          | zero => exact h.idle_zero
          | succ m ihm =>
              have hlow : d.start m = false := by
                cases m with
                | zero => exact h.start_zero
                | succ k =>
                    by_contra hs
                    exact hfirst ⟨k, by omega, (hp.start_succ k).1 (by simpa using hs)⟩
              exact (h.rest m (ihm (by omega)) hlow).1
        exact hrest (n + 1) le_rfl

/-- A read that sees the flag sees the end of the operation of the last write, with its `valid`;
    the outputs stay until the next write. -/
theorem Device.Polled.read_sticky (h : d.Lawful) (hp : d.Polled write read) {t u : ℕ}
    (hwrite : write t) (hlast : ∀ m, t < m → m < u → ¬write m) (htu : t < u) (hread : read u)
    (hsticky : d.sticky u = true) :
    d.idle (t + 1) ∧ d.start (t + 1) = true ∧ ∃ e, t + 2 < e ∧ e < u ∧ d.done e = true
      ∧ (∀ m, t + 1 < m → m < e → d.done m = false) ∧ d.stickyValid u = d.valid e
      ∧ ∀ w, e ≤ w → (∀ m, t < m → m < w → ¬write m) → d.out w = d.out e := by
  have hidle := hp.idle_of_write h hwrite
  have hstart := (hp.start_succ t).2 hwrite
  obtain ⟨e, hfin, heu⟩ := hp.finished_of_sticky h hwrite hidle hlast htu hread hsticky
  refine ⟨hidle, hstart, e, hfin.after, heu, hfin.done, hfin.low, hfin.valid heu, ?_⟩
  intro w hew hnone
  have hafter := hfin.after
  rcases h.busy_or_finished hidle hstart (show t + 1 < w by omega)
    (fun m hm hmw => hp.start_low hnone hm (by omega)) with hbusy | ⟨e', hfin'⟩
  · exact absurd hfin.done (by rw [hbusy.done e (by omega) hew]; simp)
  · have heq : e' = e := by
      rcases Nat.lt_trichotomy e' e with hlt | heq | hlt
      · exact absurd hfin'.done (by rw [hfin.low e' (by have := hfin'.after; omega) hlt]; simp)
      · exact heq
      · exact absurd hfin.done (by rw [hfin'.low e (by omega) hlt]; simp)
    rw [hfin'.out, heq]

end Device

/-! ## Requests of the device -/

/-- A device that waits in some states for an acknowledge and shows this one cycle later. -/
structure Requester where
  waits : ℕ → Prop
  req : ℕ → Bool
  ack : ℕ → Bool

structure Requester.Lawful (r : Requester) : Prop where
  req_zero : r.req 0 = false
  ack_zero : r.ack 0 = false
  req_succ : ∀ n, r.req (n + 1) = true ↔ r.waits n
  stay : ∀ n, r.waits n → r.ack n = false → r.waits (n + 1)
  leave : ∀ n, r.waits n → r.ack n = true → ¬r.waits (n + 1)

/-- The host: a write gives an acknowledge in the next cycle; reads and writes keep their
    distance. -/
structure Requester.Answered (r : Requester) (write read : ℕ → Prop) : Prop where
  ack_succ : ∀ n, r.ack (n + 1) = true ↔ write n
  apart : ∀ m n, (write m ∨ read m) → (write n ∨ read n) → m < n → m + 3 ≤ n
  single : ∀ n, write n → ¬read n

section Requester

variable {r : Requester} {write read : ℕ → Prop}

theorem Requester.Answered.ack_low (ha : r.Answered write read) {n : ℕ} (h : ¬write n) :
    r.ack (n + 1) = false := by
  by_contra hack
  exact h ((ha.ack_succ n).1 (by simpa using hack))

/-- A read that shows the request finds the device waiting; it waits on until a write answers. -/
theorem Requester.Answered.waits_of_read (h : r.Lawful) (ha : r.Answered write read) {u : ℕ}
    (hread : read u) (hreq : r.req u = true) {n : ℕ} (hun : u ≤ n)
    (hno : ∀ m, u < m → m + 1 < n → ¬write m) : r.waits n := by
  obtain ⟨k, rfl⟩ : ∃ k, u = k + 1 := by
    refine ⟨u - 1, ?_⟩
    rcases Nat.eq_zero_or_pos u with rfl | hpos
    · rw [h.req_zero] at hreq
      exact absurd hreq (by simp)
    · omega
  have hlow : ∀ m, k ≤ m → m < n → r.ack m = false := by
    intro m hm hmn
    cases m with
    | zero => exact h.ack_zero
    | succ j =>
        refine ha.ack_low fun hwrite => ?_
        rcases Nat.lt_trichotomy j (k + 1) with hlt | rfl | hgt
        · have := ha.apart j (k + 1) (.inl hwrite) (.inr hread) hlt
          omega
        · exact ha.single _ hwrite hread
        · exact hno j hgt hmn hwrite
  have hkn : k ≤ n := by omega
  clear hun hno
  induction n, hkn using Nat.le_induction with
  | base => exact (h.req_succ k).1 hreq
  | succ n hkn ih =>
      exact h.stay n (ih fun m hm hmn => hlow m hm (by omega)) (hlow n hkn (by omega))

/-- The write that answers a request is taken by the waiting device. -/
theorem Requester.Answered.taken (h : r.Lawful) (ha : r.Answered write read) {u w : ℕ}
    (hread : read u) (hreq : r.req u = true) (hwrite : write w) (huw : u < w)
    (hno : ∀ m, u < m → m < w → ¬write m) : r.waits (w + 1) ∧ r.ack (w + 1) = true :=
  ⟨ha.waits_of_read h hread hreq (by omega) fun m hm hmw => hno m hm (by omega),
    (ha.ack_succ w).2 hwrite⟩

/-- After the answer the request falls, and no new one has begun before it falls. -/
theorem Requester.Answered.falls (h : r.Lawful) (ha : r.Answered write read) {u w : ℕ}
    (hread : read u) (hreq : r.req u = true) (hwrite : write w) (huw : u < w)
    (hno : ∀ m, u < m → m < w → ¬write m) :
    r.req (w + 3) = false ∧ rises r.req (w + 3) = rises r.req u := by
  have hwaits : ∀ n, u ≤ n → n ≤ w + 1 → r.waits n := fun n hun hnw =>
    ha.waits_of_read h hread hreq hun fun m hm hmn => hno m hm (by omega)
  have hlow : r.req (w + 3) = false := by
    have hleave := h.leave (w + 1) (hwaits (w + 1) (by omega) le_rfl) ((ha.ack_succ w).2 hwrite)
    by_contra hhigh
    exact hleave ((h.req_succ (w + 2)).1 (by simpa using hhigh))
  have hstay : ∀ n, u ≤ n → n ≤ w + 2 → r.req n = true ∧ rises r.req n = rises r.req u := by
    intro n hun
    induction n, hun using Nat.le_induction with
    | base => exact fun _ => ⟨hreq, rfl⟩
    | succ n hun ih =>
        intro hnw
        obtain ⟨hhigh, hrises⟩ := ih (by omega)
        exact ⟨(h.req_succ n).2 (hwaits n hun (by omega)),
          (rises_succ_of_not (not_rise_of_high hhigh)).trans hrises⟩
  refine ⟨hlow, ?_⟩
  rw [rises_succ_of_not (not_rise_of_low hlow)]
  exact (hstay (w + 2) (by omega) le_rfl).2

theorem rises_mono (req : ℕ → Bool) {m n : ℕ} (hmn : m ≤ n) : rises req m ≤ rises req n :=
  Nat.count_monotone _ (by omega)

/-- A signal that is low and later high has risen in between. -/
theorem rises_lt {req : ℕ → Bool} {m n : ℕ} (hmn : m ≤ n) (hm : req m = false)
    (hn : req n = true) : rises req m < rises req n := by
  induction n, hmn using Nat.le_induction with
  | base =>
      rw [hm] at hn
      exact absurd hn (by simp)
  | succ n hmn ih =>
      cases hreq : req n with
      | false =>
          rw [rises_succ_of_rise ((rise_iff_of_low hreq).2 hn)]
          exact Nat.lt_succ_of_le (rises_mono req hmn)
      | true =>
          rw [rises_succ_of_not (not_rise_of_high hreq)]
          exact ih hreq

/-- A later read shows the request again only for a later block, -/
theorem Requester.Answered.again (h : r.Lawful) (ha : r.Answered write read) {u w v : ℕ}
    (hread : read u) (hreq : r.req u = true) (hwrite : write w) (huw : u < w)
    (hno : ∀ m, u < m → m < w → ¬write m) (hwv : w < v) (hread' : read v)
    (hreq' : r.req v = true) : rises r.req u < rises r.req v := by
  obtain ⟨hlow, hrises⟩ := ha.falls h hread hreq hwrite huw hno
  rw [← hrises]
  exact rises_lt (ha.apart w v (.inl hwrite) (.inr hread') hwv) hlow hreq'

/-- and before another answer only for the next one. -/
theorem Requester.Answered.next (h : r.Lawful) (ha : r.Answered write read) {u w v : ℕ}
    (hread : read u) (hreq : r.req u = true) (hwrite : write w) (huw : u < w)
    (hno : ∀ m, u < m → m < v → write m → m = w) (hwv : w < v) (hread' : read v)
    (hreq' : r.req v = true) : rises r.req v = rises r.req u + 1 := by
  obtain ⟨hlow, hrises⟩ := ha.falls h hread hreq hwrite huw fun m hm hmw hw => by
    have := hno m hm (by omega) hw
    omega
  have hv : w + 3 ≤ v := ha.apart w v (.inl hwrite) (.inr hread') hwv
  have hack : ∀ n, w + 2 ≤ n → n ≤ v → r.ack n = false := by
    intro n hn hnv
    obtain ⟨k, rfl⟩ : ∃ k, n = k + 1 := ⟨n - 1, by omega⟩
    refine ha.ack_low fun hw => ?_
    have := hno k (by omega) (by omega) hw
    omega
  -- low, or risen once and waiting
  have hone : ∀ n, w + 3 ≤ n → n ≤ v → (r.req n = false ∧ rises r.req n = rises r.req u)
      ∨ (r.req n = true ∧ r.waits n ∧ rises r.req n = rises r.req u + 1) := by
    intro n hn
    induction n, hn using Nat.le_induction with
    | base => exact fun _ => .inl ⟨hlow, hrises⟩
    | succ n hn ih =>
        intro hnv
        rcases ih (by omega) with ⟨hreqn, hn'⟩ | ⟨hreqn, hwaits, hn'⟩
        · cases hnext : r.req (n + 1) with
          | false => exact .inl ⟨rfl, (rises_succ_of_not (not_rise_of_low hnext)).trans hn'⟩
          | true =>
              have hwaits := (h.req_succ n).1 hnext
              refine .inr ⟨rfl, h.stay n hwaits (hack n (by omega) (by omega)), ?_⟩
              rw [rises_succ_of_rise ((rise_iff_of_low hreqn).2 hnext), hn']
        · exact .inr ⟨(h.req_succ n).2 hwaits, h.stay n hwaits (hack n (by omega) (by omega)),
            (rises_succ_of_not (not_rise_of_high hreqn)).trans hn'⟩
  rcases hone v hv le_rfl with ⟨hreqv, -⟩ | ⟨-, -, hrise⟩
  · rw [hreqv] at hreq'
    exact absurd hreq' (by simp)
  · exact hrise

end Requester

end Clocked
