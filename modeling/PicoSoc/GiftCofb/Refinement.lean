import PicoSoc.GiftCofb.ByteView
import PicoSoc.GiftCofb.Phases

set_option autoImplicit false

/-! # The core computes GIFT-COFB

What a host sees of an operation: the blocks the machine takes, the blocks it shows, and how often
it asks. Each block is one step of the mode, and the requests only stretch the time between two
blocks. -/

namespace PicoSoc.GiftCofb

open Bytes Clocked

/-! ## Streams -/

/-- The first `len` bytes of the blocks of a stream. -/
def streamBytes (block : ℕ → BitVec 128) (len : ℕ) : List Byte :=
  (List.range len).map fun i => byteBE 16 (block (i / 16)) (i % 16)

/-- The bytes of block `j` that belong to the string. -/
def inBytes (block : ℕ → BitVec 128) (len j : ℕ) : List Byte :=
  leftBytes 16 (min 16 (len - 16 * j)) (block j)

theorem length_streamBytes (block : ℕ → BitVec 128) (len : ℕ) :
    (streamBytes block len).length = len := by
  simp [streamBytes]

theorem streamBytes_eq_nil (block : ℕ → BitVec 128) (len : ℕ) :
    streamBytes block len = [] ↔ len = 0 := by
  rw [← List.length_eq_zero_iff, length_streamBytes]

theorem blocks_streamBytes (block : ℕ → BitVec 128) (len : ℕ) :
    Cofb.blocks (streamBytes block len) =
      (List.range ((len + 15) / 16)).map (inBytes block len) := by
  rw [Cofb.blocks, length_streamBytes]
  apply List.map_congr_left
  intro j _
  apply List.ext_getElem
  · simp [inBytes, length_streamBytes]
  · intro i hi _
    have hi16 : i < 16 := by
      rw [List.length_take] at hi
      omega
    simp [inBytes, streamBytes, leftBytes, show (16 * j + i) / 16 = j by omega,
      show (16 * j + i) % 16 = i by omega]

/-! ## What the host sees -/

/-- The operation has not ended in the cycles up to `t`. -/
def Live (env : ℕ → CoreIn) (s : Core) (t : ℕ) : Prop :=
  ∀ u, 0 < u → u ≤ t → (run Core.step env s u).done = false

/-- The AD block that the machine takes in cycle `t`. -/
def adTaken (env : ℕ → CoreIn) (s : Core) (t : ℕ) : Option (BitVec 128) :=
  if (run Core.step env s t).state = .procAd then some (env t).adData else none

/-- The message block that the machine takes in cycle `t`. -/
def msgTaken (env : ℕ → CoreIn) (s : Core) (t : ℕ) : Option (BitVec 128) :=
  if (run Core.step env s t).state = .procMsg then some (env t).msgData else none

/-- The output block that the machine shows in cycle `t`. -/
def shown (env : ℕ → CoreIn) (s : Core) (t : ℕ) : Option (BitVec 128) :=
  if (run Core.step env s t).dataOutValid then some (run Core.step env s t).dataOut else none

/-- The request for associated data in cycle `t`. -/
def adReqs (env : ℕ → CoreIn) (s : Core) (t : ℕ) : Bool := (run Core.step env s t).adReq

/-- The request for a message block in cycle `t`. -/
def msgReqs (env : ℕ → CoreIn) (s : Core) (t : ℕ) : Bool := (run Core.step env s t).msgReq

/-- A host that starts an operation in cycle `0`, keeps its parameters on the ports and serves both
    streams. -/
structure Host (env : ℕ → CoreIn) (s : Core) (adBlock msgBlock : ℕ → BitVec 128) : Prop where
  start : (env 0).start = true
  key : ∀ t, Live env s t → (env t).key = (env 0).key
  msgTotalLen : ∀ t, Live env s t → (env t).msgTotalLen = (env 0).msgTotalLen
  decryptMode : ∀ t, Live env s t → (env t).decryptMode = (env 0).decryptMode
  tagIn : ∀ t, Live env s t → (env t).tagIn = (env 0).tagIn
  ad : Served (Live env s) (adReqs env s) (fun t => (env t).adAck) (fun t => (env t).adData) adBlock
  msg : Served (Live env s) (msgReqs env s) (fun t => (env t).msgAck) (fun t => (env t).msgData)
    msgBlock

/-- The operation up to cycle `t`. -/
structure Progress (env : ℕ → CoreIn) (s : Core) (t : ℕ) (ad : List (BitVec 128)) (adCount : ℕ)
    (msg : List (BitVec 128)) (msgCount : ℕ) (out : List (BitVec 128)) : Prop where
  live : Live env s t
  ads : Settled (adReqs env s) (fun t => (env t).adAck) t adCount
  msgs : Settled (msgReqs env s) (fun t => (env t).msgAck) t msgCount
  takenAd : trace (adTaken env s) t = ad
  takenMsg : trace (msgTaken env s) t = msg
  outputs : trace (shown env s) t = out
  hidden : (run Core.step env s t).dataOutValid = false

section Segments

variable {env : ℕ → CoreIn} {s : Core} {adBlock msgBlock : ℕ → BitVec 128}
  {ad msg out : List (BitVec 128)} {adCount msgCount t : ℕ}

theorem adTaken_none (h : (run Core.step env s t).state ≠ .procAd) : adTaken env s t = none :=
  if_neg h

theorem msgTaken_none (h : (run Core.step env s t).state ≠ .procMsg) : msgTaken env s t = none :=
  if_neg h

theorem shown_none (h : (run Core.step env s t).dataOutValid = false) : shown env s t = none :=
  if_neg (by rw [h]; exact Bool.false_ne_true)

theorem Live.mono {t u : ℕ} (h : Live env s t) (hu : u ≤ t) : Live env s u :=
  fun v hv hvu => h v hv (by omega)

/-- A cipher call, from the edge that starts it to the one that takes its result. -/
theorem Progress.call (h : Progress env s t ad adCount msg msgCount out)
    (host : Host env s adBlock msgBlock) {q p : FsmState} {s₁ : Core} (hq : q.isWait = true)
    (hduring : DuringCall q s₁ (fun k => run Core.step env s (t + k)))
    (hquiet : (run Core.step env s (t + 43)).Quiet p) :
    Progress env s (t + 43) (ad ++ (adTaken env s t).toList) adCount
      (msg ++ (msgTaken env s t).toList) msgCount
      (out ++ if s₁.dataOutValid then [s₁.dataOut] else []) := by
  have hcase : ∀ u, t < u → u ≤ t + 43 → ∃ k, 1 ≤ k ∧ k ≤ 43 ∧ u = t + k :=
    fun u hu hu' => ⟨u - t, by omega, by omega, by omega⟩
  have hlive : Live env s (t + 43) := by
    intro u hu hu'
    rcases Nat.lt_or_ge t u with htu | hut
    · obtain ⟨k, hk, hk', rfl⟩ := hcase u htu hu'
      rcases Nat.eq_or_lt_of_le hk' with rfl | hk'
      · exact hquiet.done
      · exact hduring.done k hk (by omega)
    · exact h.live u hu hut
  have hadReq : ∀ u, t < u → u ≤ t + 43 → adReqs env s u = false := by
    intro u htu hu'
    obtain ⟨k, hk, hk', rfl⟩ := hcase u htu hu'
    rcases Nat.eq_or_lt_of_le hk' with rfl | hk'
    · exact hquiet.adReq
    · exact hduring.adReq k hk (by omega)
  have hmsgReq : ∀ u, t < u → u ≤ t + 43 → msgReqs env s u = false := by
    intro u htu hu'
    obtain ⟨k, hk, hk', rfl⟩ := hcase u htu hu'
    rcases Nat.eq_or_lt_of_le hk' with rfl | hk'
    · exact hquiet.msgReq
    · exact hduring.msgReq k hk (by omega)
  have hwait : ∀ u, t + 1 ≤ u → u < t + 43 → (run Core.step env s u).state = q := by
    intro u htu hu'
    obtain ⟨k, hk, hk', rfl⟩ := hcase u htu hu'.le
    exact hduring.state k hk (by omega)
  have hnotAd : q ≠ .procAd := by rintro rfl; cases hq
  have hnotMsg : q ≠ .procMsg := by rintro rfl; cases hq
  refine ⟨hlive, ?_, ?_, ?_, ?_, ?_, hquiet.dataOutValid⟩
  · exact h.ads.rest host.ad (by omega) (fun u _ hu => hlive.mono (by omega))
      (fun u hu hu' => not_rise_of_low (hadReq u hu hu'))
  · exact h.msgs.rest host.msg (by omega) (fun u _ hu => hlive.mono (by omega))
      (fun u hu hu' => not_rise_of_low (hmsgReq u hu hu'))
  · rw [trace_quiet (show t + 1 ≤ t + 43 by omega) fun u hu hu' =>
      adTaken_none (by rw [hwait u hu hu']; exact hnotAd), trace_succ, h.takenAd]
  · rw [trace_quiet (show t + 1 ≤ t + 43 by omega) fun u hu hu' =>
      msgTaken_none (by rw [hwait u hu hu']; exact hnotMsg), trace_succ, h.takenMsg]
  · -- an output block is shown in the first cycle of the call only
    have hlate : ∀ u, t + 2 ≤ u → u < t + 43 → shown env s u = none := by
      intro u hu hu'
      obtain ⟨k, hk, hk', rfl⟩ := hcase u (by omega) hu'.le
      exact shown_none (hduring.dataOutValid k (by omega) (by omega))
    have hfirst : (shown env s (t + 1)).toList = if s₁.dataOutValid then [s₁.dataOut] else [] := by
      have hrun : run Core.step env s (t + 1) = s₁ := hduring.first
      rw [shown, hrun]
      cases s₁.dataOutValid <;> rfl
    rw [trace_quiet (show t + 2 ≤ t + 43 by omega) hlate, trace_succ, trace_succ_none (shown_none h.hidden),
      h.outputs, hfirst]

/-- Cycles in which nothing is taken or shown. -/
theorem Progress.stay (h : Progress env s t ad adCount msg msgCount out) {q : FsmState} {t' : ℕ}
    (htt : t ≤ t') (hq : q ≠ .procAd ∧ q ≠ .procMsg)
    (hstate : ∀ v, t ≤ v → v < t' → (run Core.step env s v).state = q)
    (hdone : ∀ v, t < v → v ≤ t' → (run Core.step env s v).done = false)
    (hvalid : ∀ v, t ≤ v → v < t' → (run Core.step env s v).dataOutValid = false) :
    Live env s t' ∧ trace (adTaken env s) t' = ad ∧ trace (msgTaken env s) t' = msg ∧
      trace (shown env s) t' = out := by
  refine ⟨fun u hu hut => ?_, ?_, ?_, ?_⟩
  · rcases Nat.lt_or_ge t u with htu | hut'
    · exact hdone u htu hut
    · exact h.live u hu hut'
  · rw [trace_quiet htt fun v hv hvt => adTaken_none (by rw [hstate v hv hvt]; exact hq.1), h.takenAd]
  · rw [trace_quiet htt fun v hv hvt => msgTaken_none (by rw [hstate v hv hvt]; exact hq.2),
      h.takenMsg]
  · rw [trace_quiet htt fun v hv hvt => shown_none (hvalid v hv hvt), h.outputs]

/-- Waiting on one of the channels: the machine keeps its state, with the request up from the second
    cycle on, until the acknowledge. -/
theorem Progress.wait (h : Progress env s t ad adCount msg msgCount out) {req : Core → Bool}
    {ack : CoreIn → Bool} {port block : ℕ → BitVec 128} {n : ℕ} {c : Bool → Core}
    {q p : FsmState}
    (served : Served (Live env s) (fun t => req (run Core.step env s t)) (fun t => ack (env t))
      port block)
    (settled : Settled (fun t => req (run Core.step env s t)) (fun t => ack (env t)) t n)
    (hstart : run Core.step env s t = c false) (hreq : ∀ b, req (c b) = b)
    (hstep : ∀ b i, Core.step i (c b) = if ack i then { c true with state := p } else c true)
    (hq : q ≠ .procAd ∧ q ≠ .procMsg)
    (hhold : ∀ b, (c b).state = q ∧ (c b).done = false ∧ (c b).dataOutValid = false) :
    ∃ u, t < u ∧ (∀ v, t ≤ v → v ≤ u → run Core.step env s v = c (decide (t < v))) ∧
      run Core.step env s (u + 1) = { c true with state := p } ∧ Live env s (u + 1) ∧
      Settled (fun t => req (run Core.step env s t)) (fun t => ack (env t)) (u + 1) (n + 1) ∧
      trace (adTaken env s) (u + 1) = ad ∧ trace (msgTaken env s) (u + 1) = msg ∧
      trace (shown env s) (u + 1) = out := by
  have hrun : ∀ u, t ≤ u → (∀ v, t ≤ v → v < u → ack (env v) = false) →
      run Core.step env s u = c (decide (t < u)) := by
    intro u hu
    induction u, hu using Nat.le_induction with
    | base =>
        intro _
        rw [hstart, decide_eq_false (lt_irrefl t)]
    | succ u hu ih =>
        intro hack
        rw [run_succ, ih fun v hv hvu => hack v hv (by omega), hstep, hack u hu (by omega),
          decide_eq_true (Nat.lt_succ_of_le hu)]
        rfl
  have hwait : ∀ u, t ≤ u → (∀ v, t ≤ v → v < u → ack (env v) = false) →
      Live env s u ∧ req (run Core.step env s u) = decide (t < u) := by
    intro u hu hack
    refine ⟨fun v hv hvu => ?_, by rw [hrun u hu hack, hreq]⟩
    rcases Nat.lt_or_ge t v with htv | hvt
    · rw [hrun v htv.le fun w hw hwv => hack w hw (by omega)]
      exact (hhold _).2.1
    · exact h.live v hv hvt
  obtain ⟨u, htu, hacku, hbefore, hacks, hrises⟩ :=
    served.next hwait (settled.acks.trans settled.rises.symm)
  have hstate : ∀ v, t ≤ v → v ≤ u → run Core.step env s v = c (decide (t < v)) :=
    fun v hv hvu => hrun v hv fun w hw hwv => hbefore w hw (by omega)
  have hnext : run Core.step env s (u + 1) = { c true with state := p } := by
    rw [run_succ, hstate u htu.le le_rfl, hstep, if_pos hacku]
  have hhigh : req (run Core.step env s u) = true := by
    rw [(hwait u htu.le hbefore).2, decide_eq_true htu]
  obtain ⟨hlive, htraces⟩ := h.stay (show t ≤ u + 1 by omega) hq
    (fun v hv hvu => by rw [hstate v hv (by omega)]; exact (hhold _).1)
    (fun v hv hvu => by
      rcases Nat.eq_or_lt_of_le hvu with rfl | hlt
      · rw [hnext]
        exact (hhold true).2.1
      · rw [hstate v hv.le (by omega)]
        exact (hhold _).2.1)
    (fun v hv hvu => by rw [hstate v hv (by omega)]; exact (hhold _).2.2)
  refine ⟨u, htu, hstate, hnext, hlive, ⟨?_, ?_⟩, htraces⟩
  · rw [hacks, settled.rises]
  · rw [rises_succ_of_not (not_rise_of_high hhigh), hrises, settled.rises]

/-- Waiting for the next AD block. -/
theorem Progress.nextAd (h : Progress env s t ad adCount msg msgCount out)
    (host : Host env s adBlock msgBlock) {y : BitVec 128} {l : BitVec 64} {ra rm : BitVec 8}
    (hat : (run Core.step env s t).At .reqAd y l ra rm)
    (hquiet : (run Core.step env s t).Quiet .reqAd) :
    ∃ t', t < t' ∧ (run Core.step env s t').At .procAd y l ra rm ∧
      (run Core.step env s t').dataOut = (run Core.step env s t).dataOut ∧
      Progress env s t' ad (adCount + 1) msg msgCount out := by
  have hstart : run Core.step env s t = { run Core.step env s t with adReq := false } := by
    rw [← hquiet.adReq]
  obtain ⟨u, htu, hstate, hnext, hlive, hads, hta, htm, hto⟩ := h.wait host.ad h.ads
    (c := fun b => { run Core.step env s t with adReq := b }) hstart (fun _ => rfl)
    (step_reqAd hat hquiet) ⟨FsmState.noConfusion, FsmState.noConfusion⟩
    (fun _ => ⟨hat.state, hat.done, hquiet.dataOutValid⟩)
  -- the other channel is quiet meanwhile
  have hother : ∀ v, t < v → v ≤ u + 1 → msgReqs env s v = false := by
    intro v hv hvu
    unfold msgReqs
    rcases Nat.eq_or_lt_of_le hvu with rfl | hlt
    · rw [hnext]
      exact hquiet.msgReq
    · rw [hstate v hv.le (by omega)]
      exact hquiet.msgReq
  refine ⟨u + 1, by omega, ?_, by rw [hnext], hlive, hads, ?_, hta, htm, hto, ?_⟩
  · rw [hnext]
    exact ⟨rfl, hat.y, hat.l, hat.remainingAd, hat.remainingMsg, hat.giftStart, hat.busy,
      hat.giftDone, hat.done⟩
  · exact h.msgs.rest host.msg (by omega) (fun v _ hv => hlive.mono (by omega))
      (fun v hv hvu => not_rise_of_low (hother v hv hvu))
  · rw [hnext]
    exact hquiet.dataOutValid

/-- Waiting for the next message block. -/
theorem Progress.nextMsg (h : Progress env s t ad adCount msg msgCount out)
    (host : Host env s adBlock msgBlock) {y : BitVec 128} {l : BitVec 64} {ra rm : BitVec 8}
    (hat : (run Core.step env s t).At .reqMsg y l ra rm)
    (hquiet : (run Core.step env s t).Quiet .reqMsg) :
    ∃ t', t < t' ∧ (run Core.step env s t').At .procMsg y l ra rm ∧
      (run Core.step env s t').dataOut = (run Core.step env s t).dataOut ∧
      Progress env s t' ad adCount msg (msgCount + 1) out := by
  have hstart : run Core.step env s t = { run Core.step env s t with msgReq := false } := by
    rw [← hquiet.msgReq]
  obtain ⟨u, htu, hstate, hnext, hlive, hmsgs, hta, htm, hto⟩ := h.wait host.msg h.msgs
    (c := fun b => { run Core.step env s t with msgReq := b }) hstart (fun _ => rfl)
    (step_reqMsg hat hquiet) ⟨FsmState.noConfusion, FsmState.noConfusion⟩
    (fun _ => ⟨hat.state, hat.done, hquiet.dataOutValid⟩)
  have hother : ∀ v, t < v → v ≤ u + 1 → adReqs env s v = false := by
    intro v hv hvu
    unfold adReqs
    rcases Nat.eq_or_lt_of_le hvu with rfl | hlt
    · rw [hnext]
      exact hquiet.adReq
    · rw [hstate v hv.le (by omega)]
      exact hquiet.adReq
  refine ⟨u + 1, by omega, ?_, by rw [hnext], hlive, ?_, hmsgs, hta, htm, hto, ?_⟩
  · rw [hnext]
    exact ⟨rfl, hat.y, hat.l, hat.remainingAd, hat.remainingMsg, hat.giftStart, hat.busy,
      hat.giftDone, hat.done⟩
  · exact h.ads.rest host.ad (by omega) (fun v _ hv => hlive.mono (by omega))
      (fun v hv hvu => not_rise_of_low (hother v hv hvu))
  · rw [hnext]
    exact hquiet.dataOutValid

end Segments

/-! ## The blocks of the associated data -/

section Operation

variable {env : ℕ → CoreIn} {s : Core} {adBlock msgBlock : ℕ → BitVec 128}

/-- The number of blocks the machine takes; the empty AD is one empty block. -/
def adBlocks (len : BitVec 8) : ℕ := max 1 ((len.toNat + 15) / 16)

/-- The blocks of a message. -/
def msgBlocks (len : BitVec 8) : ℕ := (len.toNat + 15) / 16

/-- The cipher of the operation. -/
def Host.cipher (env : ℕ → CoreIn) : BitVec 128 → BitVec 128 := Spec.gift128 (env 0).key

/-- The associated data of a host. -/
def Host.adBytes (env : ℕ → CoreIn) (adBlock : ℕ → BitVec 128) : List Byte :=
  streamBytes adBlock (env 0).adTotalLen.toNat

/-- The message of a host. -/
def Host.msgBytes (env : ℕ → CoreIn) (msgBlock : ℕ → BitVec 128) : List Byte :=
  streamBytes msgBlock (env 0).msgTotalLen.toNat

theorem chainNext_eq (key x y : BitVec 128) (l : BitVec 64) (B : List Byte) (c : Cofb.Chain)
    (hy : c.y = y) (hx : x = Cofb.feedback y ^^^ Cofb.pad B) :
    chainNext key x l = (Cofb.absorb (Spec.gift128 key) l B c).y := by
  rw [chainNext, xorTopbarBlock_eq, hx, Cofb.absorb, hy]

/-- The ports are stable in the cycle after `t` too. -/
theorem Host.keyNext (host : Host env s adBlock msgBlock) {t : ℕ} (ht : Live env s t)
    (hnext : (run Core.step env s (t + 1)).done = false) : (env (t + 1)).key = (env 0).key := by
  refine host.key (t + 1) fun u hu hut => ?_
  rcases Nat.eq_or_lt_of_le hut with rfl | hlt
  · exact hnext
  · exact ht u hu (by omega)

theorem run_shift (env : ℕ → CoreIn) (s : Core) (t : ℕ) :
    run Core.step (fun k => env (t + k)) (run Core.step env s t) =
      fun k => run Core.step env s (t + k) :=
  funext fun k => (run_add Core.step env s t k).symm

theorem DuringCall.live {q : FsmState} {s₁ : Core} {t : ℕ} (ht : Live env s t)
    (h : DuringCall q s₁ (fun k => run Core.step env s (t + k))) : Live env s (t + 42) := by
  intro u hu hut
  rcases Nat.lt_or_ge t u with htu | hut'
  · obtain ⟨k, rfl⟩ : ∃ k, u = t + k := ⟨u - t, by omega⟩
    exact h.done k (by omega) (by omega)
  · exact ht u hu hut'

/-- AD block `j`. -/
theorem Host.adStep (host : Host env s adBlock msgBlock) {j t : ℕ} {ra rm : BitVec 8}
    {c : Cofb.Chain} {msg out : List (BitVec 128)} {msgCount : ℕ}
    (hra : (env 0).adTotalLen.toNat = 16 * j + ra.toNat)
    (hat : (run Core.step env s t).At .procAd c.y c.l ra rm)
    (h : Progress env s t ((List.range j).map adBlock) j msg msgCount out) :
    (run Core.step env s (t + 43)).After (adExit ra (env 0).emptyM)
        (Cofb.absorb (cipher env) (adMask ra (env 0).emptyM c.l)
          (inBytes adBlock (env 0).adTotalLen.toNat j) c).y
        (adMask ra (env 0).emptyM c.l) (remainingNext ra) rm (run Core.step env s t).dataOut ∧
      Progress env s (t + 43) ((List.range (j + 1)).map adBlock) j msg msgCount out := by
  have hdata : (env t).adData = adBlock j := by
    rw [host.ad.port_eq h.live (h.ads.acks.trans h.ads.rises.symm), h.ads.rises]
  have hkey : (env (t + 1)).key = (env 0).key :=
    host.keyNext h.live (step_done_low (by rw [hat.state]; exact FsmState.noConfusion)
      (.inr hat.done) _)
  obtain ⟨s₁, hs₁, hduring, hend⟩ := run_procAd hat (fun k => env (t + k)) hkey
  rw [run_shift] at hduring hend
  have hlive := hduring.live h.live
  have hlen : (env t).msgTotalLen = (env 0).msgTotalLen := host.msgTotalLen t h.live
  have hempty : (env t).emptyM = (env 0).emptyM := by
    rw [CoreIn.emptyM, hlen]
    rfl
  have hafter := hend ((host.msgTotalLen _ hlive).trans hlen.symm)
  simp only [Nat.add_zero, hempty, hdata] at hafter
  have hbytes : leftBytes 16 (blockBytes ra).toNat (adBlock j) =
      inBytes adBlock (env 0).adTotalLen.toNat j := by
    rw [inBytes, toNat_blockBytes, show (env 0).adTotalLen.toNat - 16 * j = ra.toNat by omega]
  rw [chainNext_eq (env 0).key _ c.y _ (inBytes adBlock (env 0).adTotalLen.toNat j) c rfl (by
    rw [← hbytes, pho1_eq _ _ (by rw [toNat_blockBytes]; omega)])] at hafter
  refine ⟨hafter, ?_⟩
  have hprogress := h.call host rfl hduring hafter.quiet
  have htaken : adTaken env s t = some (adBlock j) := by
    rw [adTaken, if_pos hat.state, hdata]
  have hother : msgTaken env s t = none :=
    msgTaken_none (by rw [hat.state]; exact FsmState.noConfusion)
  rw [htaken, hother, hs₁] at hprogress
  simpa [List.range_succ] using hprogress

/-- From AD block `j` on, with `k` more to come. -/
theorem Host.adRun (host : Host env s adBlock msgBlock) {k j t : ℕ} {ra rm : BitVec 8}
    {c : Cofb.Chain} {msg out : List (BitVec 128)} {msgCount : ℕ}
    (hk : adBlocks (env 0).adTotalLen = j + k + 1)
    (hra : (env 0).adTotalLen.toNat = 16 * j + ra.toNat)
    (hat : (run Core.step env s t).At .procAd c.y c.l ra rm)
    (h : Progress env s t ((List.range j).map adBlock) j msg msgCount out) :
    ∃ t' ra', t < t' ∧
      (run Core.step env s t').After (if (env 0).emptyM then .done else .procMsg)
        (Cofb.absorbAll (cipher env) (Cofb.adMask (adBytes env adBlock) (msgBytes env msgBlock))
          ((List.range' j (k + 1)).map (inBytes adBlock (env 0).adTotalLen.toNat)) c).y
        (Cofb.absorbAll (cipher env) (Cofb.adMask (adBytes env adBlock) (msgBytes env msgBlock))
          ((List.range' j (k + 1)).map (inBytes adBlock (env 0).adTotalLen.toNat)) c).l
        ra' rm (run Core.step env s t).dataOut ∧
      Progress env s t' ((List.range (j + k + 1)).map adBlock) (j + k) msg msgCount out := by
  have hblocks : max 1 (((env 0).adTotalLen.toNat + 15) / 16) = j + k + 1 := hk
  obtain ⟨hafter, hprogress⟩ := host.adStep hra hat h
  -- on the blocks to come; the claim for `k` starts at the next block
  induction k generalizing j t ra c with
  | zero =>
      have hlast : lastNow ra = true := (lastNow_iff ra).2 (by omega)
      have hmask := @adMask_last (adBytes env adBlock) (msgBytes env msgBlock) ra j (env 0).emptyM
        ((length_streamBytes _ _).trans hra) ?_ ?_ hlast c.l
      · rw [hmask, adExit, if_pos hlast] at hafter
        exact ⟨t + 43, _, by omega, hafter, hprogress⟩
      · rintro rfl
        have : (0 : BitVec 8).toNat = 0 := rfl
        omega
      · rw [msgBytes, streamBytes_eq_nil, CoreIn.emptyM, beq_iff_eq, ← BitVec.toNat_inj]
        rfl
  | succ k ih =>
      have hmore : lastNow ra = false := by
        rw [← Bool.not_eq_true, lastNow_iff]
        omega
      have hexit : adExit ra (env 0).emptyM = .reqAd := by
        rw [adExit, hmore]
        rfl
      rw [hexit, adMask_more hmore, remainingNext, hmore] at hafter
      obtain ⟨t₁, ht₁, hat₁, hout₁, hprogress₁⟩ := hprogress.nextAd host hafter.at_ hafter.quiet
      have hra₁ : (env 0).adTotalLen.toNat = 16 * (j + 1) + (ra - 16).toNat := by
        rw [BitVec.toNat_sub_of_le (by
          rw [BitVec.le_def]
          show 16 ≤ ra.toNat
          omega)]
        show _ = 16 * (j + 1) + (ra.toNat - 16)
        omega
      obtain ⟨hafter₂, hprogress₂⟩ := host.adStep hra₁ hat₁ hprogress₁
      obtain ⟨t', ra', ht', hend, hprogress'⟩ :=
        ih (by omega) hra₁ hat₁ hprogress₁ (by omega) hafter₂ hprogress₂
      refine ⟨t', ra', by omega, ?_, ?_⟩
      · rw [hout₁, hafter.dataOut] at hend
        exact hend
      · rw [show j + 1 + k = j + (k + 1) by omega] at hprogress'
        exact hprogress'

/-! ## The blocks of the message -/

/-- Message block `j`. -/
theorem Host.msgStep (host : Host env s adBlock msgBlock) {j t : ℕ} {ra rm : BitVec 8}
    {c : Cofb.Chain} {ad out : List (BitVec 128)} {adCount : ℕ}
    (hrm : (env 0).msgTotalLen.toNat = 16 * j + rm.toNat)
    (hat : (run Core.step env s t).At .procMsg c.y c.l ra rm)
    (h : Progress env s t ad adCount ((List.range j).map msgBlock) j out) :
    (run Core.step env s (t + 43)).After (msgExit rm)
        (Cofb.absorb (cipher env) (msgMask rm c.l) (Cofb.plain (env 0).decryptMode c
          (inBytes msgBlock (env 0).msgTotalLen.toNat j)) c).y
        (msgMask rm c.l) ra (remainingNext rm)
        (Cofb.toBlock (Cofb.output c (inBytes msgBlock (env 0).msgTotalLen.toNat j))) ∧
      Progress env s (t + 43) ad adCount ((List.range (j + 1)).map msgBlock) j
        (out ++ [Cofb.toBlock (Cofb.output c (inBytes msgBlock (env 0).msgTotalLen.toNat j))]) := by
  have hdata : (env t).msgData = msgBlock j := by
    rw [host.msg.port_eq h.live (h.msgs.acks.trans h.msgs.rises.symm), h.msgs.rises]
  have hkey : (env (t + 1)).key = (env 0).key :=
    host.keyNext h.live (step_done_low (by rw [hat.state]; exact FsmState.noConfusion)
      (.inr hat.done) _)
  have hbytes : leftBytes 16 (blockBytes rm).toNat (msgBlock j) =
      inBytes msgBlock (env 0).msgTotalLen.toNat j := by
    rw [inBytes, toNat_blockBytes, show (env 0).msgTotalLen.toNat - 16 * j = rm.toNat by omega]
  have hpho := phoMsg_eq (env t).decryptMode c (env t).msgData
    (n := blockBytes rm) (by rw [toNat_blockBytes]; omega)
  obtain ⟨s₁, hs₁, hout₁, hduring, hafter⟩ :=
    run_procMsg hat (fun k => env (t + k)) hkey hpho
  rw [run_shift] at hduring hafter
  rw [hdata, hbytes] at hout₁
  rw [hdata, hbytes, host.decryptMode t h.live] at hafter
  rw [chainNext_eq (env 0).key _ c.y _ _ c rfl rfl] at hafter
  refine ⟨hafter, ?_⟩
  have hprogress := h.call host rfl hduring hafter.quiet
  have htaken : msgTaken env s t = some (msgBlock j) := by
    rw [msgTaken, if_pos hat.state, hdata]
  have hother : adTaken env s t = none :=
    adTaken_none (by rw [hat.state]; exact FsmState.noConfusion)
  rw [htaken, hother, hs₁, hout₁] at hprogress
  simpa [List.range_succ] using hprogress

/-- From message block `j` on, with `k` more to come. -/
theorem Host.msgRun (host : Host env s adBlock msgBlock) {k j t : ℕ} {ra rm : BitVec 8}
    {c : Cofb.Chain} {ad out : List (BitVec 128)} {adCount : ℕ}
    (hk : msgBlocks (env 0).msgTotalLen = j + k + 1)
    (hrm : (env 0).msgTotalLen.toNat = 16 * j + rm.toNat)
    (hat : (run Core.step env s t).At .procMsg c.y c.l ra rm)
    (h : Progress env s t ad adCount ((List.range j).map msgBlock) j out) :
    ∃ t' l' ra' rm' out', t < t' ∧
      (run Core.step env s t').After .done
        (Cofb.cryptAll (cipher env) (env 0).decryptMode (Cofb.lastMask (msgBytes env msgBlock))
          ((List.range' j (k + 1)).map (inBytes msgBlock (env 0).msgTotalLen.toNat)) c).2.y
        l' ra' rm' out' ∧
      (∀ d, ((Cofb.cryptAll (cipher env) (env 0).decryptMode (Cofb.lastMask (msgBytes env msgBlock))
          ((List.range' j (k + 1)).map (inBytes msgBlock (env 0).msgTotalLen.toNat)) c).1.map
            Cofb.toBlock).getLastD d = out') ∧
      Progress env s t' ad adCount ((List.range (j + k + 1)).map msgBlock) (j + k)
        (out ++ (Cofb.cryptAll (cipher env) (env 0).decryptMode
          (Cofb.lastMask (msgBytes env msgBlock))
          ((List.range' j (k + 1)).map (inBytes msgBlock (env 0).msgTotalLen.toNat)) c).1.map
            Cofb.toBlock) := by
  have hblocks : ((env 0).msgTotalLen.toNat + 15) / 16 = j + k + 1 := hk
  obtain ⟨hafter, hprogress⟩ := host.msgStep hrm hat h
  -- as for the associated data, with the output blocks
  induction k generalizing j t rm c out with
  | zero =>
      have hlast : lastNow rm = true := (lastNow_iff rm).2 (by omega)
      have hne : rm ≠ 0 := by
        rintro rfl
        have : (0 : BitVec 8).toNat = 0 := rfl
        omega
      have hmask := @msgMask_last (msgBytes env msgBlock) rm j
        ((length_streamBytes _ _).trans hrm) hne hlast c.l
      rw [hmask, msgExit, if_pos hlast] at hafter
      exact ⟨t + 43, _, _, _, _, by omega, hafter, fun d => rfl, hprogress⟩
  | succ k ih =>
      have hmore : lastNow rm = false := by
        rw [← Bool.not_eq_true, lastNow_iff]
        omega
      have hexit : msgExit rm = .reqMsg := by
        rw [msgExit, hmore]
        rfl
      rw [hexit, msgMask_more hmore, remainingNext, hmore] at hafter
      obtain ⟨t₁, ht₁, hat₁, -, hprogress₁⟩ := hprogress.nextMsg host hafter.at_ hafter.quiet
      have hrm₁ : (env 0).msgTotalLen.toNat = 16 * (j + 1) + (rm - 16).toNat := by
        rw [BitVec.toNat_sub_of_le (by
          rw [BitVec.le_def]
          show 16 ≤ rm.toNat
          omega)]
        show _ = 16 * (j + 1) + (rm.toNat - 16)
        omega
      obtain ⟨hafter₂, hprogress₂⟩ := host.msgStep hrm₁ hat₁ hprogress₁
      obtain ⟨t', l', ra', rm', out', ht', hend, hlast', hprogress'⟩ :=
        ih (by omega) hrm₁ hat₁ hprogress₁ (by omega) hafter₂ hprogress₂
      refine ⟨t', l', ra', rm', out', by omega, hend, fun d => ?_, ?_⟩
      · exact List.getLastD_cons.trans (hlast' _)
      rw [show j + 1 + k = j + (k + 1) by omega, List.append_assoc] at hprogress'
      exact hprogress'

/-! ## The whole operation -/

/-- Output blocks and tag of the mode. -/
def Host.reference (env : ℕ → CoreIn) (adBlock msgBlock : ℕ → BitVec 128) :
    List (List Byte) × BitVec 128 :=
  Spec.aead (leftBytes 16 16 (env 0).key) (env 0).decryptMode (leftBytes 16 16 (env 0).nonce)
    (adBytes env adBlock) (msgBytes env msgBlock)

/-- The chain after the associated data. -/
def Host.adChain (env : ℕ → CoreIn) (adBlock msgBlock : ℕ → BitVec 128) : Cofb.Chain :=
  Cofb.afterAd (cipher env) (leftBytes 16 16 (env 0).nonce) (adBytes env adBlock)
    (msgBytes env msgBlock)

theorem Host.reference_eq (env : ℕ → CoreIn) (adBlock msgBlock : ℕ → BitVec 128) :
    reference env adBlock msgBlock =
      ((Cofb.cryptAll (cipher env) (env 0).decryptMode (Cofb.lastMask (msgBytes env msgBlock))
          (Cofb.blocks (msgBytes env msgBlock)) (adChain env adBlock msgBlock)).1,
        (Cofb.cryptAll (cipher env) (env 0).decryptMode (Cofb.lastMask (msgBytes env msgBlock))
          (Cofb.blocks (msgBytes env msgBlock)) (adChain env adBlock msgBlock)).2.y) := by
  rw [reference, Spec.aead, toBlock_leftBytes]
  rfl

theorem adList_eq (adBlock : ℕ → BitVec 128) (len : ℕ) {k : ℕ}
    (hk : max 1 ((len + 15) / 16) = k + 1) :
    (if streamBytes adBlock len = [] then [[]] else Cofb.blocks (streamBytes adBlock len)) =
      (List.range' 0 (k + 1)).map (inBytes adBlock len) := by
  by_cases h : len = 0
  · subst h
    obtain rfl : k = 0 := by omega
    rfl
  · rw [if_neg (fun hnil => h ((streamBytes_eq_nil _ _).1 hnil)), blocks_streamBytes,
      ← List.range_eq_range', show (len + 15) / 16 = k + 1 by omega]

/-- Nonce and associated data. -/
theorem Host.run_head (host : Host env s adBlock msgBlock) (hs : s.FromReset)
    (hidle : s.state = .idle) :
    ∃ t ra', 0 < t ∧
      (run Core.step env s t).After (if (env 0).emptyM then .done else .procMsg)
        (adChain env adBlock msgBlock).y (adChain env adBlock msgBlock).l ra' (env 0).msgTotalLen
        s.dataOut ∧
      Progress env s t ((List.range (adBlocks (env 0).adTotalLen)).map adBlock)
        (adBlocks (env 0).adTotalLen - 1) [] 0 [] := by
  obtain ⟨hadReq, hmsgReq, hvalid⟩ := hs.silent hidle
  have h0 : Progress env s 0 [] 0 [] 0 [] :=
    ⟨fun u hu hu0 => absurd hu0 (by omega), .start hadReq, .start hmsgReq, rfl, rfl, rfl, hvalid⟩
  have hkey : (env 1).key = (env 0).key :=
    host.keyNext h0.live (step_done_low (by rw [hidle]; exact FsmState.noConfusion)
      (.inl hidle) _)
  obtain ⟨hafter, hduring⟩ := run_nonce hs.inv hidle host.start hkey
  have hduring' : DuringCall .waitNonce (s.started (env 0))
      (fun k => run Core.step env s (0 + k)) := by
    simpa only [Nat.zero_add] using hduring
  have h43 := h0.call host rfl hduring' (by rw [Nat.zero_add]; exact hafter.quiet)
  rw [Nat.zero_add, adTaken_none (by rw [run_zero, hidle]; exact FsmState.noConfusion),
    msgTaken_none (by rw [run_zero, hidle]; exact FsmState.noConfusion),
    show (s.started (env 0)).dataOutValid = false from rfl] at h43
  obtain ⟨k, hk⟩ : ∃ k, adBlocks (env 0).adTotalLen = 0 + k + 1 :=
    ⟨adBlocks (env 0).adTotalLen - 1, by unfold adBlocks; omega⟩
  have hlen : (env 0).adTotalLen.toNat = 16 * 0 + (env 0).adTotalLen.toNat := by omega
  obtain ⟨t, ra', ht, hend, hprogress⟩ := host.adRun
    (c := Cofb.initial (cipher env) (leftBytes 16 16 (env 0).nonce)) hk hlen
    (by rw [Cofb.initial, toBlock_leftBytes]; exact hafter.at_) h43
  refine ⟨t, ra', by omega, ?_, ?_⟩
  · rw [hafter.dataOut, ← adList_eq adBlock _ (by rw [← Nat.zero_add k]; exact hk)] at hend
    exact hend
  · rw [hk, show 0 + k + 1 - 1 = 0 + k by omega]
    exact hprogress

/-- The last edge. -/
theorem Progress.finish {t : ℕ} {ad msg out : List (BitVec 128)} {adCount msgCount : ℕ}
    {y : BitVec 128} {l : BitVec 64} {ra rm : BitVec 8} {d : BitVec 128}
    (h : Progress env s t ad adCount msg msgCount out) (hend : (run Core.step env s t).After
      .done y l ra rm d) :
    FirstDone Core.step env s Core.done (t + 1) ∧
      trace (GiftCofb.adTaken env s) (t + 1) = ad ∧ trace (GiftCofb.msgTaken env s) (t + 1) = msg ∧
      rises (adReqs env s) (t + 1) = adCount ∧ rises (msgReqs env s) (t + 1) = msgCount ∧
      trace (GiftCofb.shown env s) (t + 1) = out ∧
      (run Core.step env s (t + 1)).tagOut = y ∧ (run Core.step env s (t + 1)).dataOut = d ∧
      (run Core.step env s (t + 1)).valid =
        (if (env t).decryptMode then y == (env t).tagIn else true) ∧
      ((env t).start = false → (run Core.step env s (t + 1)).state = .idle) := by
  have hstate := hend.at_.state
  obtain ⟨hdone, htag, hout, hadReq, hmsgReq, -, hvalid, hidle⟩ := step_done hend.at_ (env t)
  refine ⟨⟨Nat.succ_pos t, hdone, fun k hk hkt => h.live k hk (by omega)⟩, ?_, ?_, ?_, ?_, ?_,
    htag.trans (hend.tagOut rfl), hout.trans hend.dataOut, ?_, hidle⟩
  · rw [trace_succ_none (adTaken_none (by rw [hstate]; exact FsmState.noConfusion)), h.takenAd]
  · rw [trace_succ_none (msgTaken_none (by rw [hstate]; exact FsmState.noConfusion)), h.takenMsg]
  · rw [rises_succ_of_not (not_rise_of_low hadReq), h.ads.rises]
  · rw [rises_succ_of_not (not_rise_of_low hmsgReq), h.msgs.rises]
  · rw [trace_succ_none (shown_none h.hidden), h.outputs]
  · rw [← hend.tagOut rfl]
    exact hvalid

/-- What an operation with a serving host shows by cycle `n`. -/
structure Host.Outcome (env : ℕ → CoreIn) (s : Core) (adBlock msgBlock : ℕ → BitVec 128) (n : ℕ) :
    Prop where
  firstDone : FirstDone Core.step env s Core.done n
  takenAd : trace (adTaken env s) n = (List.range (adBlocks (env 0).adTotalLen)).map adBlock
  takenMsg : trace (msgTaken env s) n = (List.range (msgBlocks (env 0).msgTotalLen)).map msgBlock
  ads : rises (adReqs env s) n = adBlocks (env 0).adTotalLen - 1
  msgs : rises (msgReqs env s) n = msgBlocks (env 0).msgTotalLen - 1
  outputs : trace (shown env s) n = (reference env adBlock msgBlock).1.map Cofb.toBlock
  tagOut : (run Core.step env s n).tagOut = (reference env adBlock msgBlock).2
  dataOut : (run Core.step env s n).dataOut =
    ((reference env adBlock msgBlock).1.map Cofb.toBlock).getLastD s.dataOut
  valid : (run Core.step env s n).valid =
    if (env 0).decryptMode then (reference env adBlock msgBlock).2 == (env 0).tagIn else true
  idle : (∀ t, 0 < t → (env t).start = false) → (run Core.step env s n).state = .idle

theorem Host.run_op (host : Host env s adBlock msgBlock) (hs : s.FromReset)
    (hidle : s.state = .idle) : ∃ n, Outcome env s adBlock msgBlock n := by
  obtain ⟨t, ra', ht, hend, hprogress⟩ := host.run_head hs hidle
  have hempty : (env 0).emptyM = true ↔ (env 0).msgTotalLen.toNat = 0 := by
    rw [CoreIn.emptyM, beq_iff_eq, ← BitVec.toNat_inj]
    rfl
  -- without a message the last AD block ends the operation
  by_cases hm : (env 0).emptyM = true
  · rw [if_pos hm] at hend
    have hnone : msgBlocks (env 0).msgTotalLen = 0 := by
      rw [msgBlocks, hempty.1 hm]
    have hblocks : Cofb.blocks (msgBytes env msgBlock) = [] := by
      rw [msgBytes, hempty.1 hm, blocks_streamBytes]
      exact List.map_nil
    obtain ⟨hdone, hta, htm, hra, hrm, hto, htag, hout, hvalid, hfree⟩ := hprogress.finish hend
    rw [host.decryptMode t hprogress.live, host.tagIn t hprogress.live] at hvalid
    have href := reference_eq env adBlock msgBlock
    rw [hblocks] at href
    refine ⟨t + 1, hdone, hta, ?_, hra, ?_, ?_, ?_, ?_, ?_, fun h => hfree (h t ht)⟩
    · rw [htm, hnone]; rfl
    · rw [hrm, hnone]
    · rw [hto, href]; rfl
    · rw [htag, href]; rfl
    · rw [hout, href]; rfl
    · rw [hvalid, href]; rfl
  · rw [if_neg hm] at hend
    obtain ⟨k, hk⟩ : ∃ k, msgBlocks (env 0).msgTotalLen = 0 + k + 1 := by
      have hne : (env 0).msgTotalLen.toNat ≠ 0 := fun h => hm (hempty.2 h)
      exact ⟨msgBlocks (env 0).msgTotalLen - 1, by unfold msgBlocks; omega⟩
    have hlen : (env 0).msgTotalLen.toNat = 16 * 0 + (env 0).msgTotalLen.toNat := by omega
    obtain ⟨t', l', ra'', rm', out', ht', hend', hlast, hprogress'⟩ :=
      host.msgRun hk hlen hend.at_ hprogress
    have hblocks : Cofb.blocks (msgBytes env msgBlock) =
        (List.range' 0 (k + 1)).map (inBytes msgBlock (env 0).msgTotalLen.toNat) := by
      rw [msgBytes, blocks_streamBytes, ← List.range_eq_range', ← Nat.zero_add k, ← hk]
      rfl
    obtain ⟨hdone, hta, htm, hra, hrm, hto, htag, hout, hvalid, hfree⟩ := hprogress'.finish hend'
    rw [host.decryptMode t' hprogress'.live, host.tagIn t' hprogress'.live] at hvalid
    have href := reference_eq env adBlock msgBlock
    rw [hblocks] at href
    refine ⟨t' + 1, hdone, hta, ?_, hra, ?_, ?_, ?_, ?_, ?_, fun h => hfree (h t' (by omega))⟩
    · rw [htm, hk]
    · rw [hrm, hk]; omega
    · rw [hto, href]; rfl
    · rw [htag, href]
    · rw [hout, href, ← hlast s.dataOut]
    · rw [hvalid, href]

/-- From every reachable idle state and with every host that serves the streams, the core takes the
    blocks in order, each one once, asks for every block but the first, shows the output blocks of
    GIFT-COFB and ends with its tag. -/
theorem core_computes_gift_cofb (hs : s.FromReset) (hidle : s.state = .idle)
    (host : Host env s adBlock msgBlock) :
    ∃ n, FirstDone Core.step env s Core.done n ∧
      trace (adTaken env s) n =
        (List.range (max 1 (((env 0).adTotalLen.toNat + 15) / 16))).map adBlock ∧
      trace (msgTaken env s) n =
        (List.range (((env 0).msgTotalLen.toNat + 15) / 16)).map msgBlock ∧
      rises (adReqs env s) n = ((env 0).adTotalLen.toNat + 15) / 16 - 1 ∧
      rises (msgReqs env s) n = ((env 0).msgTotalLen.toNat + 15) / 16 - 1 ∧
      trace (shown env s) n = (Host.reference env adBlock msgBlock).1.map Cofb.toBlock ∧
      (run Core.step env s n).tagOut = (Host.reference env adBlock msgBlock).2 := by
  obtain ⟨n, h⟩ := host.run_op hs hidle
  have hads : adBlocks (env 0).adTotalLen - 1 = ((env 0).adTotalLen.toNat + 15) / 16 - 1 := by
    unfold adBlocks
    omega
  exact ⟨n, h.firstDone, h.takenAd, h.takenMsg, h.ads.trans hads, h.msgs, h.outputs, h.tagOut⟩

end Operation

/-! ## A host that serves both streams -/

/-- The core, and the acknowledges that its host has given on each stream. -/
structure Hosted where
  core : Core
  adAcks : ℕ
  msgAcks : ℕ

/-- A cycle of the host: the start pulse, and whether it gets to a request. -/
structure HostCycle where
  start : Bool
  go : Bool

namespace Hosted

variable (op : CoreIn) (adBlock msgBlock : ℕ → BitVec 128)

/-- The host that gets to a request acknowledges it in that cycle. -/
def adAck (c : HostCycle) (h : Hosted) : Bool := c.go && h.core.adReq && h.core.state == .reqAd

/-- The acknowledge on the message stream. -/
def msgAck (c : HostCycle) (h : Hosted) : Bool := c.go && h.core.msgReq && h.core.state == .reqMsg

/-- From an acknowledge on, the port shows the next block. -/
def input (c : HostCycle) (h : Hosted) : CoreIn :=
  { op with
    start := c.start
    adAck := h.adAck c
    adData := adBlock (h.adAcks + (h.adAck c).toNat)
    msgAck := h.msgAck c
    msgData := msgBlock (h.msgAcks + (h.msgAck c).toNat) }

/-- A clock edge of the core and of the host's counters. -/
def step (c : HostCycle) (h : Hosted) : Hosted where
  core := Core.step (h.input op adBlock msgBlock c) h.core
  adAcks := h.adAcks + (h.adAck c).toNat
  msgAcks := h.msgAcks + (h.msgAck c).toNat

/-- The state of a run in cycle `t`. -/
def at_ (cycles : ℕ → HostCycle) (s : Core) (t : ℕ) : Hosted :=
  run (step op adBlock msgBlock) cycles ⟨s, 0, 0⟩ t

/-- What the core sees in cycle `t` of the run. -/
def env (cycles : ℕ → HostCycle) (s : Core) (t : ℕ) : CoreIn :=
  (at_ op adBlock msgBlock cycles s t).input op adBlock msgBlock (cycles t)

variable {op adBlock msgBlock} {cycles : ℕ → HostCycle} {s : Core}

theorem run_core (t : ℕ) : run Core.step (env op adBlock msgBlock cycles s) s t =
    (at_ op adBlock msgBlock cycles s t).core := by
  induction t with
  | zero => rfl
  | succ t ih =>
      rw [run_succ, ih]
      rfl

theorem acksBefore_eq (t : ℕ) :
    acksBefore (fun t => (env op adBlock msgBlock cycles s t).adAck) t =
        (at_ op adBlock msgBlock cycles s t).adAcks
      ∧ acksBefore (fun t => (env op adBlock msgBlock cycles s t).msgAck) t =
        (at_ op adBlock msgBlock cycles s t).msgAcks := by
  induction t with
  | zero => exact ⟨rfl, rfl⟩
  | succ t ih =>
      have hcount (ack : ℕ → Bool) : acksBefore ack (t + 1) = acksBefore ack t + (ack t).toNat := by
        cases ha : ack t with
        | true => rw [acksBefore_succ_of_high ha]; rfl
        | false => rw [acksBefore_succ_of_low ha]; rfl
      rw [hcount, hcount, ih.1, ih.2]
      exact ⟨rfl, rfl⟩

end Hosted

/-! One of the two channels of the core, whose request is high a cycle after it waits. -/

section Channel

variable {live : ℕ → Prop} {env : ℕ → CoreIn} {s : Core} {go : ℕ → Bool} {req : Core → Bool}
  {ack : CoreIn → Bool} {waits next : FsmState}
  (hreq : ∀ i c, req (Core.step i c) = true ↔ c.state = waits)
  (hstate : ∀ i c, c.state = waits → (Core.step i c).state = if ack i then next else waits)
  (hgo : ∀ t, ∃ u, t ≤ u ∧ go u = true)
  (hack : ∀ t, ack (env t) = (go t && req (run Core.step env s t)
    && (run Core.step env s t).state == waits))

include hreq hstate hgo hack

/-- A request stays up until the host gets to it. -/
theorem acked_of_waits {t : ℕ} (hp : (req (run Core.step env s t)
    && (run Core.step env s t).state == waits) = true) : ∃ u, t ≤ u ∧ ack (env u) = true := by
  obtain ⟨u, hu, hgo⟩ := hgo t
  -- on the cycles that are left until then
  obtain ⟨d, rfl⟩ := Nat.exists_eq_add_of_le hu
  clear hu
  induction d generalizing t with
  | zero =>
      have hgo : go t = true := hgo
      exact ⟨t, le_rfl, by rw [hack, Bool.and_assoc, hp, hgo, Bool.and_self]⟩
  | succ d ih =>
      by_cases ha : ack (env t) = true
      · exact ⟨t, le_rfl, ha⟩
      · have hw : (run Core.step env s t).state = waits :=
          beq_iff_eq.1 (Bool.and_eq_true_iff.1 hp).2
        have hup : req (run Core.step env s (t + 1)) = true := (hreq _ _).2 hw
        have hstay : (run Core.step env s (t + 1)).state = waits :=
          (hstate _ _ hw).trans (if_neg ha)
        obtain ⟨v, hv, hav⟩ := ih (t := t + 1) (by rw [hup, hstay, beq_self_eq_true]; rfl)
          (by rw [Nat.add_right_comm]; exact hgo)
        exact ⟨v, by omega, hav⟩

theorem served_of_waits (hne : next ≠ waits) (hs : req s = false)
    {port : ℕ → BitVec 128} {block : ℕ → BitVec 128}
    (hport : ∀ t, port t = block (acksBefore (fun t => ack (env t)) (t + 1))) :
    Served live (fun t => req (run Core.step env s t)) (fun t => ack (env t)) port block := by
  have hnext (t : ℕ) : req (run Core.step env s (t + 1)) = true ↔
      (run Core.step env s t).state = waits := hreq _ _
  have hmove (t : ℕ) (h : (run Core.step env s t).state = waits) :
      (run Core.step env s (t + 1)).state = if ack (env t) then next else waits := hstate _ _ h
  refine Served.of_pending (fun t => req (run Core.step env s t)
    && (run Core.step env s t).state == waits) hs ?_ (fun t hr => ?_) (fun t hr => ?_)
    (fun t ha => ?_) (fun t hp => acked_of_waits hreq hstate hgo hack hp) hport
  · rw [run_zero, hs, Bool.false_and]
  · -- the request goes up because the core waits
    have hw := (hnext t).1 hr.1
    have hlow : req (run Core.step env s t) = false := hr.2 t rfl
    have hquiet : ack (env t) = false := by rw [hack, hlow, Bool.and_false, Bool.false_and]
    have hstay : (run Core.step env s (t + 1)).state = waits := by
      rw [hmove t hw, hquiet]
      rfl
    have hhigh : req (run Core.step env s (t + 1)) = true := hr.1
    exact ⟨by rw [hlow, Bool.false_and], by rw [hhigh, hstay, beq_self_eq_true]; rfl⟩
  · by_cases hw : (run Core.step env s t).state = waits
    · have hhigh : req (run Core.step env s t) = true := by
        by_contra hlow
        have hlow' : (fun t => req (run Core.step env s t)) t = false := by simpa using hlow
        exact hr ((rise_iff_of_low hlow').2 ((hnext t).2 hw))
      have hhigh' : req (run Core.step env s (t + 1)) = true := (hnext t).2 hw
      rw [hhigh, hw, beq_self_eq_true]
      show (req (run Core.step env s (t + 1)) && _) = _
      rw [hhigh', hmove t hw]
      cases ack (env t) with
      | true => exact beq_eq_false_iff_ne.2 hne
      | false => exact beq_self_eq_true waits
    · have hlow : req (run Core.step env s (t + 1)) = false :=
        Bool.eq_false_iff.2 fun h => hw ((hnext t).1 h)
      rw [hlow, beq_eq_false_iff_ne.2 hw, Bool.and_false]
      rfl
  · rw [hack, Bool.and_assoc, Bool.and_eq_true] at ha
    exact ha.2

end Channel

/-- For all strings there is a host: one that gets to every request in the end. -/
theorem Hosted.host (op : CoreIn) (adBlock msgBlock : ℕ → BitVec 128) {cycles : ℕ → HostCycle}
    (hstart : (cycles 0).start = true) (hgo : ∀ t, ∃ u, t ≤ u ∧ (cycles u).go = true) {s : Core}
    (hs : s.adReq = false ∧ s.msgReq = false) :
    Host (env op adBlock msgBlock cycles s) s adBlock msgBlock := by
  refine ⟨hstart, fun _ _ => rfl, fun _ _ => rfl, fun _ _ => rfl, fun _ _ => rfl, ?_, ?_⟩
  · refine served_of_waits Core.adReq_step (fun i _ => Core.reqAd_step i) hgo (fun t => ?_)
      (fun h => by cases h) hs.1 fun t => ?_
    · rw [run_core]
      rfl
    · rw [(acksBefore_eq (t + 1)).1]
      rfl
  · refine served_of_waits Core.msgReq_step (fun i _ => Core.reqMsg_step i) hgo (fun t => ?_)
      (fun h => by cases h) hs.2 fun t => ?_
    · rw [run_core]
      rfl
    · rw [(acksBefore_eq (t + 1)).2]
      rfl

/-! ## Strings of one block -/

/-- No request is near: both strings end with their first block. -/
structure Core.OneBlock (s : Core) : Prop where
  adReq : s.adReq = false
  msgReq : s.msgReq = false
  state : s.state ≠ .reqAd ∧ s.state ≠ .reqMsg
  remaining : s.state ≠ .idle → lastNow s.remainingAd = true ∧ lastNow s.remainingMsg = true
  isLastAd : s.state = .waitAd → s.isLastAd = true
  isLastMsg : s.state = .waitMsg → s.isLastMsg = true

theorem Core.OneBlock.step {s : Core} (h : s.OneBlock) {i : CoreIn}
    (had : lastNow i.adTotalLen = true) (hmsg : lastNow i.msgTotalLen = true) :
    (Core.step i s).OneBlock := by
  obtain ⟨-, -, hstate, hrem, hlastAd, hlastMsg⟩ := h
  unfold Core.step Core.fsmStep
  cases hs : s.state <;> rw [hs] at hstate hrem hlastAd hlastMsg
  case reqAd => exact absurd rfl hstate.1
  case reqMsg => exact absurd rfl hstate.2
  all_goals
    dsimp only
    repeat' split
  all_goals
    constructor <;> simp_all [Core.clear]

/-- With at most one block in each stream, ports that stay as they are serve both. -/
theorem Host.constant (op : CoreIn) (start : ℕ → Bool) (hstart : start 0 = true)
    (had : lastNow op.adTotalLen = true) (hmsg : lastNow op.msgTotalLen = true)
    (hadAck : op.adAck = false) (hmsgAck : op.msgAck = false) {s : Core} (hs : s.OneBlock) :
    Host (fun t => { op with start := start t }) s (fun _ => op.adData) (fun _ => op.msgData) := by
  have hrun : ∀ t, (run Core.step (fun t => { op with start := start t }) s t).OneBlock := by
    intro t
    induction t with
    | zero => exact hs
    | succ t ih => exact ih.step had hmsg
  have hnone : ∀ (req : ℕ → Bool), (∀ t, req t = false) → ∀ t, rises req t = 0 := by
    intro req hreq t
    rw [rises, count_quiet (m := 0) (Nat.zero_le _) fun u _ _ => not_rise_of_low (hreq u)]
    rfl
  refine ⟨hstart, fun _ _ => rfl, fun _ _ => rfl, fun _ _ => rfl, fun _ _ => rfl,
    ⟨fun t _ hack => ?_, fun t _ hlt => ?_, fun _ _ _ => rfl⟩,
    ⟨fun t _ hack => ?_, fun t _ hlt => ?_, fun _ _ _ => rfl⟩⟩
  · exact absurd hack (by simp [hadAck])
  · rw [hnone (adReqs _ s) fun u => (hrun u).adReq] at hlt
    exact absurd hlt (Nat.not_lt_zero _)
  · exact absurd hack (by simp [hmsgAck])
  · rw [hnone (msgReqs _ s) fun u => (hrun u).msgReq] at hlt
    exact absurd hlt (Nat.not_lt_zero _)

theorem Core.OneBlock.reset (s : Core) : s.reset.OneBlock :=
  ⟨rfl, rfl, ⟨nofun, nofun⟩, fun h => absurd rfl h, nofun, nofun⟩

/-! ## An operation of the firmware -/

/-- The encryption of test B of the firmware: 17 bytes in each stream. -/
def firmwareOp : CoreIn where
  start := true
  decryptMode := false
  key := 0x000102030405060708090A0B0C0D0E0F
  nonce := 0x000102030405060708090A0B0C0D0E0F
  adData := 0
  adTotalLen := 17
  adAck := false
  msgData := 0
  msgTotalLen := 17
  msgAck := false
  tagIn := 0

/-- The blocks of both streams. -/
def firmwareBlock (j : ℕ) : BitVec 128 :=
  if j = 0 then 0x000102030405060708090A0B0C0D0E0F else 0x10000000000000000000000000000000

/-- A host that gets to the core in every third cycle. -/
def firmwareCycle (t : ℕ) : HostCycle := ⟨t == 0, t % 3 == 0⟩

theorem firmwareCycle_go (t : ℕ) : ∃ u, t ≤ u ∧ (firmwareCycle u).go = true :=
  ⟨3 * t, by omega, by simp [firmwareCycle]⟩

/-- The inputs of the core during that encryption. -/
def firmwareEnv : ℕ → CoreIn :=
  Hosted.env firmwareOp firmwareBlock firmwareBlock firmwareCycle (default : Core).reset

theorem firmwareEnv_host : Host firmwareEnv (default : Core).reset firmwareBlock firmwareBlock :=
  Hosted.host firmwareOp firmwareBlock firmwareBlock rfl firmwareCycle_go ⟨rfl, rfl⟩

theorem core_computes_gift_cofb_firmware :
    ∃ n, FirstDone Core.step firmwareEnv (default : Core).reset Core.done n ∧
      trace (adTaken firmwareEnv (default : Core).reset) n = (List.range 2).map firmwareBlock ∧
      trace (msgTaken firmwareEnv (default : Core).reset) n = (List.range 2).map firmwareBlock ∧
      rises (adReqs firmwareEnv (default : Core).reset) n = 1 ∧
      rises (msgReqs firmwareEnv (default : Core).reset) n = 1 ∧
      trace (shown firmwareEnv (default : Core).reset) n =
        (Host.reference firmwareEnv firmwareBlock firmwareBlock).1.map Cofb.toBlock ∧
      (run Core.step firmwareEnv (default : Core).reset n).tagOut =
        (Host.reference firmwareEnv firmwareBlock firmwareBlock).2 :=
  core_computes_gift_cofb (.init ⟨default, rfl⟩) rfl firmwareEnv_host

end PicoSoc.GiftCofb
