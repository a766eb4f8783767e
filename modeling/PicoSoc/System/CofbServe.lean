import PicoSoc.System.Firmware
import PicoSoc.GiftCofb.Requests

set_option autoImplicit false

/-! # The GIFT-COFB driver of the firmware

The core asks for every block but the first ones. The driver answers each request, and reads the
output block before it hands over the next message block. -/

namespace PicoSoc.Firmware

open Bytes Clocked Mmio PicoSoc.System PicoSoc.GiftCofb

/-! ## Driver -/

/-- `GC(off)` -/
def gc (off : Word) : Word := 0x50000000 + off

/-- The CTRL register of the accelerator. -/
def gcCtrl : Word := gc 0x50

/-- The STATUS register of the accelerator. -/
def gcStatus : Word := gc 0x54

/-- The ACK register of the accelerator. -/
def gcAck : Word := gc 0x78

/-- `gc_set_key_nonce()` -/
def gcSetKeyNonce : Prog Unit := do
  store4 (gc 0x00) (gc 0x04) (gc 0x08) (gc 0x0C) ⟨0x0c0d0e0f, 0x08090a0b, 0x04050607, 0x00010203⟩
  store4 (gc 0x10) (gc 0x14) (gc 0x18) (gc 0x1C) ⟨0x0c0d0e0f, 0x08090a0b, 0x04050607, 0x00010203⟩

/-- `gc_set_ad(w3, w2, w1, w0)` -/
def gcSetAd (w3 w2 w1 w0 : Word) : Prog Unit :=
  store4 (gc 0x20) (gc 0x24) (gc 0x28) (gc 0x2C) ⟨w0, w1, w2, w3⟩

/-- `gc_set_msg(w3, w2, w1, w0)` -/
def gcSetMsg (w3 w2 w1 w0 : Word) : Prog Unit :=
  store4 (gc 0x30) (gc 0x34) (gc 0x38) (gc 0x3C) ⟨w0, w1, w2, w3⟩

/-- `gc_set_tag(w3, w2, w1, w0)` -/
def gcSetTag (w3 w2 w1 w0 : Word) : Prog Unit :=
  store4 (gc 0x40) (gc 0x44) (gc 0x48) (gc 0x4C) ⟨w0, w1, w2, w3⟩

/-- The reads of a data block and of the tag. -/
def gcData : Prog Words4 := load4 (gc 0x58) (gc 0x5C) (gc 0x60) (gc 0x64)

/-- The four words of the tag. -/
def gcTag : Prog Words4 := load4 (gc 0x68) (gc 0x6C) (gc 0x70) (gc 0x74)

/-- `while (1) { uint32_t st = GC_STATUS; … }` up to the branch of `done`, with the data block read
    last. A round that finds no flag changes nothing; `n` bounds the requests that are served. -/
def gcServe (ad msg : Words4) : ℕ → Words4 → Prog (Option Words4)
  | 0, _ => pure none
  | n + 1, out =>
    .poll gcStatus (fun st => st &&& 0x0E != 0) fun st =>
      if st &&& 0x08 != 0 then do
        gcSetAd ad.w3 ad.w2 ad.w1 ad.w0
        store gcAck 0x02
        gcServe ad msg n out
      else if st &&& 0x04 != 0 then do
        let out ← gcData
        gcSetMsg msg.w3 msg.w2 msg.w1 msg.w0
        store gcAck 0x01
        gcServe ad msg n out
      else pure (some out)

/-! ## The accelerator -/

theorem cofbSlot_lawful : cofbSlot.Lawful where
  regs_step := fun boot i s => (accelerators_step boot i s).2.2
  core_step := fun _ _ _ => rfl
  sticky_step := fun _ _ _ => rfl
  above := by decide
  start_clear := fun _ => rfl
  clear_clear := fun _ => rfl
  rest := by
    intro r c hstart ⟨hidle, hreset⟩
    let s : Soc := { sampleSoc with
      bus := { Bus.initial with regs := { Regs.initial with gc := r } }
      gc := c }
    obtain ⟨hidle', hout⟩ := giftCofb_machine.rest s hidle hstart
    exact ⟨⟨hidle', hreset.step trivial⟩, hout, giftCofb_machine.quiet s hidle⟩

theorem gc_status (boot : Ram bootSize) (i : SocIn) (s : Soc) (h : i.reads gcStatus) :
    (Soc.step boot i s).bus.memRdata = some (0#28 ++ BitVec.ofBool s.gc.adReq ++
      BitVec.ofBool s.gc.msgReq ++ BitVec.ofBool s.gcSticky.done ++
      BitVec.ofBool s.gcSticky.valid) :=
  memRdata_step boot i s h rfl

section

variable {r : CofbRegs} {o : BitVec 128 × BitVec 128} {k : Sticky}

theorem gc_shows {addr : Word} (f : BitVec 128 × BitVec 128 → Word)
    (haddr : ∀ p r, (fastReads p r).lookup addr = some (f (p.gcDataOut, p.gcTagOut))) :
    Shows cofbSlot r o k addr (f o) :=
  shows_of_reads (p := fun q => (q.gcDataOut, q.gcTagOut)) (fun _ _ => rfl) f haddr

/-- At rest no request shows. -/
theorem gc_showsStatus : Shows cofbSlot r o k gcStatus
    (0#30 ++ BitVec.ofBool k.done ++ BitVec.ofBool k.valid) := by
  intro boot i s hrest h
  have hidle : s.gc.FromReset ∧ s.gc.state = .idle := hrest.idle.symm
  obtain ⟨hadReq, hmsgReq, -⟩ := hidle.1.silent hidle.2
  have hsticky : s.gcSticky = k := hrest.sticky
  rw [gc_status boot i s h, hadReq, hmsgReq, hsticky]
  rfl

end

/-! ## An operation under way -/

/-- The core is in state `c` of an operation, the registers hold `r`. -/
structure Serving (F : Soc → Prop) (r : CofbRegs) (c : Core) (s : Soc) : Prop where
  regs : cofbSlot.regs s = r
  core : cofbSlot.core s = c
  reset : c.FromReset
  sticky : cofbSlot.sticky s = ⟨false, false⟩
  frame : F s

section

variable {boot : Ram bootSize} {F : Soc → Prop} {r : CofbRegs} {c : Core} {s : Soc}
  {i : HostIn} {acc : Option Mmio.Access}

/-- A cycle of the operation; `r'` are the registers after it. -/
theorem Serving.next (h : Serving F r c s) (hstart : r.start = false) (hdone : c.done = false)
    {r' : CofbRegs} (hregs : cofbSlot.regs ((socTarget boot).step i acc s) = r')
    (hF : F ((socTarget boot).step i acc s)) :
    Serving F r' (c.step (gcCoreIn r)) ((socTarget boot).step i acc s) := by
  refine ⟨hregs, ?_, h.reset.step trivial, ?_, hF⟩
  · refine (cofbSlot_lawful.core_step boot (socIn i acc) s).trans ?_
    rw [h.regs, h.core]
    rfl
  · have hlow : cofbSlot.done c = false := hdone
    have hstart : cofbSlot.start r = false := hstart
    refine (cofbSlot_lawful.sticky_step boot (socIn i acc) s).trans ?_
    rw [h.regs, h.core, hstart, hlow, h.sticky]
    rfl

/-- A cycle in which the driver leaves the registers alone. -/
theorem Serving.step (h : Serving F r c s) (hstart : r.start = false) (hdone : c.done = false)
    (hacc : cofbSlot.Spares acc) (hF : F ((socTarget boot).step i acc s)) :
    Serving F (cofbSlot.clear r) (c.step (gcCoreIn r)) ((socTarget boot).step i acc s) :=
  h.next hstart hdone (by rw [cofbSlot_lawful.regs_spared hacc, h.regs]) hF

theorem Serving.write (h : Serving F r c s) (hstart : r.start = false) (hdone : c.done = false)
    {addr data : Word} {f : Word → CofbRegs → CofbRegs}
    (hf : cofbSlot.writes.lookup addr = some f)
    (hF : F ((socTarget boot).step i (some (.write addr data)) s)) :
    Serving F (f data (cofbSlot.clear r)) (c.step (gcCoreIn r))
      ((socTarget boot).step i (some (.write addr data)) s) := by
  refine h.next hstart hdone ?_ hF
  refine (cofbSlot_lawful.regs_step boot (socIn i (some (.write addr data))) s).trans ?_
  rw [if_pos ⟨rfl, cofbSlot_lawful.not_inApp hf⟩, h.regs]
  exact onLabel_of_some hf _ _

/-- STATUS while the operation runs. -/
theorem Serving.status {i : SocIn} (h : Serving F r c s) (hread : i.reads gcStatus) :
    (Soc.step boot i s).bus.memRdata =
      some (0#28 ++ BitVec.ofBool c.adReq ++ BitVec.ofBool c.msgReq ++ 0#1 ++ 0#1) := by
  have hcore : s.gc = c := h.core
  have hsticky : s.gcSticky = ⟨false, false⟩ := h.sticky
  rw [gc_status boot i s hread, hcore, hsticky]
  rfl

variable {β : Type} {Q : β → Soc → Prop} (hF : Frame boot (Labels cofbSlot) F)

include hF

/-- The loop polls until the core has come to `P`, which shows as `w` in STATUS. -/
theorem ends_gcPoll {P : Core → Prop} {A : Core → Soc → Prop} {w : Word}
    {k : Word → Prog β} {n : ℕ} (hr : cofbSlot.clear r = r)
    (hlead : ComesTo (gcCoreIn r) P n c)
    (harrive : ∀ c' s i acc, P c' → Serving F r c' s → cofbSlot.Spares acc →
      F ((socTarget boot).step i acc s) → A c' ((socTarget boot).step i acc s))
    (hstay : ∀ c' s i acc, P c' → A c' s → cofbSlot.Spares acc →
      F ((socTarget boot).step i acc s) → A c' ((socTarget boot).step i acc s))
    (hframe : ∀ c' s, A c' s → F s)
    (hstatus : ∀ c' i s, P c' → A c' s → SocIn.reads i gcStatus →
      (Soc.step boot i s).bus.memRdata = some w)
    (hw : (w &&& 0x0E != 0) = true) (hk : ∀ c', P c' → Ends (socTarget boot) (A c') (k w) Q) :
    Ends (socTarget boot) (Serving F r c) (.poll gcStatus (fun st => st &&& 0x0E != 0) k) Q := by
  have hstart : r.start = false := by rw [← hr]; rfl
  -- the core is `m` cycles away from `P`, or has come to it and STATUS shows it
  let I : ℕ → Soc → Prop := fun n s =>
    (∃ m c, n = m + 1 ∧ ComesTo (gcCoreIn r) P m c ∧ Serving F r c s)
      ∨ n = 0 ∧ ∃ c, P c ∧ A c s
  have hIF {n : ℕ} {s : Soc} (h : I n s) : F s := by
    rcases h with ⟨_, _, -, -, h⟩ | ⟨-, c, -, h⟩
    · exact h.frame
    · exact hframe c s h
  have hnext {n : ℕ} {s : Soc} (h : I n s) (i : HostIn) (acc : Option Mmio.Access)
      (hacc : cofbSlot.Spares acc) (hF' : F ((socTarget boot).step i acc s)) :
      I (n - 1) ((socTarget boot).step i acc s) := by
    rcases h with ⟨m, c, rfl, hlead, h⟩ | ⟨rfl, c, hP, h⟩
    · cases hlead with
      | here _ hP => exact .inr ⟨rfl, c, hP, harrive c s i acc hP h hacc hF'⟩
      | step _ hdone hlead =>
          have hstep := h.step hstart hdone hacc hF'
          rw [hr] at hstep
          exact .inl ⟨_, _, rfl, hlead, hstep⟩
    · exact .inr ⟨rfl, c, hP, hstay c s i acc hP h hacc hF'⟩
  have hidle {n : ℕ} {s : Soc} (h : I n s) (i : HostIn) :
      I (n - 1) ((socTarget boot).step i none s) :=
    hnext h i none cofbSlot.spares_none (hF.idle i s (hIF h))
  refine Ends.mono (P := I (n + 1)) ?_ (fun s hs => .inl ⟨n, c, rfl, hlead, hs⟩) fun _ _ hs => hs
  refine Ends.poll (I := I) (R := fun d s => d = w ∧ ∃ c, P c ∧ A c s)
    (fun n i s h => ⟨n - 1, Nat.sub_le n 1, hidle h i⟩) (fun n i j l s h s' d hs' hd => ?_)
    (fun d => ?_) (n + 1)
  · have hread := hnext h i (some (.read gcStatus)) (cofbSlot.spares_read gcStatus)
      (hF.read i s gcStatus (hIF h))
    rw [← hs'] at hread
    have hend := hidle (hidle hread j) l
    rcases h with ⟨m, c, rfl, hlead, h⟩ | ⟨rfl, c, hP, h⟩
    · have hword : (s.step boot (socIn i (some (.read gcStatus)))).bus.memRdata = some
          (0#28 ++ BitVec.ofBool c.adReq ++ BitVec.ofBool c.msgReq ++ 0#1 ++ 0#1) :=
        h.status ⟨rfl, rfl⟩
      obtain ⟨hadReq, hmsgReq⟩ := hlead.low
      have hd : d = 0 := by
        rw [hd, hs', rdata_step hword, hadReq, hmsgReq]
        rfl
      refine .inr ⟨by rw [hd]; rfl, _, ?_, hend⟩
      omega
    · have hword := hstatus c (socIn i (some (.read gcStatus))) s hP h ⟨rfl, rfl⟩
      have hd : d = w := by
        rw [hd, hs', rdata_step hword]
      rcases hend with ⟨_, _, hpos, -⟩ | ⟨-, hend⟩
      · omega
      · exact .inl ⟨by rw [hd]; exact hw, hd, hend⟩
  · intro env hfair s ⟨hd, c, hP, h⟩
    rw [hd]
    exact hk c hP env hfair s h

end

/-! ## A request -/

/-- A core that waits for an answer. -/
structure Awaits (c : Core) : Prop where
  fix : ∀ r, cofbSlot.clear r = r → c.step (gcCoreIn r) = c
  done : c.done = false

/-- The core is on its way to `P`. -/
def Serves (F : Soc → Prop) (r : CofbRegs) (P : Core → Prop) (s : Soc) : Prop :=
  ∃ c n, ComesTo (gcCoreIn r) P n c ∧ Serving F r c s

theorem gc_low {r : CofbRegs} (hr : cofbSlot.clear r = r) :
    r.start = false ∧ r.adAck = false ∧ r.msgAck = false := by
  rw [← hr]
  exact ⟨rfl, rfl, rfl⟩

section

variable {y : BitVec 128} {l : BitVec 64} {ra rm : BitVec 8} {d : BitVec 128} {c : Core}

theorem awaits_asksAd (hs : c.After .reqAd y l ra rm d) : Awaits c.asksAd :=
  ⟨fun _ hr => (hs.step_ad (gc_low hr).2.1).2, hs.quiet.done⟩

theorem awaits_asksMsg (hs : c.After .reqMsg y l ra rm d) : Awaits c.asksMsg :=
  ⟨fun _ hr => (hs.step_msg (gc_low hr).2.2).2, hs.quiet.done⟩

end

/-- What the loop has read last, when the output blocks are `outs`. -/
def lastServed (out : Words4) (outs : List (List Byte)) : Words4 :=
  ((outs.dropLast.map Cofb.toBlock).map Words4.unpack).getLastD out

theorem lastServed_cons (out : Words4) (D : List Byte) {outs : List (List Byte)} (h : outs ≠ []) :
    lastServed out (D :: outs) = lastServed (.unpack (Cofb.toBlock D)) outs := by
  rw [lastServed, List.dropLast_cons_of_ne_nil h]
  exact List.getLastD_cons

/-- The output register after the output blocks. -/
def lastBlock (d : BitVec 128) (outs : List (List Byte)) : BitVec 128 :=
  (outs.map Cofb.toBlock).getLastD d

theorem lastBlock_cons (d : BitVec 128) (D : List Byte) {outs : List (List Byte)} (h : outs ≠ []) :
    lastBlock d (D :: outs) = lastBlock d outs := by
  obtain ⟨D', outs, rfl⟩ := List.exists_cons_of_ne_nil h
  rw [lastBlock, lastBlock, List.map_cons, List.map_cons, List.getLastD_cons, List.getLastD_cons,
    List.getLastD_cons]

section

variable {boot : Ram bootSize} {F : Soc → Prop} {r : CofbRegs} {c : Core} {s : Soc}
  {i : HostIn} {acc : Option Mmio.Access} {β : Type} {Q : β → Soc → Prop}
  (hF : Frame boot (Labels cofbSlot) F)

theorem Awaits.step (hc : Awaits c) (hr : cofbSlot.clear r = r) (h : Serving F r c s)
    (hacc : cofbSlot.Spares acc) (hF' : F ((socTarget boot).step i acc s)) :
    Serving F r c ((socTarget boot).step i acc s) := by
  have hstep := h.step (gc_low hr).1 hc.done hacc hF'
  rwa [hr, hc.fix r hr] at hstep

/-- The cycle in which the operation ends. -/
theorem Serving.ended {d y : BitVec 128} {v : Bool} (hr : cofbSlot.clear r = r)
    (hc : c.Ended d y v) (h : Serving F r c s) (hacc : cofbSlot.Spares acc)
    (hF' : F ((socTarget boot).step i acc s)) :
    cofbSlot.At F r (d, y) ⟨true, v⟩ ((socTarget boot).step i acc s) := by
  have hstart : cofbSlot.start r = false := (gc_low hr).1
  obtain ⟨hidle, hout, hdone⟩ := cofbSlot_lawful.rest r c hstart ⟨hc.state, h.reset⟩
  have hcore : cofbSlot.core ((socTarget boot).step i acc s) =
      cofbSlot.step (cofbSlot.inputs r) c := by
    rw [← h.regs, ← h.core]
    exact cofbSlot_lawful.core_step boot (socIn i acc) s
  rw [← hcore] at hidle hout hdone
  refine ⟨⟨?_, hr, hidle, hdone, hout.trans (Prod.ext hc.dataOut hc.tagOut), ?_⟩, hF'⟩
  · rw [cofbSlot_lawful.regs_spared hacc, h.regs, hr]
  · have hhigh : cofbSlot.done c = true := hc.done
    have hvalid : cofbSlot.valid c = v := hc.valid
    refine (cofbSlot_lawful.sticky_step boot (socIn i acc) s).trans ?_
    rw [h.regs, h.core, hstart, hhigh, hvalid, h.sticky]
    rfl

theorem Serves.trans {P P' : Core → Prop} (h : Serves F r P s)
    (hP : ∀ c, P c → ∃ m, ComesTo (gcCoreIn r) P' m c) : Serves F r P' s := by
  obtain ⟨c, n, hlead, hs⟩ := h
  obtain ⟨m, hlead⟩ := hlead.trans hP
  exact ⟨c, m, hlead, hs⟩

include hF

theorem Awaits.stable (hc : Awaits c) (hr : cofbSlot.clear r = r) :
    Stable (socTarget boot) (Serving F r c) :=
  fun i s h => hc.step hr h cofbSlot.spares_none (hF.idle i s h.frame)

theorem Awaits.ends_store (hc : Awaits c) (hr : cofbSlot.clear r = r) {addr data : Word}
    {f : Word → CofbRegs → CofbRegs} (hf : cofbSlot.writes.lookup addr = some f)
    (hclear : cofbSlot.clear (f data r) = f data r) {g : Unit → Prog β}
    (hg : Ends (socTarget boot) (Serving F (f data r) c) (g ()) Q) :
    Ends (socTarget boot) (Serving F r c) (store addr data >>= g) Q := by
  refine Ends.write (hc.stable hF hr) (fun i j l s h => ?_) hg
  have hwrite := h.write (gc_low hr).1 hc.done hf
    (hF.write i s addr data (.inr ⟨_, hf⟩) h.frame)
  rw [hr, hc.fix r hr] at hwrite
  exact hc.stable hF hclear l _ (hc.stable hF hclear j _ hwrite)

/-- The four words of a block. -/
theorem Awaits.ends_store4 (hc : Awaits c) (hr : cofbSlot.clear r = r)
    {p : ℕ → Word → CofbRegs → CofbRegs} {a0 a1 a2 a3 : Word}
    (h0 : cofbSlot.writes.lookup a0 = some (p 0)) (h1 : cofbSlot.writes.lookup a1 = some (p 1))
    (h2 : cofbSlot.writes.lookup a2 = some (p 2)) (h3 : cofbSlot.writes.lookup a3 = some (p 3))
    (hclear : ∀ j d r, cofbSlot.clear (p j d r) = p j d (cofbSlot.clear r)) (w : Words4)
    {g : Unit → Prog β}
    (hg : Ends (socTarget boot)
      (Serving F (p 3 w.w3 (p 2 w.w2 (p 1 w.w1 (p 0 w.w0 r)))) c) (g ()) Q) :
    Ends (socTarget boot) (Serving F r c) (store4 a0 a1 a2 a3 w >>= g) Q := by
  have hput {j : ℕ} {d : Word} {r : CofbRegs} (hr : cofbSlot.clear r = r) :
      cofbSlot.clear (p j d r) = p j d r := by rw [hclear, hr]
  show Ends _ _ (store a0 w.w0 >>= fun _ => store a1 w.w1 >>= fun _ => store a2 w.w2 >>= fun _ =>
    store a3 w.w3 >>= g) _
  refine hc.ends_store hF hr h0 (hput hr) ?_
  refine hc.ends_store hF (hput hr) h1 (hput (hput hr)) ?_
  refine hc.ends_store hF (hput (hput hr)) h2 (hput (hput (hput hr))) ?_
  exact hc.ends_store hF (hput (hput (hput hr))) h3 (hput (hput (hput (hput hr)))) hg

theorem Awaits.ends_load (hc : Awaits c) (hr : cofbSlot.clear r = r) {addr w : Word}
    (hread : ∀ i s, s.gc = c → SocIn.reads i addr →
      (Soc.step boot i s).bus.memRdata = some w) {g : Word → Prog β}
    (hg : Ends (socTarget boot) (Serving F r c) (g w) Q) :
    Ends (socTarget boot) (Serving F r c) (load addr >>= g) Q := by
  refine Ends.read (R := fun d s => d = w ∧ Serving F r c s) (hc.stable hF hr)
    (fun i j l s h => ⟨?_, ?_⟩) fun d => ?_
  · exact rdata_step (hread (socIn i (some (.read addr))) s h.core ⟨rfl, rfl⟩)
  · refine hc.stable hF hr l _ (hc.stable hF hr j _ ?_)
    exact hc.step hr h (cofbSlot.spares_read addr) (hF.read i s addr h.frame)
  · intro env hfair s ⟨hd, hs⟩
    rw [hd]
    exact hg env hfair s hs

/-- The output block, while the core waits. -/
theorem Awaits.ends_gcData (hc : Awaits c) (hr : cofbSlot.clear r = r) {g : Words4 → Prog β}
    (hg : Ends (socTarget boot) (Serving F r c) (g (.unpack c.dataOut)) Q) :
    Ends (socTarget boot) (Serving F r c) (gcData >>= g) Q := by
  have hread {addr : Word} (j : ℕ) (haddr : ∀ p r, (fastReads p r).lookup addr =
      some (p.gcDataOut.extractLsb' j 32)) (i : SocIn) (s : Soc) (h : s.gc = c)
      (hi : i.reads addr) :
      (Soc.step boot i s).bus.memRdata = some (c.dataOut.extractLsb' j 32) := by
    rw [memRdata_step boot i s hi (haddr _ _), ← h]
    rfl
  refine hc.ends_load hF hr (hread 0 fun _ _ => rfl) ?_
  refine hc.ends_load hF hr (hread 32 fun _ _ => rfl) ?_
  refine hc.ends_load hF hr (hread 64 fun _ _ => rfl) ?_
  exact hc.ends_load hF hr (hread 96 fun _ _ => rfl) hg

/-- The answer to a request, with which the core goes on. -/
theorem Awaits.ends_gcAck (hc : Awaits c) (hr : cofbSlot.clear r = r) {data : Word}
    {P : Core → Prop} {n : ℕ}
    (hdone : (c.step (gcCoreIn (CofbRegs.ack data r))).done = false)
    (hlead : ComesTo (gcCoreIn r) P n
      ((c.step (gcCoreIn (CofbRegs.ack data r))).step (gcCoreIn r))) {g : Unit → Prog β}
    (hg : Ends (socTarget boot) (Serves F r P) (g ()) Q) :
    Ends (socTarget boot) (Serving F r c) (store gcAck data >>= g) Q := by
  refine Ends.write (hc.stable hF hr) (fun i j l s h => ?_) hg
  have hstart := (gc_low hr).1
  -- the core still waits at the write, sees the pulse one cycle later and then goes on
  have hwrite := h.write hstart hc.done (f := CofbRegs.ack) rfl
    (hF.write i s gcAck data (.inr ⟨_, rfl⟩) h.frame)
  rw [hr, hc.fix r hr] at hwrite
  have hpulse := hwrite.step (i := j) hstart hc.done cofbSlot.spares_none (hF.idle j _ hwrite.frame)
  rw [show cofbSlot.clear (CofbRegs.ack data r) = r from hr] at hpulse
  have hnext := hpulse.step (i := l) hstart hdone cofbSlot.spares_none (hF.idle l _ hpulse.frame)
  rw [hr] at hnext
  exact ⟨_, n, hlead, hnext⟩

/-- The loop comes to a request. -/
theorem ends_gcRequest {P : Core → Prop} {a : Core → Core} {w : Word}
    {k : Word → Prog β} (hr : cofbSlot.clear r = r)
    (hasks : ∀ c, P c → c.step (gcCoreIn r) = a c ∧ Awaits (a c) ∧
      0#28 ++ BitVec.ofBool (a c).adReq ++ BitVec.ofBool (a c).msgReq ++ 0#1 ++ 0#1 = w)
    (hw : (w &&& 0x0E != 0) = true)
    (hk : ∀ c, P c → Ends (socTarget boot) (Serving F r (a c)) (k w) Q)
    (hdone : ∀ c, P c → c.done = false) :
    Ends (socTarget boot) (Serves F r P) (.poll gcStatus (fun st => st &&& 0x0E != 0) k) Q := by
  refine Ends.exists fun c => Ends.exists fun m => ?_
  intro env hfair s ⟨hlead, hs⟩
  refine ends_gcPoll hF (A := fun c => Serving F r (a c)) hr hlead
    (fun c s i acc hc h hacc hF' => ?_)
    (fun c s i acc hc h hacc hF' => (hasks c hc).2.1.step hr h hacc hF')
    (fun _ _ h => h.frame) (fun c i s hc h hi => ?_) hw hk env hfair s hs
  · have hstep := h.step (gc_low hr).1 (hdone c hc) hacc hF'
    rwa [hr, (hasks c hc).1] at hstep
  · rw [h.status hi, (hasks c hc).2.2]

section

variable {C : Cofb.Chain} {ra rm : BitVec 8} {d : BitVec 128} {B : List Byte} {n : ℕ}
  {ad msg out : Words4} {Q : Option Words4 → Soc → Prop}

/-- The loop serves a request for AD. -/
theorem ends_gcServe_ad (hr : cofbSlot.clear r = r)
    (hB : leftBytes 16 (blockBytes ra).toNat ad.pack = B)
    (hg : Ends (socTarget boot) (Serves F { r with ad := ad.pack }
      (Core.After (adExit ra (r.dataLength == 0))
        (Cofb.absorb (Spec.gift128 r.key) (adMask ra (r.dataLength == 0) C.l) B
          C).y (adMask ra (r.dataLength == 0) C.l) (remainingNext ra) rm d))
      (gcServe ad msg n out) Q) :
    Ends (socTarget boot) (Serves F r (Core.After .reqAd C.y C.l ra rm d))
      (gcServe ad msg (n + 1) out) Q := by
  refine ends_gcRequest hF hr (a := Core.asksAd) (w := 0b1000) (fun c hc => ?_) rfl
    (fun c hc => ?_) fun c hc => hc.quiet.done
  · have hlow : c.asksAd.msgReq = false := hc.quiet.msgReq
    exact ⟨(hc.step_ad (gc_low hr).2.1).1, awaits_asksAd hc,
      by rw [show c.asksAd.adReq = true from rfl, hlow]; rfl⟩
  have hheld := awaits_asksAd hc
  refine hheld.ends_store4 hF hr (p := CofbRegs.putAd) rfl rfl rfl rfl (fun _ _ _ => rfl)
    ⟨ad.w0, ad.w1, ad.w2, ad.w3⟩ ?_
  simp only [CofbRegs.putAd, putWord_pack4]
  have hclear : cofbSlot.clear { r with ad := ad.pack } = { r with ad := ad.pack } := by
    rw [← hr]
    rfl
  obtain ⟨hat, hdata, hdone⟩ := hc.ack_ad
    (i := gcCoreIn (CofbRegs.ack 0x02 { r with ad := ad.pack })) rfl
  have hlead := comesTo_absorb (i := gcCoreIn { r with ad := ad.pack }) hat hB
  rw [hdata] at hlead
  exact hheld.ends_gcAck hF hclear hdone hlead hg

/-- The loop serves a request for a message block, and takes the output of the last one. -/
theorem ends_gcServe_msg (hr : cofbSlot.clear r = r)
    (hB : leftBytes 16 (blockBytes rm).toNat msg.pack = B)
    (hg : Ends (socTarget boot) (Serves F { r with dataIn := msg.pack }
      (Core.After (msgExit rm)
        (Cofb.absorb (Spec.gift128 r.key) (msgMask rm C.l)
          (Cofb.plain r.decryptMode C B) C).y (msgMask rm C.l) ra
        (remainingNext rm) (Cofb.toBlock (Cofb.output C B))))
      (gcServe ad msg n (.unpack d)) Q) :
    Ends (socTarget boot) (Serves F r (Core.After .reqMsg C.y C.l ra rm d))
      (gcServe ad msg (n + 1) out) Q := by
  refine ends_gcRequest hF hr (a := Core.asksMsg) (w := 0b0100) (fun c hc => ?_) rfl
    (fun c hc => ?_) fun c hc => hc.quiet.done
  · have hlow : c.asksMsg.adReq = false := hc.quiet.adReq
    exact ⟨(hc.step_msg (gc_low hr).2.2).1, awaits_asksMsg hc,
      by rw [show c.asksMsg.msgReq = true from rfl, hlow]; rfl⟩
  have hheld := awaits_asksMsg hc
  have hdata : c.asksMsg.dataOut = d := hc.dataOut
  refine hheld.ends_gcData hF hr ?_
  rw [hdata]
  refine hheld.ends_store4 hF hr (p := CofbRegs.putDataIn) rfl rfl rfl rfl (fun _ _ _ => rfl)
    ⟨msg.w0, msg.w1, msg.w2, msg.w3⟩ ?_
  simp only [CofbRegs.putDataIn, putWord_pack4]
  have hclear : cofbSlot.clear { r with dataIn := msg.pack } = { r with dataIn := msg.pack } := by
    rw [← hr]
    rfl
  obtain ⟨hat, hdone⟩ := hc.ack_msg
    (i := gcCoreIn (CofbRegs.ack 0x01 { r with dataIn := msg.pack })) rfl
  exact hheld.ends_gcAck hF hclear hdone
    (comesTo_crypt (i := gcCoreIn { r with dataIn := msg.pack }) hat hB) hg

/-- The loop ends with the operation. -/
theorem ends_gcServe_done (hr : cofbSlot.clear r = r) {y : BitVec 128} {l : BitVec 64} :
    Ends (socTarget boot) (Serves F r (Core.After .done y l ra rm d))
      (gcServe ad msg (n + 1) out) fun x s => x = some out ∧ cofbSlot.At F r (d, y)
        ⟨true, if r.decryptMode then y == r.tagIn else true⟩ s := by
  generalize hv : (if r.decryptMode then y == r.tagIn else true) = v
  refine Ends.exists fun c => Ends.exists fun m => ?_
  intro env hfair s ⟨hlead, hs⟩
  obtain ⟨m, hlead⟩ := hlead.trans fun c hc => ⟨1, hc.comesTo_end (gc_low hr).1⟩
  refine ends_gcPoll hF (A := fun _ => cofbSlot.At F r (d, y) ⟨true, v⟩)
    (w := 0#30 ++ BitVec.ofBool true ++ BitVec.ofBool v) hr hlead
    (fun c s i acc hc h hacc hF' => h.ended hr (by rw [← hv]; exact hc) hacc hF')
    (fun c s i acc hc h hacc hF' => ⟨h.1.step cofbSlot_lawful hacc, hF'⟩)
    (fun _ _ h => h.2) (fun c i s hc h hi => ?_) ?_ (fun c hc => ?_) env hfair s hs
  · have hword := gc_showsStatus boot i s h.1 hi
    exact hword
  · cases v <;> decide
  · have htests : (0#30 ++ BitVec.ofBool true ++ BitVec.ofBool v &&& 0x08 != 0) = false
        ∧ (0#30 ++ BitVec.ofBool true ++ BitVec.ofBool v &&& 0x04 != 0) = false := by
      cases v <;> decide
    rw [if_neg (by rw [htests.1]; decide), if_neg (by rw [htests.2]; decide)]
    exact Ends.ret fun s hs => ⟨rfl, hs⟩

/-- The loop serves the AD blocks that come after block `j`. -/
theorem ends_gcServe_adRun {k j : ℕ} {block : ℕ → BitVec 128} {A X : List Byte} {e : Bool}
    (hr : cofbSlot.clear r = r) (hblock : ∀ j, 0 < j → block j = ad.pack)
    (hA : A.length = r.adLength.toNat) (he : (r.dataLength == 0) = e) (hX : e = true ↔ X = [])
    (hk : adBlocks r.adLength = j + k + 1)
    (hra : r.adLength.toNat = 16 * j + ra.toNat)
    (hg : ∀ x ra', Ends (socTarget boot) (Serves F { r with ad := x }
      (Core.After (if e then .done else .procMsg)
        (Cofb.absorbAll (Spec.gift128 r.key) (Cofb.adMask A X) ((List.range' j (k + 1)).map
          (inBytes block r.adLength.toNat)) C).y
        (Cofb.absorbAll (Spec.gift128 r.key) (Cofb.adMask A X) ((List.range' j (k + 1)).map
          (inBytes block r.adLength.toNat)) C).l ra' rm d))
      (gcServe ad msg n out) Q) :
    Ends (socTarget boot) (Serves F r (Core.After (adExit ra e)
      (Cofb.absorb (Spec.gift128 r.key) (adMask ra e C.l)
        (inBytes block r.adLength.toNat j) C).y (adMask ra e C.l)
      (remainingNext ra) rm d)) (gcServe ad msg (n + k) out) Q := by
  have hblocks : max 1 ((r.adLength.toNat + 15) / 16) = j + k + 1 := hk
  -- `k` blocks are still to be asked for; the registers hold the block that went in last
  induction k generalizing j ra C r with
  | zero =>
      have hlast : lastNow ra = true := (lastNow_iff ra).2 (by omega)
      have hfirst : ra = 0 → j = 0 := by
        rintro rfl
        have : (0 : BitVec 8).toNat = 0 := rfl
        omega
      rw [adMask_last (hA.trans hra) hfirst hX hlast, adExit, if_pos hlast]
      exact hg r.ad _
  | succ k ih =>
      have hmore : lastNow ra = false := by
        rw [← Bool.not_eq_true, lastNow_iff]
        omega
      have hexit : adExit ra e = .reqAd := by
        rw [adExit, hmore]
        rfl
      have hra' := length_next hmore hra
      rw [hexit, adMask_more hmore, remainingNext, hmore,
        if_neg Bool.false_ne_true]
      refine ends_gcServe_ad hF (n := n + k) hr (C := Cofb.absorb (Spec.gift128 r.key)
        (Cofb.double C.l) (inBytes block r.adLength.toNat j) C)
        (B := inBytes block r.adLength.toNat (j + 1)) ?_ ?_
      · rw [inBytes, hblock _ (Nat.succ_pos j), toNat_blockBytes,
          show r.adLength.toNat - 16 * (j + 1) = (ra - 16).toNat by omega]
      · rw [he]
        refine ih (r := { r with ad := ad.pack }) ?_ hA he ?_ hra' (fun x ra' => ?_) ?_
        · rw [← hr]
          rfl
        · exact hk.trans (by omega)
        · have hcons : List.range' j (k + 1 + 1) = j :: List.range' (j + 1) (k + 1) := rfl
          rw [hcons] at hg
          exact hg x ra'
        · exact hblocks.trans (by omega)

/-- The loop serves the message blocks that come after block `j`. -/
theorem ends_gcServe_msgRun {k j : ℕ} {block : ℕ → BitVec 128} {X : List Byte}
    (hr : cofbSlot.clear r = r) (hblock : ∀ j, 0 < j → block j = msg.pack)
    (hX : X.length = r.dataLength.toNat) (hk : msgBlocks r.dataLength = j + k + 1)
    (hrm : r.dataLength.toNat = 16 * j + rm.toNat) :
    Ends (socTarget boot) (Serves F r (Core.After (msgExit rm)
      (Cofb.absorb (Spec.gift128 r.key) (msgMask rm C.l)
        (Cofb.plain r.decryptMode C (inBytes block r.dataLength.toNat j)) C).y (msgMask rm C.l) ra
      (remainingNext rm) (Cofb.toBlock (Cofb.output C (inBytes block r.dataLength.toNat j)))))
      (gcServe ad msg (n + 1 + k) out) fun x s =>
        let res := Cofb.cryptAll (Spec.gift128 r.key) r.decryptMode (Cofb.lastMask X)
          ((List.range' j (k + 1)).map (inBytes block r.dataLength.toNat)) C
        x = some (lastServed out res.1) ∧ ∃ r', cofbSlot.At F r'
          (lastBlock d res.1, res.2.y)
          ⟨true, if r.decryptMode then res.2.y == r.tagIn else true⟩ s := by
  have hblocks : (r.dataLength.toNat + 15) / 16 = j + k + 1 := hk
  -- with every answer the block before last becomes the one that was read
  induction k generalizing j rm C r out with
  | zero =>
      have hlast : lastNow rm = true := (lastNow_iff rm).2 (by omega)
      have hne : rm ≠ 0 := by
        rintro rfl
        have : (0 : BitVec 8).toNat = 0 := rfl
        omega
      rw [msgMask_last (hX.trans hrm) hne hlast, msgExit, if_pos hlast]
      exact (ends_gcServe_done hF hr).mono (fun _ hs => hs) fun x s hs => ⟨hs.1, r, hs.2⟩
  | succ k ih =>
      have hmore : lastNow rm = false := by
        rw [← Bool.not_eq_true, lastNow_iff]
        omega
      have hexit : msgExit rm = .reqMsg := by
        rw [msgExit, hmore]
        rfl
      have hrm' := length_next hmore hrm
      rw [hexit, msgMask_more hmore, remainingNext, hmore, if_neg Bool.false_ne_true]
      have hcons : List.range' j (k + 1 + 1) = j :: List.range' (j + 1) (k + 1) := rfl
      have hnil : (List.range' (j + 1) (k + 1)).map (inBytes block r.dataLength.toNat) ≠ [] :=
        List.cons_ne_nil _ _
      refine ends_gcServe_msg hF (n := n + 1 + k) hr (C := Cofb.absorb (Spec.gift128 r.key)
        (Cofb.double C.l) (Cofb.plain r.decryptMode C (inBytes block r.dataLength.toNat j)) C)
        (B := inBytes block r.dataLength.toNat (j + 1)) ?_ ?_
      · rw [inBytes, hblock _ (Nat.succ_pos j), toNat_blockBytes,
          show r.dataLength.toNat - 16 * (j + 1) = (rm - 16).toNat by omega]
      · refine Ends.mono (ih (r := { r with dataIn := msg.pack }) ?_ hX ?_ hrm' ?_)
          (fun _ hs => hs) fun x s hs => ?_
        · rw [← hr]
          rfl
        · exact hk.trans (by omega)
        · exact hblocks.trans (by omega)
        · have houts {E : BitVec 128 → BitVec 128} {C' : Cofb.Chain} : (Cofb.cryptAll E
              r.decryptMode (Cofb.lastMask X) ((List.range' (j + 1) (k + 1)).map
                (inBytes block r.dataLength.toNat)) C').1 ≠ [] := by
            rw [← List.length_pos_iff_ne_nil, Cofb.length_cryptAll, List.length_pos_iff_ne_nil]
            exact hnil
          rw [hcons, List.map_cons, Cofb.cryptAll_cons _ _ _ _ hnil]
          dsimp only
          rw [lastServed_cons out _ houts, lastBlock_cons d _ houts]
          exact hs

end

/-! ## A whole operation -/

/-- The write to CTRL. -/
theorem ends_gcStart {o : BitVec 128 × BitVec 128} {k : Sticky} {data : Word} {r' : CofbRegs}
    (hr' : r' = cofbSlot.clear (CofbRegs.ctrl data r)) {g : Unit → Prog β}
    (hg : Ends (socTarget boot) (Serves F r' (Core.After .procAd (Spec.gift128 r'.key r'.nonce)
      ((Spec.gift128 r'.key r'.nonce).extractLsb' 64 64) r'.adLength r'.dataLength o.1)) (g ()) Q) :
    Ends (socTarget boot) (cofbSlot.At F r o k) (store gcCtrl data >>= g) Q := by
  refine Ends.write (cofbSlot_lawful.stable_at hF) (fun i j l s h => ?_) hg
  have hframe := hF.write i s gcCtrl data (.inr ⟨_, rfl⟩) h.2
  generalize hs' : (socTarget boot).step i (some (.write gcCtrl data)) s = s' at hframe ⊢
  -- the pulse reaches the core in the cycle after the write
  obtain ⟨hregs, ⟨hidle, hreset⟩, -, hout, -⟩ :=
    h.1.written cofbSlot_lawful (f := CofbRegs.ctrl) rfl hs'.symm
  have hlead := comesTo_start (i := gcCoreIn r') hreset hidle
    (j := gcCoreIn (CofbRegs.ctrl data r)) rfl (by rw [hr']; rfl)
  have hdata : (cofbSlot.core s').dataOut = o.1 := congrArg Prod.fst hout
  rw [hdata] at hlead
  have hserve : Serving F r' (Core.step (gcCoreIn (CofbRegs.ctrl data r)) (cofbSlot.core s'))
      ((socTarget boot).step j none s') := by
    refine ⟨?_, ?_, hreset.step trivial, ?_, hF.idle j _ hframe⟩
    · rw [cofbSlot_lawful.regs_spared cofbSlot.spares_none, hregs, hr']
    · refine (cofbSlot_lawful.core_step boot (socIn j none) s').trans ?_
      rw [hregs]
      rfl
    · refine (cofbSlot_lawful.sticky_step boot (socIn j none) s').trans ?_
      rw [hregs]
      rfl
  obtain ⟨hdone, hlead⟩ := hlead.next
  have hclear : cofbSlot.clear r' = r' := by
    rw [hr']
    rfl
  have hnext := hserve.step (i := l) (gc_low hclear).1 hdone cofbSlot.spares_none
    (hF.idle l _ hserve.frame)
  rw [hclear] at hnext
  refine ⟨_, 41, ?_, hnext⟩
  rw [hr'] at hlead ⊢
  exact hlead

/-- The strings of the driver: the block in the registers, and `w` whenever the core asks. -/
def serveBlocks (x : BitVec 128) (w : Words4) (j : ℕ) : BitVec 128 := if j = 0 then x else w.pack

/-- What the core computes of the strings. -/
def gcReference (r : CofbRegs) (ad msg : Words4) : List (List Byte) × BitVec 128 :=
  Spec.aead (leftBytes 16 16 r.key) r.decryptMode (leftBytes 16 16 r.nonce)
    (streamBytes (serveBlocks r.ad ad) r.adLength.toNat)
    (streamBytes (serveBlocks r.dataIn msg) r.dataLength.toNat)

omit hF in
theorem gcReference_eq (r : CofbRegs) (ad msg : Words4) {k : ℕ}
    (hk : adBlocks r.adLength = 0 + k + 1) {A X : List Byte}
    (hA : streamBytes (serveBlocks r.ad ad) r.adLength.toNat = A)
    (hX : streamBytes (serveBlocks r.dataIn msg) r.dataLength.toNat = X) {C : Cofb.Chain}
    (hC : Cofb.absorbAll (Spec.gift128 r.key) (Cofb.adMask A X) ((List.range' 0 (k + 1)).map
      (inBytes (serveBlocks r.ad ad) r.adLength.toNat)) ⟨Spec.gift128 r.key r.nonce,
        (Spec.gift128 r.key r.nonce).extractLsb' 64 64⟩ = C) :
    gcReference r ad msg =
      ((Cofb.cryptAll (Spec.gift128 r.key) r.decryptMode (Cofb.lastMask X) (Cofb.blocks X) C).1,
        (Cofb.cryptAll (Spec.gift128 r.key) r.decryptMode (Cofb.lastMask X)
          (Cofb.blocks X) C).2.y) := by
  have hk' : max 1 ((r.adLength.toNat + 15) / 16) = k + 1 := by
    rw [← Nat.zero_add k]
    exact hk
  rw [gcReference, hX, Spec.aead, toBlock_leftBytes, Cofb.aead, Cofb.afterAd, Cofb.initial,
    toBlock_leftBytes, ← hC, ← adList_eq _ _ hk', hA]

/-- The loop, from the call for the nonce on. -/
theorem ends_gcServe (hr : cofbSlot.clear r = r) {d : BitVec 128} {ad msg out : Words4} {n : ℕ}
    (hn : adBlocks r.adLength + msgBlocks r.dataLength ≤ n) :
    Ends (socTarget boot) (Serves F r (Core.After .procAd (Spec.gift128 r.key r.nonce)
      ((Spec.gift128 r.key r.nonce).extractLsb' 64 64) r.adLength r.dataLength d))
      (gcServe ad msg n out) fun x s =>
        x = some (lastServed out (gcReference r ad msg).1) ∧ ∃ r', cofbSlot.At F r'
          (lastBlock d (gcReference r ad msg).1, (gcReference r ad msg).2)
          ⟨true, if r.decryptMode then (gcReference r ad msg).2 == r.tagIn else true⟩ s := by
  obtain ⟨k, hk⟩ : ∃ k, adBlocks r.adLength = 0 + k + 1 :=
    ⟨adBlocks r.adLength - 1, by unfold adBlocks; omega⟩
  obtain ⟨m, rfl⟩ : ∃ m, n = m + k := ⟨n - k, by omega⟩
  generalize hA : streamBytes (serveBlocks r.ad ad) r.adLength.toNat = A
  generalize hX : streamBytes (serveBlocks r.dataIn msg) r.dataLength.toNat = X
  have hlenA : A.length = r.adLength.toNat := by rw [← hA, length_streamBytes]
  have hlenX : X.length = r.dataLength.toNat := by rw [← hX, length_streamBytes]
  have hempty : (r.dataLength == 0) = true ↔ r.dataLength.toNat = 0 := by
    rw [beq_iff_eq, ← BitVec.toNat_inj]
    rfl
  generalize hC : Cofb.absorbAll (Spec.gift128 r.key) (Cofb.adMask A X)
    ((List.range' 0 (k + 1)).map (inBytes (serveBlocks r.ad ad) r.adLength.toNat))
    ⟨Spec.gift128 r.key r.nonce, (Spec.gift128 r.key r.nonce).extractLsb' 64 64⟩ = C
  rw [gcReference_eq r ad msg hk hA hX hC]
  -- the first AD block, and those that the core asks for
  refine Ends.mono ?_ (fun s hs => hs.trans fun c hc => ⟨43, hc.comesTo_absorb
    (C := ⟨Spec.gift128 r.key r.nonce, (Spec.gift128 r.key r.nonce).extractLsb' 64 64⟩)
    (B := inBytes (serveBlocks r.ad ad) r.adLength.toNat 0) ?_⟩) fun _ _ h => h
  rotate_left
  · rw [inBytes, toNat_blockBytes]
    rfl
  refine ends_gcServe_adRun hF hr (e := r.dataLength == 0) (X := X)
    (fun j hj => if_neg hj.ne') hlenA rfl ?_ hk (by omega) fun x ra' => ?_
  · rw [hempty, ← List.length_eq_zero_iff, hlenX]
  rw [hC]
  have hr' : cofbSlot.clear { r with ad := x } = { r with ad := x } := by
    rw [← hr]
    rfl
  have hmsg : ((r.dataLength.toNat + 15) / 16 = msgBlocks r.dataLength) := rfl
  cases he : r.dataLength == 0 with
  | true =>
      obtain ⟨n, rfl⟩ : ∃ n, m = n + 1 := ⟨m - 1, by omega⟩
      have hnil : Cofb.blocks X = [] := by
        rw [← hX, hempty.1 he, blocks_streamBytes]
        exact List.map_nil
      rw [hnil]
      exact (ends_gcServe_done hF hr').mono (fun _ hs => hs) fun y s hs => ⟨hs.1, _, hs.2⟩
  | false =>
      have hpos : r.dataLength.toNat ≠ 0 := fun h => Bool.false_ne_true (he.symm.trans (hempty.2 h))
      obtain ⟨l, hl⟩ : ∃ l, msgBlocks r.dataLength = 0 + l + 1 :=
        ⟨msgBlocks r.dataLength - 1, by omega⟩
      obtain ⟨n, rfl⟩ : ∃ n, m = n + 1 + l := ⟨m - 1 - l, by omega⟩
      have hblocks : Cofb.blocks X = (List.range' 0 (l + 1)).map
          (inBytes (serveBlocks r.dataIn msg) r.dataLength.toNat) := by
        rw [← hX, blocks_streamBytes, hmsg, hl, Nat.zero_add, List.range_eq_range']
      rw [hblocks]
      refine Ends.mono (ends_gcServe_msgRun hF hr' (j := 0) (C := C)
        (fun j hj => if_neg hj.ne') hlenX hl (Nat.zero_add _).symm)
        (fun s hs => hs.trans fun c hc => ⟨43, hc.comesTo_crypt ?_⟩) fun _ _ h => h
      rw [inBytes, toNat_blockBytes]
      rfl

/-- The write to CTRL and the loop. -/
theorem ends_gcOperation {o : BitVec 128 × BitVec 128} {k : Sticky} {data : Word} {q : CofbRegs}
    (hr' : cofbSlot.clear (CofbRegs.ctrl data r) = q) {ad msg out : Words4} {n : ℕ}
    (hn : adBlocks q.adLength + msgBlocks q.dataLength ≤ n)
    {res : List (List Byte) × BitVec 128} (hres : gcReference q ad msg = res) {v : Bool}
    (hv : (if q.decryptMode then res.2 == q.tagIn else true) = v) {w : Words4}
    (hw : lastServed out res.1 = w) {g : Option Words4 → Prog β}
    (hg : ∀ r'', Ends (socTarget boot) (cofbSlot.At F r'' (lastBlock o.1 res.1, res.2) ⟨true, v⟩)
      (g (some w)) Q) :
    Ends (socTarget boot) (cofbSlot.At F r o k)
      (store gcCtrl data >>= fun _ => gcServe ad msg n out >>= g) Q := by
  have hclear : cofbSlot.clear q = q := by
    rw [← hr']
    rfl
  refine ends_gcStart hF hr'.symm ((ends_gcServe hF hclear hn).bind fun x => ?_)
  intro env hfair s ⟨hx, r'', hs⟩
  rw [hres, hv] at hs
  rw [hx, hres, hw]
  exact hg r'' env hfair s hs

end

/-- For all strings, lengths, keys and both directions, on every system with the accelerator at
    rest: the loop ends, having served every request of the core, and what the core has computed of
    the strings is GIFT-COFB. -/
theorem gc_serve_computes (boot : Ram bootSize) {r : CofbRegs} {o : BitVec 128 × BitVec 128}
    {k : Sticky} {s : Soc} (hs : cofbSlot.Resting r o k s) (data : Word) (ad msg out : Words4)
    {n : ℕ} (hn : adBlocks (data.extractLsb' 8 8) + msgBlocks (data.extractLsb' 0 8) ≤ n)
    {env : ℕ → Mmio.Cycle HostIn} (hfair : Fair env) :
    let res := gcReference (CofbRegs.ctrl data r) ad msg
    Returns (socTarget boot) env ⟨.ready (store gcCtrl data >>= fun _ => gcServe ad msg n out), s⟩
      fun x s' => x = some (lastServed out res.1) ∧ ∃ r', cofbSlot.Resting r'
        (lastBlock o.1 res.1, res.2)
        ⟨true, if data.getLsbD 16 then res.2 == r.tagIn else true⟩ s' := by
  intro res
  have hF : Frame boot (Labels cofbSlot) fun _ => True := .true boot _
  have hclear : cofbSlot.clear (cofbSlot.clear (CofbRegs.ctrl data r)) =
      cofbSlot.clear (CofbRegs.ctrl data r) := rfl
  refine (ends_gcStart hF rfl (ends_gcServe hF hclear hn)).mono (fun _ h => h) (fun x s' h => ?_)
    env hfair s ⟨hs, trivial⟩
  obtain ⟨hx, r', hs', -⟩ := h
  exact ⟨hx, r', hs'⟩

theorem gc_serve_computes_two_blocks :
    let res := gcReference (CofbRegs.ctrl 0x1111 .reset) ⟨0, 0, 0, 0x10000000⟩ ⟨0, 0, 0, 0x10000000⟩
    Returns (socTarget emptyBoot) promptEnv
      ⟨.ready (store gcCtrl 0x1111 >>= fun _ =>
        gcServe ⟨0, 0, 0, 0x10000000⟩ ⟨0, 0, 0, 0x10000000⟩ 4 ⟨0, 0, 0, 0⟩),
        sampleSoc.reset emptyBoot noAccess⟩
      fun x s' => x = some (lastServed ⟨0, 0, 0, 0⟩ res.1) ∧ ∃ r', cofbSlot.Resting r'
        (lastBlock 0 res.1, res.2) ⟨true, if (0x1111 : Word).getLsbD 16 then res.2 == 0 else true⟩
        s' :=
  @gc_serve_computes emptyBoot .reset (0, 0) ⟨false, false⟩ (sampleSoc.reset emptyBoot noAccess)
    ⟨rfl, rfl, ⟨rfl, .init ⟨_, rfl⟩⟩, rfl, rfl, rfl⟩ 0x1111 _ _ _ 4 (by decide) _ promptEnv_fair

/-! ## Strings of one block -/

/-- What the core computes without a request. -/
def gcOneBlock (r : CofbRegs) : List (List Byte) × BitVec 128 :=
  Spec.aead (leftBytes 16 16 r.key) r.decryptMode (leftBytes 16 16 r.nonce)
    (streamBytes (fun _ => r.ad) r.adLength.toNat)
    (streamBytes (fun _ => r.dataIn) r.dataLength.toNat)

theorem cofb_computes {r : CofbRegs} (hstart : r.start = true) (hadAck : r.adAck = false)
    (hmsgAck : r.msgAck = false) (had : r.adLength.toNat ≤ 16) (hpos : 0 < r.dataLength.toNat)
    (hmsg : r.dataLength.toNat ≤ 16) :
    cofbSlot.Computes r (lastBlock 0 (gcOneBlock r).1, (gcOneBlock r).2)
      (if r.decryptMode then (gcOneBlock r).2 == r.tagIn else true) := by
  rintro c ⟨hidle, hreset⟩
  have henv : cofbSlot.opEnv r = fun t => { gcCoreIn r with start := decide (t = 0) } := by
    funext t
    unfold Slot.opEnv
    by_cases ht : t = 0
    · rw [if_pos ht, decide_eq_true ht, ← hstart]
      rfl
    · rw [if_neg ht, decide_eq_false ht]
      simp [cofbSlot, gcCoreIn, hadAck, hmsgAck]
  -- with one block in each stream there is no request to serve
  have hblock : c.OneBlock := by
    obtain ⟨hadReq, hmsgReq, -⟩ := hreset.silent hidle
    refine ⟨hadReq, hmsgReq, ?_, fun h => absurd hidle h, fun h => ?_, fun h => ?_⟩
    · rw [hidle]
      exact ⟨nofun, nofun⟩
    · rw [hidle] at h
      cases h
    · rw [hidle] at h
      cases h
  obtain ⟨n, hn⟩ := (Host.constant (gcCoreIn r) (fun t => decide (t = 0)) rfl
    ((lastNow_iff _).2 had) ((lastNow_iff _).2 hmsg) hadAck hmsgAck hblock).run_op hreset hidle
  rw [← henv] at hn
  have href : Host.reference (cofbSlot.opEnv r) (fun _ => (gcCoreIn r).adData)
      (fun _ => (gcCoreIn r).msgData) = gcOneBlock r := by
    rw [henv]
    rfl
  have hne : (gcOneBlock r).1.map Cofb.toBlock ≠ [] := by
    rw [← List.length_pos_iff_ne_nil, List.length_map, gcOneBlock, Spec.aead, Cofb.aead,
      Cofb.length_cryptAll, blocks_streamBytes, List.length_map, List.length_range]
    omega
  refine ⟨n, hn.firstDone, ⟨hn.idle fun t ht => ?_, hreset.run (fun _ => trivial) n⟩,
    Prod.ext (hn.dataOut.trans ?_) (hn.tagOut.trans ?_), hn.valid.trans ?_⟩
  · rw [henv]
    exact decide_eq_false ht.ne'
  · obtain ⟨D, l, hcons⟩ := List.exists_cons_of_ne_nil hne
    rw [href, lastBlock, hcons, List.getLastD_cons, List.getLastD_cons]
  · exact congrArg Prod.snd href
  · rw [href]
    rfl

/-! ## Rules for drivers -/

section

variable {boot : Ram bootSize} {F : Soc → Prop} {r : CofbRegs} {o : BitVec 128 × BitVec 128}
  {k : Sticky} {β : Type} {Q : β → Soc → Prop} (hF : Frame boot (Labels cofbSlot) F)

include hF

/-- CTRL, and STATUS until `done`, with one block in each string. -/
theorem ends_gcSingle {data : Word} {q : CofbRegs} (hr' : CofbRegs.ctrl data r = q)
    (had : q.adLength.toNat ≤ 16) (hpos : 0 < q.dataLength.toNat)
    (hmsg : q.dataLength.toNat ≤ 16) {o' : BitVec 128 × BitVec 128}
    (hres : (lastBlock 0 (gcOneBlock q).1, (gcOneBlock q).2) = o') {v : Bool}
    (hv : (if q.decryptMode then o'.2 == q.tagIn else true) = v) {g : Unit → Prog β}
    (hg : ∀ r'', Ends (socTarget boot) (cofbSlot.At F r'' o' ⟨true, v⟩) (g ()) Q) :
    Ends (socTarget boot) (cofbSlot.At F r o k)
      (store gcCtrl data >>= fun _ => waitUntil gcStatus (fun w => w &&& 0x02 != 0) >>= g) Q := by
  intro env hfair s hs
  -- no answer is on its way
  have hlow := gc_low hs.1.clear
  have hcomp : cofbSlot.Computes (CofbRegs.ctrl data r) o' v := by
    rw [← hv, ← hres]
    rw [← hr'] at had hpos hmsg ⊢
    exact cofb_computes rfl hlow.2.1 hlow.2.2 had hpos hmsg
  refine cofbSlot_lawful.ends_operation hF (.inr ⟨_, rfl⟩) (f := CofbRegs.ctrl) rfl rfl hcomp
    (fun boot i s h => ⟨_, gc_status boot i s h, ?_⟩) (hg _) env hfair s hs
  show (_ : Bool) = s.gcSticky.done
  cases s.gc.adReq <;> cases s.gc.msgReq <;> cases s.gcSticky.done <;>
    cases s.gcSticky.valid <;> decide

theorem ends_gcOut {w : Words4} (hw : o.1 = w.pack) {g : Words4 → Prog β}
    (hg : Ends (socTarget boot) (cofbSlot.At F r o k) (g w) Q) :
    Ends (socTarget boot) (cofbSlot.At F r o k) (gcData >>= g) Q := by
  rw [← Words4.eq_unpack.2 hw] at hg
  exact ends_load4 cofbSlot_lawful hF (w := .unpack o.1)
    (gc_shows (fun o => o.1.extractLsb' 0 32) fun _ _ => rfl)
    (gc_shows (fun o => o.1.extractLsb' 32 32) fun _ _ => rfl)
    (gc_shows (fun o => o.1.extractLsb' 64 32) fun _ _ => rfl)
    (gc_shows (fun o => o.1.extractLsb' 96 32) fun _ _ => rfl) hg

theorem ends_gcTag {w : Words4} (hw : o.2 = w.pack) {g : Words4 → Prog β}
    (hg : Ends (socTarget boot) (cofbSlot.At F r o k) (g w) Q) :
    Ends (socTarget boot) (cofbSlot.At F r o k) (gcTag >>= g) Q := by
  rw [← Words4.eq_unpack.2 hw] at hg
  exact ends_load4 cofbSlot_lawful hF (w := .unpack o.2)
    (gc_shows (fun o => o.2.extractLsb' 0 32) fun _ _ => rfl)
    (gc_shows (fun o => o.2.extractLsb' 32 32) fun _ _ => rfl)
    (gc_shows (fun o => o.2.extractLsb' 64 32) fun _ _ => rfl)
    (gc_shows (fun o => o.2.extractLsb' 96 32) fun _ _ => rfl) hg

end

end PicoSoc.Firmware
