import PicoSoc.Library.Clocked
import PicoSoc.System.FlashCommand

set_option autoImplicit false

/-! # Reads through the flash controller

The controller runs ahead of the host: it receives the next word while the host still holds the last
one, and drops the transfer at any bit when the host asks for another address. `Phase` follows the
controller, the engine and the flash through the reset of the flash, the wake-up and the reads. -/

namespace PicoSoc.System

namespace Memio

/-! ## The controller by parts -/

/-- One data line and no continued reads. -/
structure SingleMode (c : MemioConfig) : Prop where
  ddr : c.ddr = false
  qspi : c.qspi = false
  cont : c.cont = false

/-- A cycle without reset, before `softreset` and the configuration. -/
def active (i : MemioIn) (o : XferOut) (s : Memio) : Memio :=
  jumpCase i s (stateCase i o s (capture i o { s with xferResetn := true, dinValid := false }))

theorem step_active {i : MemioIn} {o : XferOut} {s : Memio} (hr : i.resetn = true)
    (hs : s.softreset = false) :
    s.step i o = { active i o s with
      softreset := softresetStep i s, config := configStep i s.config } := by
  simp [step, active, hr, hs]

/-- Only the registers of the read change. -/
theorem capture_frame (i : MemioIn) (o : XferOut) (t : Memio) :
    ∃ b rd ra rv w ri, capture i o t = { t with
      buffer := b, rdata := rd, rdAddr := ra, rdValid := rv, rdWait := w, rdInc := ri } := by
  refine ⟨(capture i o t).buffer, (capture i o t).rdata, (capture i o t).rdAddr,
    (capture i o t).rdValid, (capture i o t).rdWait, (capture i o t).rdInc, ?_⟩
  simp only [capture]
  split_ifs <;> rfl

theorem offer_eq (o : XferOut) (data : BitVec 8) (tag : BitVec 4) (next : MemioState) (t : Memio) :
    offer o data tag next t = { t with
      dinValid := !o.dinReady, dinData := data, dinTag := tag
      state := if o.dinReady then next else t.state } := by
  cases h : o.dinReady <;> simp [offer, h]

theorem jumpCase_of_not {i : MemioIn} {s t : Memio} (h : s.jump i = false) : jumpCase i s t = t := by
  simp [jumpCase, h]

/-- Without a word there is nothing to jump away from. -/
theorem jump_eq_false {i : MemioIn} {s : Memio} (h : s.rdValid = false) : s.jump i = false := by
  simp [jump, h]

theorem ready_eq_false {i : MemioIn} {s : Memio} (h : s.rdValid = false) : s.ready i = false := by
  simp [ready, h]

theorem softresetStep_eq_false {i : MemioIn} {s : Memio} (h : s.softresetStep i = false) :
    i.resetn = true ∧ s.config.en = true ∧ configStep i s.config = s.config := by
  simp only [softresetStep, Bool.or_eq_false_iff, Bool.not_eq_false', bne_eq_false_iff_eq] at h
  obtain ⟨hr, hen, hwe⟩ := h
  refine ⟨hr, hen, ?_⟩
  simp [configStep, hr, hwe]

/-! ## The bytes offered in a read -/

/-- Where the controller offers byte `k`. -/
def readState (k : ℕ) : MemioState :=
  if k = 0 then .s4
  else if k = 1 then .s5
  else if k = 2 then .s6
  else if k = 3 then .s7
  else if k % 4 = 0 then .s9
  else if k % 4 = 1 then .s10
  else if k % 4 = 2 then .s11
  else .s12

/-- Byte `k` of a read at `a` is next. -/
structure Offering (a : BitVec 24) (k : ℕ) (m : Memio) : Prop where
  state : m.state = readState k
  dinTag : m.dinValid = true → m.dinTag = readTag k
  dinData : m.dinValid = true → k < 4 → m.dinData = readByte a k
  rdWait : m.dinValid = true → m.state = .s12 → m.rdWait = false

section

variable {a : BitVec 24} {k : ℕ} {m t : Memio} {i : MemioIn} {o : XferOut}

theorem offering_idle (hstate : m.state = readState k) (hv : m.dinValid = false) :
    Offering a k m :=
  ⟨hstate, fun h => absurd h (by simp [hv]), fun h => absurd h (by simp [hv]),
    fun h => absurd h (by simp [hv])⟩

theorem offering_offer {data : BitVec 8} {tag : BitVec 4} {next : MemioState}
    (hstate : t.state = readState k) (htag : tag = readTag k) (hdata : k < 4 → data = readByte a k)
    (hwait : readState k = .s12 → t.rdWait = false) (hnext : next = readState (k + 1)) :
    Offering a (k + o.dinReady.toNat) (offer o data tag next t) := by
  rw [offer_eq]
  cases h : o.dinReady
  · exact ⟨hstate, fun _ => htag, fun _ => hdata, fun _ hs => hwait (hstate ▸ hs)⟩
  · exact offering_idle hnext rfl

/-- The states in which data bytes are offered. -/
theorem readState_data (hk : 4 ≤ k) :
    k % 4 = 0 ∧ readState k = .s9 ∧ readTag k = 1 ∧ readState (k + 1) = .s10
      ∨ k % 4 = 1 ∧ readState k = .s10 ∧ readTag k = 2 ∧ readState (k + 1) = .s11
      ∨ k % 4 = 2 ∧ readState k = .s11 ∧ readTag k = 3 ∧ readState (k + 1) = .s12
      ∨ k % 4 = 3 ∧ readState k = .s12 ∧ readTag k = 4 ∧ readState (k + 1) = .s9 := by
  have hsmall : k ≠ 0 ∧ k ≠ 1 ∧ k ≠ 2 ∧ k ≠ 3 ∧ ¬ k < 4 := by omega
  have hnext : k + 1 ≠ 2 ∧ k + 1 ≠ 3 := by omega
  have hmod : k % 4 = 0 ∧ (k + 1) % 4 = 1 ∨ k % 4 = 1 ∧ (k + 1) % 4 = 2
      ∨ k % 4 = 2 ∧ (k + 1) % 4 = 3 ∨ k % 4 = 3 ∧ (k + 1) % 4 = 0 := by omega
  obtain ⟨h₀, h₁, h₂, h₃, h₄⟩ := hsmall
  obtain ⟨n₂, n₃⟩ := hnext
  obtain ⟨hm, hn⟩ | ⟨hm, hn⟩ | ⟨hm, hn⟩ | ⟨hm, hn⟩ := hmod
  all_goals simp [readState, readTag, h₀, h₁, h₂, h₃, h₄, n₂, n₃, hm, hn]

/-- The word register waits for the host only while the byte before it is on the line. -/
theorem capture_rdWait {s : Memio} (hw : s.rdWait = false ∨ i.valid = true)
    (htag : o.doutValid = true → o.doutTag ≠ 4) :
    (capture i o { s with xferResetn := true, dinValid := false }).rdWait = false := by
  cases hv : i.valid with
  | true =>
    simp [capture, hv]
  | false =>
    have hlast : (o.doutValid && o.doutTag == 4) = false := by
      cases hd : o.doutValid
      · rfl
      · simpa using htag hd
    have hrd : s.rdWait = false := by simpa [hv] using hw
    simp only [capture, hlast, hv, Bool.false_eq_true, if_false]
    split_ifs <;> exact hrd

theorem Offering.next {s : Memio} (h : Offering a k s) (mode : SingleMode s.config)
    (htaken : o.dinReady = true → s.dinValid = true)
    (hhost : k = 1 → s.dinValid = true → i.valid = true ∧ s.ready i = false)
    (haddr : k < 4 → i.addr = a)
    (htag : 4 ≤ k → o.doutValid = true → o.doutTag = readTag (k - 1)) :
    Offering a (k + o.dinReady.toNat)
      (stateCase i o s (capture i o { s with xferResetn := true, dinValid := false })) := by
  have hstate := h.state
  have hword (h12 : readState k = .s12) (hw : s.rdWait = false ∨ i.valid = true) :
      (capture i o { s with xferResetn := true, dinValid := false }).rdWait = false := by
    have hk : 4 ≤ k ∧ k % 4 = 3 := by
      simp only [readState] at h12
      split_ifs at h12
      omega
    refine capture_rdWait hw fun hd => ?_
    rw [htag hk.1 hd, readTag, if_neg (by omega), show (k - 1) % 4 = 2 by omega]
    decide
  obtain ⟨b, rd, ra, rv, w, ri, ht⟩ :=
    capture_frame i o { s with xferResetn := true, dinValid := false }
  generalize capture i o { s with xferResetn := true, dinValid := false } = t at ht hword
  have htstate : t.state = readState k := by rw [ht, ← hstate]
  -- the command, the three bytes of the address, and the dummy and data bytes behind them
  obtain rfl | rfl | rfl | rfl | hk : k = 0 ∨ k = 1 ∨ k = 2 ∨ k = 3 ∨ 4 ≤ k := by omega
  · have hs : s.state = .s4 := hstate
    simp only [stateCase, hs]
    exact offering_offer htstate rfl (fun _ => by simp [readCommand, mode.ddr, mode.qspi, readByte])
      (fun hfalse => absurd hfalse (by simp [readState])) rfl
  · have hs : s.state = .s5 := hstate
    simp only [stateCase, hs]
    cases hwant : i.valid && !s.ready i with
    | true =>
      rw [if_pos rfl]
      exact offering_offer htstate rfl (fun _ => by rw [haddr (by omega)]; rfl)
        (fun hfalse => absurd hfalse (by simp [readState])) rfl
    | false =>
      have hidle : s.dinValid = false := by
        by_contra hv
        simp [hhost rfl (by simpa using hv)] at hwant
      have hnone : o.dinReady = false := by
        by_contra hr
        exact absurd (htaken (by simpa using hr)) (by simp [hidle])
      rw [hnone, if_neg (by simp)]
      exact offering_idle htstate (by rw [ht])
  · have hs : s.state = .s6 := hstate
    simp only [stateCase, hs]
    exact offering_offer htstate rfl (fun _ => by rw [haddr (by omega)]; rfl)
      (fun hfalse => absurd hfalse (by simp [readState])) rfl
  · have hs : s.state = .s7 := hstate
    have hoffer : Offering a (3 + o.dinReady.toNat) (offer o (i.addr.extractLsb' 0 8) 0 .s9 t) :=
      offering_offer htstate rfl (fun _ => by rw [haddr (by omega)]; rfl)
        (fun hfalse => absurd hfalse (by simp [readState])) rfl
    simp only [stateCase, hs, mode.qspi, mode.ddr, Bool.or_self, Bool.false_eq_true, if_false]
    cases hr : o.dinReady with
    | true =>
      rw [if_pos rfl]
      exact offering_idle (by simp [offer_eq, hr, readState]) (by simp [offer_eq, hr])
    | false =>
      rw [if_neg (by simp), ← hr]
      exact hoffer
  · have hlate : k < 4 → s.dinData = readByte a k := fun hlt => absurd hlt (by omega)
    have hlate₀ : k < 4 → 0x00 = readByte a k := fun hlt => absurd hlt (by omega)
    obtain ⟨-, hst, htg, hn⟩ | ⟨-, hst, htg, hn⟩ | ⟨-, hst, htg, hn⟩ | ⟨-, hst, htg, hn⟩ :=
      readState_data hk
    · simp only [stateCase, hstate, hst]
      exact offering_offer htstate htg.symm hlate (fun hfalse => absurd hfalse (by simp [hst])) hn.symm
    · simp only [stateCase, hstate, hst]
      exact offering_offer htstate htg.symm hlate₀ (fun hfalse => absurd hfalse (by simp [hst])) hn.symm
    · simp only [stateCase, hstate, hst]
      exact offering_offer htstate htg.symm hlate (fun hfalse => absurd hfalse (by simp [hst])) hn.symm
    · simp only [stateCase, hstate, hst]
      cases hgo : !s.rdWait || i.valid with
      | true =>
        rw [if_pos rfl]
        exact offering_offer htstate htg.symm hlate (fun h12 => hword h12 (by simpa using hgo)) hn.symm
      | false =>
        -- an offered byte is not withdrawn, so none is taken here
        have hidle : s.dinValid = false := by
          by_contra hv
          simp [h.rdWait (by simpa using hv) (hstate.trans hst)] at hgo
        have hnone : o.dinReady = false := by
          by_contra hr
          exact absurd (htaken (by simpa using hr)) (by simp [hidle])
        rw [hnone, if_neg (by simp)]
        exact offering_idle htstate (by rw [ht])

end

/-- The host is asked for the address before it is used: when the next byte is the first of the
    address, or one after it, either that was so before or the host has put a request. -/
theorem Offering.asks {a : BitVec 24} {k : ℕ} {i : MemioIn} {o : XferOut} {s t : Memio}
    (h : Offering a k s) (htaken : o.dinReady = true → s.dinValid = true)
    (ht : t.dinValid = false)
    (hk : 2 ≤ k + o.dinReady.toNat
      ∨ k + o.dinReady.toNat = 1 ∧ (stateCase i o s t).dinValid = true) :
    (2 ≤ k ∨ k = 1 ∧ s.dinValid = true) ∨ i.valid = true := by
  have hstate := h.state
  by_cases h2 : 2 ≤ k
  · exact Or.inl (Or.inl h2)
  cases hr : o.dinReady with
  | true =>
    obtain rfl | rfl : k = 0 ∨ k = 1 := by omega
    · have hs : s.state = .s4 := hstate
      simp [stateCase, hs, offer_eq, hr] at hk
    · exact Or.inl (Or.inr ⟨rfl, htaken hr⟩)
  | false =>
    simp only [hr, Bool.toNat_false, Nat.add_zero] at hk
    obtain hk | ⟨rfl, hv⟩ := hk
    · exact absurd hk h2
    have hs : s.state = .s5 := hstate
    cases hvalid : i.valid
    · simp [stateCase, hs, hvalid, ht] at hv
    · exact Or.inr rfl

/-- Only the mode puts the engine on more lines. -/
theorem stateCase_plain {i : MemioIn} {o : XferOut} {s t : Memio} (mode : SingleMode s.config)
    (hs : s.state ≠ .s8) (hq : t.dinQspi = false) (hd : t.dinDdr = false) (hr : t.dinRd = false) :
    (stateCase i o s t).dinQspi = false ∧ (stateCase i o s t).dinDdr = false
      ∧ (stateCase i o s t).dinRd = false := by
  cases h : s.state with
  | s8 => exact absurd h hs
  | s1 | s3 => cases hv : o.doutValid <;> simp [stateCase, h, hv, hq, hd, hr]
  | s5 =>
    cases hwant : i.valid && !s.ready i <;>
      simp [stateCase, h, hwant, offer_eq, mode.qspi, mode.ddr, hq, hd, hr]
  | s7 => cases hready : o.dinReady <;> simp [stateCase, h, hready, offer_eq, hq, hd, hr]
  | s12 =>
    cases hgo : !s.rdWait || i.valid <;> simp [stateCase, h, hgo, offer_eq, hq, hd, hr]
  | _ => simp [stateCase, h, offer_eq, hq, hd, hr]

/-- In a read only the offered byte and the state change, and at its start `rdInc`. -/
theorem stateCase_frame {k : ℕ} {i : MemioIn} {o : XferOut} {s t : Memio}
    (hs : s.state = readState k) (mode : SingleMode s.config) (hq : t.dinQspi = false)
    (hd : t.dinDdr = false) :
    ∃ dv dd dt st, stateCase i o s t = { t with
      dinValid := dv, dinData := dd, dinTag := dt, state := st
      rdInc := if k = 0 then false else t.rdInc } := by
  refine ⟨(stateCase i o s t).dinValid, (stateCase i o s t).dinData, (stateCase i o s t).dinTag,
    (stateCase i o s t).state, ?_⟩
  obtain rfl | rfl | rfl | rfl | hk : k = 0 ∨ k = 1 ∨ k = 2 ∨ k = 3 ∨ 4 ≤ k := by omega
  · simp [stateCase, hs, readState, offer_eq]
  · cases hwant : i.valid && !s.ready i with
    | true => simp [stateCase, hs, readState, hwant, offer_eq, mode.qspi, mode.ddr, hq, hd]
    | false => simp [stateCase, hs, readState, hwant]
  · simp [stateCase, hs, readState, offer_eq]
  · cases hr : o.dinReady <;> simp [stateCase, hs, readState, offer_eq, hr]
  · have hne : k ≠ 0 := by omega
    obtain ⟨-, hst, -⟩ | ⟨-, hst, -⟩ | ⟨-, hst, -⟩ | ⟨-, hst, -⟩ := readState_data hk
    · simp [stateCase, hs, hst, offer_eq, hne]
    · simp [stateCase, hs, hst, offer_eq, hne]
    · simp [stateCase, hs, hst, offer_eq, hne]
    · cases hgo : !s.rdWait || i.valid <;> simp [stateCase, hs, hst, offer_eq, hne, hgo]

/-! ## The bytes received -/

section

variable (memory : BitVec 24 → BitVec 8)

/-- `r` bytes of a read at `a` are through: from byte 7 on there is a word, and the bytes after it
    are in the buffer. -/
structure Received (a : BitVec 24) (r : ℕ) (m : Memio) : Prop where
  early : r < 8 → m.rdValid = false ∧ m.rdInc = false
  late : 8 ≤ r → m.rdValid = true ∧ m.rdInc = true
  rdAddr : 8 ≤ r → m.rdAddr = a + BitVec.ofNat 24 (4 * (r / 4) - 8)
  rdata : 8 ≤ r → m.rdata = flashWord memory m.rdAddr
  buffer : 4 ≤ r → ∀ b < r % 4,
    m.buffer.extractLsb' (8 * b) 8 = dataByte memory a (4 * (r / 4) - 4 + b)

variable {memory} {a : BitVec 24} {r : ℕ} {m : Memio} {i : MemioIn} {o : XferOut}

theorem Received.rebase (h : Received memory a r m) (hr : r < 4) (b : BitVec 24) :
    Received memory b r m :=
  { h with
    rdAddr := fun h8 => absurd h8 (by omega)
    buffer := fun h4 => absurd h4 (by omega) }

/-- The bytes of the command and of the address bring nothing back. -/
theorem capture_none (ht : o.doutValid = true → o.doutTag = 0) :
    capture i o m = { m with rdWait := if i.valid then false else m.rdWait } := by
  cases hd : o.doutValid with
  | false => cases hv : i.valid <;> simp [capture, hd, hv]
  | true => cases hv : i.valid <;> simp [capture, ht hd, hv]

/-- A byte of the word that is not its last. -/
theorem Received.byte {d : BitVec 8} {buffer : BitVec 24} {w : Bool} (h : Received memory a r m)
    (h4 : 4 ≤ r) (h3 : r % 4 ≠ 3) (hd : d = dataByte memory a (r - 4))
    (hnew : buffer.extractLsb' (8 * (r % 4)) 8 = d)
    (hold : ∀ b < r % 4, buffer.extractLsb' (8 * b) 8 = m.buffer.extractLsb' (8 * b) 8) :
    Received memory a (r + 1) { m with buffer := buffer, rdWait := w } where
  early hr := h.early (by omega)
  late hr := h.late (by omega)
  rdAddr hr := by
    rw [show (r + 1) / 4 = r / 4 by omega]
    exact h.rdAddr (by omega)
  rdata hr := h.rdata (by omega)
  buffer _ b hb := by
    rw [show (r + 1) / 4 = r / 4 by omega]
    obtain hlt | rfl : b < r % 4 ∨ b = r % 4 := by omega
    · rw [hold b hlt]
      exact h.buffer h4 b hlt
    · rw [hnew, hd, show 4 * (r / 4) - 4 + r % 4 = r - 4 by omega]

theorem append_word (w x y z : BitVec 8) :
    (w ++ (x ++ y ++ z) : BitVec 32) = w ++ x ++ y ++ z := by
  rw [BitVec.append_assoc, BitVec.append_assoc, BitVec.append_assoc]
  rfl

theorem extract_kept (d : BitVec 8) (x : BitVec 24) {b : ℕ} (hb : b < 2) :
    (d ++ x.extractLsb' 0 16).extractLsb' (8 * b) 8 = x.extractLsb' (8 * b) 8 := by
  apply BitVec.eq_of_getLsbD_eq
  intro k hk
  rw [BitVec.getLsbD_extractLsb', BitVec.getLsbD_append, if_pos (by omega),
    BitVec.getLsbD_extractLsb', BitVec.getLsbD_extractLsb', Nat.zero_add,
    decide_eq_true (show 8 * b + k < 16 by omega), Bool.true_and]

/-- The last byte of a word. -/
theorem Received.word {d : BitVec 8} {w : Bool} (h : Received memory a r m)
    (h4 : 4 ≤ r) (h3 : r % 4 = 3) (hd : d = dataByte memory a (r - 4)) (haddr : r < 8 → i.addr = a) :
    Received memory a (r + 1) { m with
      rdata := d ++ m.buffer, rdAddr := if m.rdInc then m.rdAddr + 4 else i.addr, rdValid := true
      rdWait := w, rdInc := true } := by
  have hbase : (if m.rdInc then m.rdAddr + 4 else i.addr)
      = a + BitVec.ofNat 24 (4 * ((r + 1) / 4) - 8) := by
    by_cases h8 : r < 8
    · rw [(h.early h8).2, haddr h8, show 4 * ((r + 1) / 4) - 8 = 0 by omega]
      simp
    · rw [(h.late (by omega)).2, h.rdAddr (by omega), if_pos rfl,
        show 4 * ((r + 1) / 4) - 8 = 4 * (r / 4) - 8 + 4 by omega, BitVec.ofNat_add]
      exact BitVec.add_assoc ..
  have hbyte (b : ℕ) (hb : b < 3) : m.buffer.extractLsb' (8 * b) 8
      = memory (a + BitVec.ofNat 24 (4 * ((r + 1) / 4) - 8) + BitVec.ofNat 24 b) := by
    rw [h.buffer h4 b (by omega), dataByte, BitVec.add_assoc, ← BitVec.ofNat_add,
      show 4 * ((r + 1) / 4) - 8 = 4 * (r / 4) - 4 by omega]
  have hlast : d = memory (a + BitVec.ofNat 24 (4 * ((r + 1) / 4) - 8) + 3) := by
    rw [hd, dataByte, show r - 4 = 4 * ((r + 1) / 4) - 8 + 3 by omega, BitVec.ofNat_add]
    exact congrArg memory (BitVec.add_assoc ..).symm
  exact {
    early := fun hr => absurd hr (by omega)
    late := fun _ => ⟨rfl, rfl⟩
    rdAddr := fun _ => hbase
    rdata := fun _ => by
      have hbuffer : m.buffer
          = m.buffer.extractLsb' 16 8 ++ m.buffer.extractLsb' 8 8 ++ m.buffer.extractLsb' 0 8 := by
        rw [← SpiFlash.extract_upper, SpiFlash.append_slices]
      have h0 := hbyte 0 (by omega)
      rw [BitVec.add_zero] at h0
      have h1 := hbyte 1 (by omega)
      have h2 := hbyte 2 (by omega)
      change d ++ m.buffer = flashWord memory (if m.rdInc then m.rdAddr + 4 else i.addr)
      rw [hbase, hlast, hbuffer, h0, h1, h2, flashWord, append_word]
      rfl
    buffer := fun _ b hb => absurd hb (by omega) }

theorem Received.capture (h : Received memory a r m)
    (htag : o.doutValid = true → o.doutTag = readTag r)
    (hdata : o.doutValid = true → 4 ≤ r → o.doutData = dataByte memory a (r - 4))
    (haddr : r < 8 → i.addr = a) :
    Received memory a (r + o.doutValid.toNat) (Memio.capture i o m) := by
  cases hv : o.doutValid with
  | false =>
    rw [capture_none fun hd => absurd hd (by simp [hv])]
    exact { h with }
  | true =>
    rw [Bool.toNat_true]
    -- the bytes that come with the command and the address say nothing
    by_cases h4 : r < 4
    · rw [capture_none fun _ => by rw [htag hv, readTag, if_pos h4]]
      exact {
        early := fun _ => h.early (by omega)
        late := fun h8 => absurd h8 (by omega)
        rdAddr := fun h8 => absurd h8 (by omega)
        rdata := fun h8 => absurd h8 (by omega)
        buffer := fun _ b hb => absurd hb (by omega) }
    have hbyte := hdata hv (by omega)
    have htag := htag hv
    -- three bytes fill the buffer, the fourth completes the word
    obtain ⟨hm, -, ht, -⟩ | ⟨hm, -, ht, -⟩ | ⟨hm, -, ht, -⟩ | ⟨hm, -, ht, -⟩ :=
      readState_data (k := r) (by omega)
    · have hcapture : Memio.capture i o m = { m with
          buffer := m.buffer.extractLsb' 8 16 ++ o.doutData
          rdWait := if i.valid then false else m.rdWait } := by
        cases hvalid : i.valid <;> simp [Memio.capture, hv, htag, ht, hvalid]
      rw [hcapture]
      refine h.byte (by omega) (by omega) hbyte ?_ fun b hb => absurd hb (by omega)
      rw [hm]
      exact BitVec.extractLsb'_append_eq_right
    · have hcapture : Memio.capture i o m = { m with
          buffer := m.buffer.extractLsb' 16 8 ++ o.doutData ++ m.buffer.extractLsb' 0 8
          rdWait := if i.valid then false else m.rdWait } := by
        cases hvalid : i.valid <;> simp [Memio.capture, hv, htag, ht, hvalid]
      rw [hcapture]
      refine h.byte (by omega) (by omega) hbyte ?_ fun b hb => ?_
      · rw [hm]
        exact SpiFlash.extract_second ..
      · obtain rfl : b = 0 := by omega
        exact BitVec.extractLsb'_append_eq_right
    · have hcapture : Memio.capture i o m = { m with
          buffer := o.doutData ++ m.buffer.extractLsb' 0 16
          rdWait := if i.valid then false else m.rdWait } := by
        cases hvalid : i.valid <;> simp [Memio.capture, hv, htag, ht, hvalid]
      rw [hcapture]
      refine h.byte (by omega) (by omega) hbyte ?_ fun b hb => extract_kept _ _ (by omega)
      rw [hm]
      exact BitVec.extractLsb'_append_eq_left
    · have hcapture : Memio.capture i o m = { m with
          rdata := o.doutData ++ m.buffer, rdAddr := if m.rdInc then m.rdAddr + 4 else i.addr
          rdValid := true, rdWait := if i.valid then false else m.rdInc, rdInc := true } := by
        cases hvalid : i.valid <;> simp [Memio.capture, hv, htag, ht, hvalid]
      rw [hcapture]
      exact h.word (by omega) hm hbyte haddr

end

end Memio

namespace FlashSystem

open FlashLine

/-! ## The phases -/

/-- What the wake-up sends first (`FF`, which ends continued reads) and then (`AB`, power up). -/
def wakeByte (second : Bool) : BitVec 8 := if second then 0xAB else 0xFF

/-- The controller sends one byte at a time. -/
structure PlainDin (m : Memio) : Prop where
  qspi : m.dinQspi = false
  ddr : m.dinDdr = false
  rd : m.dinRd = false

variable (memory : BitVec 24 → BitVec 8)

/-- The controller, the engine and the flash while the host puts `i`. -/
inductive Phase (i : MemioIn) (m : Memio) (x : Xfer) (f : SpiFlash) : Prop
  /-- The engine is being reset. -/
  | resetting (xferResetn : m.xferResetn = false) (rdValid : m.rdValid = false)
      (state : (m.state = .s0 ∨ m.state = .s2) ∧ m.dinValid = false
        ∨ m.state = .s4 ∧ f.poweredUp = true)
  | offeringWake (second : Bool) (xferResetn : m.xferResetn = true) (rdValid : m.rdValid = false)
      (state : m.state = if second then .s2 else .s0)
      (din : m.dinValid = true → m.dinData = wakeByte second ∧ m.dinTag = 0)
      (line : Waiting true x f)
  | sendingWake (second : Bool) (f₀ : SpiFlash) (j : ℕ) (clk : Bool) (xferResetn : m.xferResetn = true)
      (rdValid : m.rdValid = false) (state : m.state = if second then .s3 else .s1)
      (dinValid : m.dinValid = false) (line : Sending memory (wakeByte second) 0 f₀ j clk x f)
      (fresh : f₀.bytecount = 0)
  | reading (a : BitVec 24) (k r : ℕ) (xferResetn : m.xferResetn = true) (offering : m.Offering a k)
      (received : m.Received memory a r) (line : OnLine memory a x f k r)
      (held : r < 8 → 2 ≤ k ∨ k = 1 ∧ m.dinValid = true → i.valid = true ∧ i.addr = a)

variable {memory} {i : MemioIn} {m : Memio} {x : Xfer} {f : SpiFlash}

theorem Phase.rdata (h : Phase memory i m x f) (hv : m.rdValid = true) :
    m.rdata = flashWord memory m.rdAddr := by
  cases h with
  | resetting _ hrd => exact absurd hv (by simp [hrd])
  | offeringWake _ _ hrd => exact absurd hv (by simp [hrd])
  | sendingWake _ _ _ _ _ hrd => exact absurd hv (by simp [hrd])
  | reading a k r _ _ hreceived =>
    by_cases h8 : r < 8
    · exact absurd hv (by simp [hreceived.early h8])
    · exact hreceived.rdata (by omega)

/-- `softreset` and the configuration are not part of a phase. -/
theorem Phase.congr {m' : Memio} (h : Phase memory i m x f)
    (he : m' = { m with softreset := m'.softreset, config := m'.config }) :
    Phase memory i m' x f := by
  rw [he]
  cases h with
  | resetting h₁ h₂ h₃ => exact .resetting h₁ h₂ h₃
  | offeringWake b h₁ h₂ h₃ h₄ h₅ => exact .offeringWake b h₁ h₂ h₃ h₄ h₅
  | sendingWake b f₀ j clk h₁ h₂ h₃ h₄ h₅ h₆ => exact .sendingWake b f₀ j clk h₁ h₂ h₃ h₄ h₅ h₆
  | reading a k r h₁ h₂ h₃ h₄ h₅ =>
    exact .reading a k r h₁ ⟨h₂.1, h₂.2, h₂.3, h₂.4⟩ ⟨h₃.1, h₃.2, h₃.3, h₃.4, h₃.5⟩ h₄ h₅

/-! ## One cycle -/

section Step

variable {s : FlashSystem} {i : FlashIn} {i' : MemioIn}

theorem PlainDin.xferIn (h : PlainDin s.memio) : (FlashSystem.xferIn i s).Plain :=
  ⟨by simp [FlashSystem.xferIn, h.ddr], h.qspi, by simp [FlashSystem.xferIn, h.qspi], h.rd⟩

theorem xferIn_io1 (hen : s.memio.config.en = true) (hcsb : s.xfer.flashCsb = false)
    (hclk : s.xfer.flashClk = false) : (FlashSystem.xferIn i s).io1 = s.flash.io1 := by
  simp [FlashSystem.xferIn, FlashSystem.flashCsb, FlashSystem.flashClk, hen, hcsb, hclk]

variable (memory) in
/-- The phase after a cycle without reset. -/
def PhaseAfter (i : FlashIn) (s : FlashSystem) (i' : MemioIn) : Prop :=
  Phase memory i' (s.memio.active i.toMemioIn (FlashSystem.xferOut i s))
    (s.xfer.step (FlashSystem.xferIn i s))
    (flashAfter memory (FlashSystem.xferIn i s) s.xfer s.flash)

/-- Until there is a word, the controller does what its state says. -/
theorem active_quiet (hrd : s.memio.rdValid = false)
    (htag : (FlashSystem.xferOut i s).doutValid = true → (FlashSystem.xferOut i s).doutTag = 0) :
    s.memio.active i.toMemioIn (FlashSystem.xferOut i s)
      = Memio.stateCase i.toMemioIn (FlashSystem.xferOut i s) s.memio { s.memio with
          xferResetn := true, dinValid := false
          rdWait := if i.valid then false else s.memio.rdWait } := by
  rw [Memio.active, Memio.jumpCase_of_not (Memio.jump_eq_false hrd), Memio.capture_none htag]

theorem phase_resetting (mode : Memio.SingleMode s.memio.config)
    (hreset : s.memio.xferResetn = false) (hrd : s.memio.rdValid = false)
    (hstate : (s.memio.state = .s0 ∨ s.memio.state = .s2) ∧ s.memio.dinValid = false
      ∨ s.memio.state = .s4 ∧ s.flash.poweredUp = true) :
    PhaseAfter memory i s i' := by
  have hready : (FlashSystem.xferOut i s).dinReady = false := by
    simp [FlashSystem.xferOut, Xfer.dinReady, FlashSystem.xferIn, hreset]
  have hvalid : (FlashSystem.xferOut i s).doutValid = false := by
    simp [FlashSystem.xferOut, Xfer.doutValid, FlashSystem.xferIn, hreset]
  have hline := waiting_of_reset memory s.xfer s.flash
    (show (FlashSystem.xferIn i s).resetn = false from hreset)
  rw [PhaseAfter, active_quiet hrd fun h => absurd h (by simp [hvalid])]
  obtain ⟨hs | hs, -⟩ | ⟨hs, hpower⟩ := hstate
  · simp only [Memio.stateCase, hs, Memio.offer_eq, hready]
    exact .offeringWake false rfl hrd rfl (fun _ => ⟨rfl, rfl⟩) hline
  · simp only [Memio.stateCase, hs, Memio.offer_eq, hready]
    exact .offeringWake true rfl hrd rfl (fun _ => ⟨rfl, rfl⟩) hline
  · have hfresh := hline.deselected rfl
    have hflash := flashAfter_reset memory s.xfer s.flash
      (show (FlashSystem.xferIn i s).resetn = false from hreset)
    have hoffer : Memio.Offering 0 (0 + (FlashSystem.xferOut i s).dinReady.toNat) _ :=
      Memio.offering_offer (t := { s.memio with
          xferResetn := true, dinValid := false
          rdWait := if i.valid then false else s.memio.rdWait, rdInc := false, state := .s4 })
        rfl (show 0 = readTag 0 from rfl)
        (show 0 < 4 → Memio.readCommand s.memio.config = readByte 0 0 from
          fun _ => by simp [Memio.readCommand, mode.ddr, mode.qspi, readByte])
        (fun hfalse => absurd hfalse (by simp [Memio.readState])) (show .s5 = Memio.readState 1 from rfl)
    rw [hready] at hoffer
    simp only [Memio.stateCase, hs]
    refine .reading 0 0 0 (by rw [Memio.offer_eq]) hoffer ?_ (.waiting 0 hline ?_)
      fun _ hk => absurd hk (by simp)
    · rw [Memio.offer_eq]
      exact ⟨fun _ => ⟨hrd, rfl⟩, fun h => absurd h (by omega), fun h => absurd h (by omega),
        fun h => absurd h (by omega), fun h => absurd h (by omega)⟩
    · exact ⟨hfresh.bitcount, hfresh.bytecount, by rw [hflash]; exact hpower,
        fun h => absurd h (by omega), fun h => absurd h (by omega), fun h => absurd h (by omega),
        fun h => absurd h (by omega), fun h => absurd h (by omega)⟩

theorem phase_offeringWake (hplain : PlainDin s.memio) {second : Bool}
    (hreset : s.memio.xferResetn = true) (hrd : s.memio.rdValid = false)
    (hstate : s.memio.state = if second then .s2 else .s0)
    (hdin : s.memio.dinValid = true → s.memio.dinData = wakeByte second ∧ s.memio.dinTag = 0)
    (hline : Waiting true s.xfer s.flash) :
    PhaseAfter memory i s i' := by
  have hin : (FlashSystem.xferIn i s).resetn = true := hreset
  have hready : (FlashSystem.xferOut i s).dinReady = s.memio.dinValid := by
    simp [FlashSystem.xferOut, Xfer.dinReady, hline.next_fetch, FlashSystem.xferIn, hreset]
  have hvalid : (FlashSystem.xferOut i s).doutValid = false := hline.doutValid
  rw [PhaseAfter, active_quiet hrd fun h => absurd h (by simp [hvalid])]
  have hcase : Memio.stateCase i.toMemioIn (FlashSystem.xferOut i s) s.memio { s.memio with
        xferResetn := true, dinValid := false
        rdWait := if i.valid then false else s.memio.rdWait }
      = { s.memio with
        xferResetn := true, dinValid := !s.memio.dinValid, dinData := wakeByte second, dinTag := 0
        rdWait := if i.valid then false else s.memio.rdWait
        state := if s.memio.dinValid then (if second then .s3 else .s1)
          else if second then .s2 else .s0 } := by
    cases second <;> simp [Memio.stateCase, hstate, Memio.offer_eq, hready, wakeByte]
  rw [hcase]
  cases hv : s.memio.dinValid with
  | true =>
    have hnext := sending_of_take memory hline.line hline.bitcount hline.next_fetch
      (PlainDin.xferIn (i := i) hplain) hin hv
    obtain ⟨hdata, htag⟩ := hdin hv
    rw [show (FlashSystem.xferIn i s).dinData = wakeByte second from hdata,
      show (FlashSystem.xferIn i s).dinTag = 0 from htag] at hnext
    exact .sendingWake second s.flash 0 false rfl hrd rfl rfl hnext (hline.deselected rfl).bytecount
  | false =>
    exact .offeringWake second rfl hrd rfl (fun _ => ⟨rfl, rfl⟩) (hline.rest memory hin hv).1

theorem phase_sendingWake (hen : s.memio.config.en = true) {second : Bool} {f₀ : SpiFlash} {j : ℕ}
    {clk : Bool} (hreset : s.memio.xferResetn = true) (hrd : s.memio.rdValid = false)
    (hstate : s.memio.state = if second then .s3 else .s1) (hdin : s.memio.dinValid = false)
    (hline : Sending memory (wakeByte second) 0 f₀ j clk s.xfer s.flash)
    (hfresh : f₀.bytecount = 0) :
    PhaseAfter memory i s i' := by
  have hin : (FlashSystem.xferIn i s).resetn = true := hreset
  have hvalid : (FlashSystem.xferOut i s).doutValid = (decide (j = 7) && clk) := by
    rw [FlashSystem.xferOut, hline.doutValid, hin, Bool.and_true]
  have htag (hv : (FlashSystem.xferOut i s).doutValid = true) :
      (FlashSystem.xferOut i s).doutTag = 0 := by
    rw [hvalid, Bool.and_eq_true] at hv
    exact hline.xferTagQ hv.2
  rw [PhaseAfter, active_quiet hrd htag]
  have hcase : Memio.stateCase i.toMemioIn (FlashSystem.xferOut i s) s.memio { s.memio with
        xferResetn := true, dinValid := false
        rdWait := if i.valid then false else s.memio.rdWait }
      = { s.memio with
        xferResetn := !(decide (j = 7) && clk), dinValid := false
        rdWait := if i.valid then false else s.memio.rdWait
        state := if decide (j = 7) && clk then (if second then .s4 else .s2)
          else if second then .s3 else .s1 } := by
    cases second <;> cases hd : decide (j = 7) && clk <;>
      simp [Memio.stateCase, hstate, hvalid, hd]
  rw [hcase]
  cases clk with
  | false =>
    rw [Bool.and_false]
    exact .sendingWake second f₀ j true rfl hrd rfl rfl
      (hline.step_low hin (xferIn_io1 hen hline.flashCsb hline.flashClk)) hfresh
  | true =>
    -- the last bit resets the transfer; after the second byte the chip is awake
    by_cases hj : j = 7
    · subst hj
      obtain ⟨hwait, hflash⟩ := hline.rest hin hdin
      refine .resetting rfl hrd ?_
      cases second with
      | false => exact Or.inl ⟨Or.inr rfl, rfl⟩
      | true =>
        refine Or.inr ⟨rfl, ?_⟩
        rw [hflash]
        simp [SpiFlash.finish, SpiFlash.spiAction, hfresh, wakeByte]
    · rw [decide_eq_false hj, Bool.false_and]
      have hbound := hline.bound
      exact .sendingWake second f₀ (j + 1) false rfl hrd rfl rfl
        (hline.step_high (by omega) hin) hfresh

theorem phase_reading_at (hen : s.memio.config.en = true)
    (mode : Memio.SingleMode s.memio.config) (hplain : PlainDin s.memio) {a : BitVec 24} {k r : ℕ}
    (hreset : s.memio.xferResetn = true) (hoff : s.memio.Offering a k)
    (hrec : s.memio.Received memory a r) (hline : OnLine memory a s.xfer s.flash k r)
    (hvalid : r < 8 → 2 ≤ k ∨ k = 1 ∧ s.memio.dinValid = true → i.valid = true)
    (haddr : r < 8 → i.addr = a)
    (hhost : i.valid = true → s.memio.ready i.toMemioIn = false →
      i'.valid = true ∧ i'.addr = i.addr) :
    PhaseAfter memory i s i' := by
  have hin : (FlashSystem.xferIn i s).resetn = true := hreset
  have hle := hline.le
  have htaken : (FlashSystem.xferOut i s).dinReady = true → s.memio.dinValid = true := by
    simp only [FlashSystem.xferOut, Xfer.dinReady, FlashSystem.xferIn, Bool.and_eq_true]
    exact fun h => h.1.1
  have hquiet (h8 : r < 8) : s.memio.ready i.toMemioIn = false :=
    Memio.ready_eq_false (hrec.early h8).1
  have hnext := hline.step (i := FlashSystem.xferIn i s) hplain.xferIn hin (xferIn_io1 hen)
    hoff.dinTag hoff.dinData
  rw [PhaseAfter]
  -- a jump resets the transfer, and the chip stays awake
  cases hjump : s.memio.jump i.toMemioIn with
  | true =>
    have hactive : s.memio.active i.toMemioIn (FlashSystem.xferOut i s)
        = { Memio.stateCase i.toMemioIn (FlashSystem.xferOut i s) s.memio
            (Memio.capture i.toMemioIn (FlashSystem.xferOut i s)
              { s.memio with xferResetn := true, dinValid := false }) with
          rdInc := false, rdValid := false, xferResetn := false, dinRd := false, state := .s4
          dinQspi := false, dinDdr := false } := by
      simp [Memio.active, Memio.jumpCase, hjump, mode.cont]
    rw [hactive]
    exact .resetting rfl rfl (Or.inr ⟨rfl, hnext.poweredUp⟩)
  | false =>
    rw [Memio.active, Memio.jumpCase_of_not hjump]
    have hoff' := hoff.next (i := i.toMemioIn) mode htaken
      (fun hk hv => ⟨hvalid (by omega) (Or.inr ⟨hk, hv⟩), hquiet (by omega)⟩)
      (fun hk => haddr (by omega)) fun hk hv => by
        obtain ⟨hkr, htag, -⟩ := hline.received hv
        rw [show k - 1 = r by omega]
        exact htag
    have hrec' := Memio.Received.capture (i := i.toMemioIn) (o := FlashSystem.xferOut i s)
      (m := { s.memio with xferResetn := true, dinValid := false }) { hrec with }
      (fun hv => (hline.received hv).2.1) (fun hv => (hline.received hv).2.2) haddr
    obtain ⟨b, rd, ra, rv, w, ri, ht⟩ := Memio.capture_frame i.toMemioIn (FlashSystem.xferOut i s)
      { s.memio with xferResetn := true, dinValid := false }
    generalize Memio.capture i.toMemioIn (FlashSystem.xferOut i s)
      { s.memio with xferResetn := true, dinValid := false } = t at hoff' hrec' ht
    obtain ⟨dv, dd, dt, st, hcase⟩ := Memio.stateCase_frame (i := i.toMemioIn)
      (o := FlashSystem.xferOut i s) (t := t) hoff.state mode (by rw [ht]; exact hplain.qspi)
      (by rw [ht]; exact hplain.ddr)
    refine .reading a _ _ ?_ hoff' ?_ hnext fun h8 hk => ?_
    · rw [hcase, ht]
    · rw [hcase]
      -- the command byte sets `rd_inc` back, before any byte of the flash has come
      by_cases hk : k = 0
      · have hbound := hnext.le
        have hone := Bool.toNat_le (s.xfer.doutValid (FlashSystem.xferIn i s))
        have hearly : r + (FlashSystem.xferOut i s).doutValid.toNat < 8 := by
          change r + (s.xfer.doutValid (FlashSystem.xferIn i s)).toNat < 8
          omega
        rw [if_pos hk]
        exact { hrec' with
          early := fun h8 => ⟨(hrec'.early h8).1, rfl⟩
          late := fun h8 => absurd h8 (by omega) }
      · rw [if_neg hk]
        exact { hrec' with }
    · have hr8 : r < 8 := by omega
      have hwant : i.valid = true := by
        obtain hbefore | hnow := hoff.asks htaken (by rw [ht]) hk
        · exact hvalid hr8 hbefore
        · exact hnow
      obtain ⟨hv, ha⟩ := hhost hwant (hquiet hr8)
      exact ⟨hv, ha.trans (haddr hr8)⟩

/-- Up to the first byte of the address a read is a read at any address. -/
theorem phase_reading (hen : s.memio.config.en = true)
    (mode : Memio.SingleMode s.memio.config) (hplain : PlainDin s.memio) {a : BitVec 24} {k r : ℕ}
    (hreset : s.memio.xferResetn = true) (hoff : s.memio.Offering a k)
    (hrec : s.memio.Received memory a r) (hline : OnLine memory a s.xfer s.flash k r)
    (hheld : r < 8 → 2 ≤ k ∨ k = 1 ∧ s.memio.dinValid = true → i.valid = true ∧ i.addr = a)
    (hhost : i.valid = true → s.memio.ready i.toMemioIn = false →
      i'.valid = true ∧ i'.addr = i.addr) :
    PhaseAfter memory i s i' := by
  have hle := hline.le
  by_cases hasked : 2 ≤ k ∨ k = 1 ∧ s.memio.dinValid = true
  · exact phase_reading_at hen mode hplain hreset hoff hrec hline (fun h8 hk => (hheld h8 hk).1)
      (fun h8 => (hheld h8 hasked).2) hhost
  · have hoff' : s.memio.Offering i.addr k := { hoff with
      dinData := fun hv hk => by
        obtain rfl : k = 0 := by
          by_contra h0
          exact hasked (Or.inr ⟨by omega, hv⟩)
        exact hoff.dinData hv hk }
    exact phase_reading_at hen mode hplain hreset hoff' (hrec.rebase (by omega) i.addr)
      (hline.rebase (by omega) i.addr) (fun _ hk => absurd hk hasked) (fun _ => rfl) hhost

/-- A cycle in any phase. -/
theorem Phase.step (h : Phase memory i.toMemioIn s.memio s.xfer s.flash)
    (hen : s.memio.config.en = true) (mode : Memio.SingleMode s.memio.config)
    (hplain : PlainDin s.memio)
    (hhost : i.valid = true → s.memio.ready i.toMemioIn = false →
      i'.valid = true ∧ i'.addr = i.addr) :
    PhaseAfter memory i s i' := by
  cases h with
  | resetting h₁ h₂ h₃ => exact phase_resetting mode h₁ h₂ h₃
  | offeringWake second h₁ h₂ h₃ h₄ h₅ => exact phase_offeringWake hplain h₁ h₂ h₃ h₄ h₅
  | sendingWake second f₀ j clk h₁ h₂ h₃ h₄ h₅ h₆ => exact phase_sendingWake hen h₁ h₂ h₃ h₄ h₅ h₆
  | reading a k r h₁ h₂ h₃ h₄ h₅ => exact phase_reading hen mode hplain h₁ h₂ h₃ h₄ h₅ hhost

end Step

/-! ## Runs -/

theorem Phase.state_ne (h : Phase memory i m x f) : m.state ≠ .s8 := by
  cases h with
  | resetting _ _ hs =>
    obtain ⟨hs | hs, -⟩ | ⟨hs, -⟩ := hs
    all_goals rw [hs]; decide
  | offeringWake second _ _ hs => rw [hs]; cases second <;> decide
  | sendingWake second _ _ _ _ _ hs => rw [hs]; cases second <;> decide
  | reading _ _ _ _ hoff =>
    rw [hoff.state, Memio.readState]
    split_ifs <;> decide

/-- The engine drives `io0`, or is being reset. -/
theorem Phase.drives (h : Phase memory i m x f) : x.io0Oe = true ∨ m.xferResetn = false := by
  cases h with
  | resetting hreset => exact Or.inr hreset
  | offeringWake _ _ _ _ _ hline => exact Or.inl hline.line.io0Oe
  | sendingWake _ _ _ _ _ _ _ _ hline => exact Or.inl hline.line.io0Oe
  | reading _ _ _ _ _ _ hline => exact Or.inl hline.io0Oe

theorem PlainDin.active {o : XferOut} {m : Memio} (h : PlainDin m)
    (mode : Memio.SingleMode m.config) (hs : m.state ≠ .s8) : PlainDin (m.active i o) := by
  obtain ⟨b, rd, ra, rv, w, ri, ht⟩ :=
    Memio.capture_frame i o { m with xferResetn := true, dinValid := false }
  obtain ⟨hq, hd, hr⟩ := Memio.stateCase_plain (i := i) (o := o)
    (t := Memio.capture i o { m with xferResetn := true, dinValid := false }) mode hs
    (by rw [ht]; exact h.qspi) (by rw [ht]; exact h.ddr) (by rw [ht]; exact h.rd)
  cases hjump : m.jump i with
  | true =>
    rw [Memio.active, Memio.jumpCase, if_pos hjump, mode.cont]
    exact ⟨rfl, rfl, rfl⟩
  | false =>
    rw [Memio.active, Memio.jumpCase_of_not hjump]
    exact ⟨hq, hd, hr⟩

variable (memory) in
/-- What holds in every cycle once the controller has been reset. -/
structure Inv (i : MemioIn) (s : FlashSystem) : Prop where
  rdata : s.memio.rdValid = true → s.memio.rdata = flashWord memory s.memio.rdAddr
  phase : s.memio.softreset = false →
    s.memio.config.en = true ∧ PlainDin s.memio ∧ Phase memory i s.memio s.xfer s.flash

variable {s : FlashSystem} {i : FlashIn} {i' : MemioIn}

/-- Reset and `softreset` start over, whatever went on before. -/
theorem Inv.restart (h : i.resetn = false ∨ s.memio.softreset = true) :
    Inv memory i' (s.step memory i) := by
  have hrestart : (!i.resetn || s.memio.softreset) = true := by
    obtain h | h := h <;> simp [h]
  have hmemio : (s.step memory i).memio = { s.memio with
      xferResetn := false, dinValid := false, state := .s0, rdValid := false, dinTag := 0
      dinCont := false, dinQspi := false, dinDdr := false, dinRd := false
      softreset := s.memio.softresetStep i.toMemioIn
      config := Memio.configStep i.toMemioIn s.memio.config } := by
    simp only [step, Memio.step]
    rw [if_pos hrestart]
  refine ⟨fun hv => absurd hv (by simp [hmemio]), fun hsoft => ?_⟩
  have hsoft : s.memio.softresetStep i.toMemioIn = false := by rw [← hsoft, hmemio]
  obtain ⟨-, hen, hconfig⟩ := Memio.softresetStep_eq_false hsoft
  rw [hmemio, hconfig]
  exact ⟨hen, ⟨rfl, rfl, rfl⟩, .resetting rfl rfl (Or.inl ⟨Or.inl rfl, rfl⟩)⟩

/-- While the engine has the pins the flash follows it. -/
theorem step_flash (hen : s.memio.config.en = true) (hen' : (s.step memory i).memio.config.en = true)
    (hdrives : s.xfer.io0Oe = true ∨ s.memio.xferResetn = false) :
    (s.step memory i).flash = flashAfter memory (xferIn i s) s.xfer s.flash := by
  have hen' : (s.memio.step i.toMemioIn (xferOut i s)).config.en = true := hen'
  simp only [step, flashAfter, flashCsb, flashClk, flashIo0, hen, hen', if_true]
  obtain hdrives | hreset := hdrives
  · rw [if_pos hdrives]
  · have hcsb : (s.xfer.step (xferIn i s)).flashCsb = true := by
      simp [Xfer.step, xferIn, hreset]
    rw [if_pos hcsb, if_pos hcsb]

theorem Inv.step (h : Inv memory i.toMemioIn s)
    (mode : s.memio.softreset = false → Memio.SingleMode s.memio.config)
    (hhost : i.resetn = true → i.valid = true → s.ready i = false →
      i'.valid = true ∧ i'.addr = i.addr) :
    Inv memory i' (s.step memory i) := by
  by_cases hrestart : i.resetn = false ∨ s.memio.softreset = true
  · exact Inv.restart hrestart
  have hr : i.resetn = true := by
    by_contra hr
    exact hrestart (Or.inl (by simpa using hr))
  have hs : s.memio.softreset = false := by
    by_contra hs
    exact hrestart (Or.inr (by simpa using hs))
  obtain ⟨hen, hplain, hphase⟩ := h.phase hs
  have hnext : PhaseAfter memory i s i' := hphase.step hen (mode hs) hplain (hhost hr)
  have hmemio : (s.step memory i).memio = { s.memio.active i.toMemioIn (xferOut i s) with
      softreset := s.memio.softresetStep i.toMemioIn
      config := Memio.configStep i.toMemioIn s.memio.config } := Memio.step_active hr hs
  refine ⟨fun hv => ?_, fun hsoft => ?_⟩
  · rw [hmemio] at hv ⊢
    exact hnext.rdata hv
  · have hsoft : s.memio.softresetStep i.toMemioIn = false := by rw [← hsoft, hmemio]
    obtain ⟨-, -, hconfig⟩ := Memio.softresetStep_eq_false hsoft
    have hen' : (s.step memory i).memio.config.en = true := by
      rw [hmemio, hconfig]
      exact hen
    have hplain' := hplain.active (i := i.toMemioIn) (o := xferOut i s) (mode hs) hphase.state_ne
    refine ⟨hen', ?_, ?_⟩
    · rw [hmemio]
      exact ⟨hplain'.qspi, hplain'.ddr, hplain'.rd⟩
    · rw [step_flash hen hen' hphase.drives]
      exact Phase.congr hnext (by rw [hmemio])

end FlashSystem

/-- Whatever the host reads, in whatever order and after whatever pauses, is what the flash holds. -/
theorem reads_flash (memory : BitVec 24 → BitVec 8) (env : ℕ → FlashIn) (s : ℕ → FlashSystem)
    (hstep : ∀ n, s (n + 1) = (s n).step memory (env n)) (n₀ : ℕ)
    (hreset : (env n₀).resetn = false)
    (hmode : ∀ n, n₀ < n → Memio.SingleMode (s n).memio.config)
    (hhost : ∀ n, (env n).resetn = true → (env n).valid = true → (s n).ready (env n) = false →
      (env (n + 1)).valid = true ∧ (env (n + 1)).addr = (env n).addr)
    (n : ℕ) (hn : n₀ < n) (hready : (s n).ready (env n) = true) :
    (s n).memio.rdata = flashWord memory (env n).addr := by
  have hinv : FlashSystem.Inv memory (env n).toMemioIn (s n) := by
    clear hready
    induction n, hn using Nat.le_induction with
    | base =>
      rw [hstep n₀]
      exact FlashSystem.Inv.restart (Or.inl hreset)
    | succ n hn ih =>
      rw [hstep n]
      exact ih.step (fun _ => hmode n hn) (hhost n)
  simp only [FlashSystem.ready, Memio.ready, Bool.and_eq_true, beq_iff_eq] at hready
  obtain ⟨⟨-, haddr⟩, hvalid⟩ := hready
  rw [haddr]
  exact hinv.rdata hvalid

/-- A host that reads the words at `000100` and `000104` after reset, pauses for twenty cycles and
    then reads the word at `000220`. -/
def threeReads (n : ℕ) : FlashIn where
  resetn := n != 0
  valid := decide (n ≤ 232) || decide (253 ≤ n)
  addr := if n ≤ 168 then 0x000100 else if n ≤ 252 then 0x000104 else 0x000220
  cfgregWe := 0
  cfgregDi := 0
  io := 0

def countingFlash (a : BitVec 24) : BitVec 8 := a.extractLsb' 0 8 + 1

def threeReadsRun : ℕ → FlashSystem := Clocked.run (FlashSystem.step countingFlash) threeReads default

theorem threeReadsRun_config (n : ℕ) :
    (threeReadsRun (n + 1)).memio.config = Memio.configStep (threeReads 0).toMemioIn default := by
  induction n with
  | zero => rfl
  | succ n ih =>
    have hkeep (c : MemioConfig) : Memio.configStep (threeReads (n + 1)).toMemioIn c = c := by
      simp [Memio.configStep, threeReads]
    exact (hkeep _).trans ih

theorem threeReadsRun_ready : (threeReadsRun 168).ready (threeReads 168) = true
    ∧ (threeReadsRun 232).ready (threeReads 232) = true
    ∧ (threeReadsRun 384).ready (threeReads 384) = true := by
  decide +kernel

/-- The host holds each read until its answer. -/
theorem threeReads_host (n : ℕ) (hv : (threeReads n).valid = true)
    (hready : (threeReadsRun n).ready (threeReads n) = false) :
    (threeReads (n + 1)).valid = true ∧ (threeReads (n + 1)).addr = (threeReads n).addr := by
  obtain ⟨hone, htwo, -⟩ := threeReadsRun_ready
  have hne : n ≠ 168 ∧ n ≠ 232 := by
    constructor
    · rintro rfl
      rw [hone] at hready
      cases hready
    · rintro rfl
      rw [htwo] at hready
      cases hready
  simp only [threeReads, Bool.or_eq_true, decide_eq_true_eq] at hv ⊢
  refine ⟨by omega, ?_⟩
  split_ifs <;> first | rfl | omega

/-- A cold read, the next word, and a jump after a pause. -/
theorem reads_flash_threeReads :
    (threeReadsRun 168).memio.rdata = flashWord countingFlash 0x000100
      ∧ (threeReadsRun 232).memio.rdata = flashWord countingFlash 0x000104
      ∧ (threeReadsRun 384).memio.rdata = flashWord countingFlash 0x000220 := by
  obtain ⟨hone, htwo, hthree⟩ := threeReadsRun_ready
  have hreads := reads_flash countingFlash threeReads threeReadsRun (fun _ => rfl) 0 rfl
    (fun n hn => by
      obtain ⟨m, rfl⟩ := Nat.exists_eq_add_of_lt hn
      rw [Nat.zero_add, threeReadsRun_config]
      exact ⟨rfl, rfl, rfl⟩)
    fun n _ => threeReads_host n
  exact ⟨hreads 168 (by decide) hone, hreads 232 (by decide) htwo, hreads 384 (by decide) hthree⟩

end PicoSoc.System
