import PicoSoc.System.Firmware
import PicoSoc.TinyJambu.RoundTrip

set_option autoImplicit false

/-! # The TinyJAMBU tests of the firmware (`test_tinyjambu`)

`jb_test` passes exactly on test vectors that agree with TinyJAMBU-128, whatever the registers held
before and however long the processor takes between two accesses. -/

namespace PicoSoc.Firmware

open Bytes Clocked Mmio PicoSoc.System

/-! ## Driver -/

/-- `JB(off)` -/
def jb (off : Word) : Word := 0x30000000 + off
def jbCtrl : Word := jb 0x44
def jbStatus : Word := jb 0x48

/-- `if (!enc_ok) { … }` -/
def jbDebug (encOk : Bool) (ct expCt : Words4) (tag expTag : Words2) : Prog Unit :=
  if encOk then pure () else do
    ps "#     Debug ct: "
    pc (if ct.w3 = expCt.w3 then '1' else '0')
    pc (if ct.w2 = expCt.w2 then '1' else '0')
    pc (if ct.w1 = expCt.w1 then '1' else '0')
    pc (if ct.w0 = expCt.w0 then '1' else '0')
    pc '\n'
    ps "#     Debug tg: "
    pc (if tag.w1 = expTag.w1 then '1' else '0')
    pc (if tag.w0 = expTag.w0 then '1' else '0')
    pc '\n'

def jbTest (label : String) (key : Words4) (nonce : Words3) (ad : Words4) (adlen : Word)
    (pt expCt : Words4) (mlen : Word) (expTag : Words2) : Prog Bool := do
  ps "# -- "
  ps label
  ps " --\n"
  ps "# key:       "
  p128 key
  pc '\n'
  ps "# nonce:     "
  p96 nonce
  pc '\n'
  ps "# ad:        "
  p128 ad
  pc '\n'
  ps "# plaintext: "
  p128 pt
  pc '\n'
  ln
  -- encrypt
  store4 (jb 0x00) (jb 0x04) (jb 0x08) (jb 0x0C) key
  store3 (jb 0x10) (jb 0x14) (jb 0x18) nonce
  store4 (jb 0x1C) (jb 0x20) (jb 0x24) (jb 0x28) ad
  store4 (jb 0x2C) (jb 0x30) (jb 0x34) (jb 0x38) pt
  store jbCtrl ((1 : Word) <<< 16 ||| adlen <<< 8 ||| mlen)
  waitUntil jbStatus fun w => w &&& 0x02 != 0
  let ct ← load4 (jb 0x4C) (jb 0x50) (jb 0x54) (jb 0x58)
  let tag ← load2 (jb 0x5C) (jb 0x60)
  ps "# ciphertext: "
  p128 ct
  pc '\n'
  ps "# tag:        "
  p64 tag
  pc '\n'
  let encOk := ct == expCt && tag == expTag
  ps "#   ENCRYPT: "
  ps (if encOk then "PASS" else "FAIL")
  pc '\n'
  jbDebug encOk ct expCt tag expTag
  ln
  -- decrypt
  store4 (jb 0x00) (jb 0x04) (jb 0x08) (jb 0x0C) key
  store3 (jb 0x10) (jb 0x14) (jb 0x18) nonce
  store4 (jb 0x1C) (jb 0x20) (jb 0x24) (jb 0x28) ad
  store4 (jb 0x2C) (jb 0x30) (jb 0x34) (jb 0x38) ct
  store2 (jb 0x3C) (jb 0x40) tag
  store jbCtrl ((2 : Word) <<< 16 ||| adlen <<< 8 ||| mlen)
  waitUntil jbStatus fun w => w &&& 0x02 != 0
  let dec ← load4 (jb 0x4C) (jb 0x50) (jb 0x54) (jb 0x58)
  let status ← load jbStatus
  let valid := status &&& 0x01 != 0
  ps "# plaintext: "
  p128 dec
  pc '\n'
  ps "# valid:     "
  pc (if valid then '1' else '0')
  pc '\n'
  let decOk := valid && dec == pt
  ps "#   DECRYPT: "
  ps (if decOk then "PASS" else "FAIL")
  pc '\n'
  ln
  return encOk && decOk

def testTinyjambu : Prog Bool := do
  ps "# [CORE 1] TinyJAMBU AEAD (4 test vectors)\n"
  ln
  let ok1 ← jbTest "TC1: ad=12B msg=12B"
    ⟨0x628D2DDB, 0x405D3CCD, 0xC88A9CDD, 0x899CD0F7⟩ ⟨0xD7F6659B, 0x89158AF8, 0x535E438A⟩
    ⟨0xF1C8D2B4, 0xF0AC0C0E, 0x49A44D0E, 0x00000000⟩ 12
    ⟨0x3CDB944B, 0x89F0E435, 0x3BF1A7D2, 0x00000000⟩
    ⟨0xEEC62B82, 0x569A77BB, 0x8068A04A, 0x00000000⟩ 12 ⟨0x02A042A4, 0x47A938BB⟩
  let ok2 ← jbTest "TC2: ad=16B msg=16B"
    ⟨0x6b9df1b7, 0xb8b647dd, 0xa0bf5446, 0x2bbf8981⟩ ⟨0x47b2fa5d, 0xf8b84c8e, 0x62ab30be⟩
    ⟨0x150bba1e, 0x6549facd, 0x95d38ce0, 0xf37a89f6⟩ 16
    ⟨0xc8325fec, 0x14ab5fe6, 0x2a73580e, 0x40c8d8f2⟩
    ⟨0x3ebd5a89, 0x55e3d4f3, 0x3a77204b, 0x3730c94a⟩ 16 ⟨0x6ebdafd0, 0xfa0fe4e7⟩
  let ok3 ← jbTest "TC3: ad=10B msg=3B"
    ⟨0x0C0D0E0F, 0x08090A0B, 0x04050607, 0x00010203⟩ ⟨0x08090A0B, 0x04050607, 0x00010203⟩
    ⟨0x06070809, 0x02030405, 0x00000001, 0x00000000⟩ 10
    ⟨0x00000102, 0x00000000, 0x00000000, 0x00000000⟩
    ⟨0x0002D9F6, 0x00000000, 0x00000000, 0x00000000⟩ 3 ⟨0x51B453CD, 0x67431DBB⟩
  let ok4 ← jbTest "TC4: ad=15B msg=8B"
    ⟨0x0C0D0E0F, 0x08090A0B, 0x04050607, 0x00010203⟩ ⟨0x08090A0B, 0x04050607, 0x00010203⟩
    ⟨0x0B0C0D0E, 0x0708090A, 0x03040506, 0x00000102⟩ 15
    ⟨0x04050607, 0x00010203, 0x00000000, 0x00000000⟩
    ⟨0xB2CD4009, 0xF890838D, 0x00000000, 0x00000000⟩ 8 ⟨0xF991CD3A, 0x371A52DE⟩
  ps "# -- TC5: tampered tag (expect REJECT) _ Nguyen Minh Anh  --\n"
  store4 (jb 0x00) (jb 0x04) (jb 0x08) (jb 0x0C)
    ⟨0x628D2DDB, 0x405D3CCD, 0xC88A9CDD, 0x899CD0F7⟩
  store3 (jb 0x10) (jb 0x14) (jb 0x18) ⟨0xD7F6659B, 0x89158AF8, 0x535E438A⟩
  store4 (jb 0x1C) (jb 0x20) (jb 0x24) (jb 0x28)
    ⟨0xF1C8D2B4, 0xF0AC0C0E, 0x49A44D0E, 0x00000000⟩
  store4 (jb 0x2C) (jb 0x30) (jb 0x34) (jb 0x38)
    ⟨0xF04D0F20, 0xF3BEB3F2, 0x73C2C23A, 0x00000000⟩
  store2 (jb 0x3C) (jb 0x40) ⟨0x1DEC6827 ^^^ 0xCAFEBABE, 0xE0D0722E ^^^ 0xDEADBEEF⟩
  store jbCtrl ((2 : Word) <<< 16 ||| (12 : Word) <<< 8 ||| 12)
  waitUntil jbStatus fun w => w &&& 0x02 != 0
  let status ← load jbStatus
  let ok5 := !(status &&& 0x01 != 0)
  ps "#   REJECT: "
  ps (if ok5 then "PASS" else "FAIL")
  pc '\n'
  ln
  let pass := ok1 && ok2 && ok3 && ok4 && ok5
  ps (if pass then "# TinyJAMBU: ALL 5 TESTS PASS\n" else "# TinyJAMBU: FAILED\n")
  ln
  return pass

/-! ## The accelerator -/

theorem jambuSlot_lawful : jambuSlot.Lawful where
  regs_step := fun boot i s => (accelerators_step boot i s).1
  core_step := fun _ _ _ => rfl
  sticky_step := fun _ _ _ => rfl
  above := by decide
  start_clear := fun _ => rfl
  clear_clear := fun _ => rfl
  rest := by
    intro r c hstart hidle
    let s : Soc := { sampleSoc with
      bus := { Bus.initial with regs := { Regs.initial with jb := r } }
      jb := c }
    obtain ⟨hidle', hout⟩ := jambu_machine.rest s hidle hstart
    exact ⟨hidle', hout, jambu_machine.quiet s hidle⟩

theorem jambu_computes {r : JambuRegs} (hena : r.ena = true) :
    jambuSlot.Computes r
      ((TinyJambu.result (jbCoreIn r)).dataOut, (TinyJambu.result (jbCoreIn r)).tag)
      (TinyJambu.result (jbCoreIn r)).valid := by
  intro c hc
  have hheld : TinyJambu.Held (jambuSlot.opEnv r) := by
    intro n _
    rcases Nat.eq_zero_or_pos n with rfl | hn
    · exact congrArg (fun b => { jbCoreIn r with ena := b }) hena.symm
    · rw [Slot.opEnv, if_neg (by omega)]
      exact congrArg (fun b => { jbCoreIn r with ena := b }) hena.symm
  have hstart : (jambuSlot.opEnv r 0).ena = true := hena
  obtain ⟨hdone, hidle, hdp⟩ := TinyJambu.run_op hc hstart hheld
  refine ⟨_, hdone, hidle, ?_, congrArg TinyJambu.Datapath.valid hdp⟩
  exact congrArg (fun d : TinyJambu.Datapath => (d.dataOut, d.tag)) hdp

theorem jb_status (boot : Ram bootSize) (i : SocIn) (s : Soc) (h : i.reads jbStatus) :
    ∃ d, (Soc.step boot i s).bus.memRdata = some d
      ∧ (d &&& 0x02 != 0) = (jambuSlot.sticky s).done :=
  ⟨_, memRdata_step boot i s h rfl, done_status s.jbSticky.done s.jbSticky.valid⟩

section

variable {r : JambuRegs} {o : BitVec 128 × BitVec 64} {k : Sticky}

/-- A read of one of the result registers. -/
theorem jb_shows {addr : Word} (f : BitVec 128 × BitVec 64 → Word)
    (haddr : ∀ p r, (fastReads p r).lookup addr = some (f (p.jbDataOut, p.jbTagOut))) :
    Shows jambuSlot r o k addr (f o) :=
  shows_of_reads (p := fun q => (q.jbDataOut, q.jbTagOut)) (fun _ _ => rfl) f haddr

theorem jb_showsStatus : Shows jambuSlot r o k jbStatus
    (0#30 ++ BitVec.ofBool k.done ++ BitVec.ofBool k.valid) := by
  intro boot i s hrest h
  rw [← hrest.sticky]
  exact memRdata_step boot i s h rfl

end

/-! ## One operation -/

/-- The registers with the operands. -/
def jbLoaded (r : JambuRegs) (key : Words4) (nonce : Words3) (ad data : Words4) : JambuRegs :=
  { r with key := key.pack, nonce := nonce.pack, ad := ad.pack, dataIn := data.pack }

/-- The registers with the fields of CTRL. -/
def jbStarted (r : JambuRegs) (mode : BitVec 3) (adlen mlen : Word) : JambuRegs :=
  { r with
    selType := mode
    adLength := adlen.setWidth 5
    dataLength := mlen.setWidth 5
    ena := true }

section

variable {boot : Ram bootSize} {F : Soc → Prop} {r : JambuRegs} {o : BitVec 128 × BitVec 64}
  {k : Sticky} {β : Type} {Q : β → Soc → Prop} (hF : Frame boot (Labels jambuSlot) F)

include hF

/-- The operands of an operation. -/
theorem ends_jbOperands (key : Words4) (nonce : Words3) (ad data : Words4) {g : Unit → Prog β}
    (hg : Ends (socTarget boot) (jambuSlot.At F (jbLoaded r key nonce ad data) o k) (g ()) Q) :
    Ends (socTarget boot) (jambuSlot.At F r o k)
      (store4 (jb 0x00) (jb 0x04) (jb 0x08) (jb 0x0C) key >>= fun _ =>
        store3 (jb 0x10) (jb 0x14) (jb 0x18) nonce >>= fun _ =>
          store4 (jb 0x1C) (jb 0x20) (jb 0x24) (jb 0x28) ad >>= fun _ =>
            store4 (jb 0x2C) (jb 0x30) (jb 0x34) (jb 0x38) data >>= g) Q := by
  refine ends_store4 jambuSlot_lawful hF (p := JambuRegs.putKey) rfl rfl rfl rfl
    (fun _ _ _ => rfl) _ ?_
  refine ends_store3 jambuSlot_lawful hF (p := JambuRegs.putNonce) rfl rfl rfl
    (fun _ _ _ => rfl) _ ?_
  refine ends_store4 jambuSlot_lawful hF (p := JambuRegs.putAd) rfl rfl rfl rfl
    (fun _ _ _ => rfl) _ ?_
  refine ends_store4 jambuSlot_lawful hF (p := JambuRegs.putDataIn) rfl rfl rfl rfl
    (fun _ _ _ => rfl) _ ?_
  simp only [JambuRegs.putKey, JambuRegs.putNonce, JambuRegs.putAd, JambuRegs.putDataIn,
    putWord_pack4, putWord_pack3]
  exact hg

/-- CTRL, and STATUS until `done`. -/
theorem ends_jbOperation (mode : BitVec 3) (adlen mlen : Word) (had : adlen.toNat < 32)
    (hmlen : mlen.toNat < 32) {g : Unit → Prog β}
    (hg : Ends (socTarget boot) (jambuSlot.At F
      (jambuSlot.clear (jbStarted r mode adlen mlen))
      ((TinyJambu.result (jbCoreIn (jbStarted r mode adlen mlen))).dataOut,
        (TinyJambu.result (jbCoreIn (jbStarted r mode adlen mlen))).tag)
      ⟨true, (TinyJambu.result (jbCoreIn (jbStarted r mode adlen mlen))).valid⟩) (g ()) Q) :
    Ends (socTarget boot) (jambuSlot.At F r o k)
      (store jbCtrl (mode.setWidth 32 <<< 16 ||| adlen <<< 8 ||| mlen) >>= fun _ =>
        waitUntil jbStatus (fun w => w &&& 0x02 != 0) >>= g) Q := by
  have hctrl : JambuRegs.ctrl (mode.setWidth 32 <<< 16 ||| adlen <<< 8 ||| mlen) r =
      jbStarted r mode adlen mlen := by
    obtain ⟨hmode, had', hmlen'⟩ := ctrl_fields mode had hmlen
    rw [JambuRegs.ctrl, hmode, had', hmlen', jbStarted]
  have hcomp := jambu_computes (r := jbStarted r mode adlen mlen) rfl
  rw [← hctrl] at hcomp hg
  exact jambuSlot_lawful.ends_operation hF (.inr ⟨_, rfl⟩) (f := JambuRegs.ctrl) rfl rfl hcomp
    jb_status hg

/-- The output of an operation. -/
theorem ends_jbOut {g : Words4 → Prog β}
    (hg : Ends (socTarget boot) (jambuSlot.At F r o k) (g (.unpack o.1)) Q) :
    Ends (socTarget boot) (jambuSlot.At F r o k)
      (load4 (jb 0x4C) (jb 0x50) (jb 0x54) (jb 0x58) >>= g) Q :=
  ends_load4 jambuSlot_lawful hF (w := .unpack o.1)
    (jb_shows (fun o => o.1.extractLsb' 0 32) fun _ _ => rfl)
    (jb_shows (fun o => o.1.extractLsb' 32 32) fun _ _ => rfl)
    (jb_shows (fun o => o.1.extractLsb' 64 32) fun _ _ => rfl)
    (jb_shows (fun o => o.1.extractLsb' 96 32) fun _ _ => rfl) hg

theorem ends_jbTag {g : Words2 → Prog β}
    (hg : Ends (socTarget boot) (jambuSlot.At F r o k) (g (.unpack o.2)) Q) :
    Ends (socTarget boot) (jambuSlot.At F r o k) (load2 (jb 0x5C) (jb 0x60) >>= g) Q :=
  ends_load2 jambuSlot_lawful hF (w := .unpack o.2)
    (jb_shows (fun o => o.2.extractLsb' 0 32) fun _ _ => rfl)
    (jb_shows (fun o => o.2.extractLsb' 32 32) fun _ _ => rfl) hg

end

theorem ends_jbDebug {boot : Ram bootSize} {F : Soc → Prop} (hF : Frame boot Console F)
    (encOk : Bool) (ct expCt : Words4) (tag expTag : Words2) :
    Ends (socTarget boot) F (jbDebug encOk ct expCt tag expTag) fun _ => F := by
  have hpc (c : Char) := ends_pc hF c
  cases encOk with
  | true => exact Ends.ret fun _ hs => hs
  | false =>
    refine ends_then (ends_ps hF _) ?_
    refine ends_then (hpc _) <| ends_then (hpc _) <| ends_then (hpc _) <| ends_then (hpc _) ?_
    refine ends_then (hpc _) <| ends_then (ends_ps hF _) ?_
    exact ends_then (hpc _) <| ends_then (hpc _) (hpc _)

/-! ## The verdict -/

/-- Decryption of what an encryption leaves. -/
theorem jb_roundTrip {op : TinyJambu.CoreIn} (had : TinyJambu.InBlock op.adLength)
    (hdata : TinyJambu.InBlock op.dataLength) (hmode : op.selType = TinyJambu.modeEnc)
    {op' : TinyJambu.CoreIn} (hop' : op' = { op with
      selType := TinyJambu.modeDec
      dataIn := (TinyJambu.result op).dataOut
      tagIn := (TinyJambu.result op).tag }) :
    rightBytes op.dataLength.toNat (TinyJambu.result op').dataOut = op.dataBytes
      ∧ (TinyJambu.result op').valid = true := by
  obtain ⟨hout, htag⟩ := @TinyJambu.result_eq op had hdata false hmode
  have hround : op'.reference true = (op.dataBytes, (op.reference false).2) := by
    have hbytes : op'.dataBytes = (op.reference false).1 := by
      rw [hop']
      exact hout
    rw [TinyJambu.CoreIn.reference, hbytes, hop']
    exact TinyJambu.aead_aead op.keyBytes op.nonceBytes op.adBytes op.dataBytes
  have hmode' : op'.selType = TinyJambu.modeDec := by rw [hop']
  obtain ⟨hout', htag'⟩ := @TinyJambu.result_eq op' (by rw [hop']; exact had)
    (by rw [hop']; exact hdata) true hmode'
  rw [hround] at hout' htag'
  rw [TinyJambu.result_valid hmode', htag', ← htag]
  rw [hop'] at hout' ⊢
  exact ⟨hout', rfl⟩

/-- Ciphertext and tag of a test vector. -/
def jbSpec (key : Words4) (nonce : Words3) (ad : Words4) (adlen : Word) (pt : Words4)
    (mlen : Word) : List Byte × List Byte :=
  TinyJambu.Spec.aead false (rightBytes 16 key.pack) (rightBytes 12 nonce.pack)
    (rightBytes adlen.toNat ad.pack) (rightBytes mlen.toNat pt.pack)

section

variable {key : Words4} {nonce : Words3} {ad pt : Words4} {adlen mlen : Word}
  (had : adlen.toNat ≤ 16) (hmlen : mlen.toNat ≤ 16) {r : JambuRegs} {op : TinyJambu.CoreIn}
  (hop : op = jbCoreIn (jbStarted (jbLoaded r key nonce ad pt) 1 adlen mlen))

include had hmlen hop

theorem jb_lengths : op.adLength.toNat = adlen.toNat ∧ op.dataLength.toNat = mlen.toNat
    ∧ TinyJambu.InBlock op.adLength ∧ TinyJambu.InBlock op.dataLength := by
  have hadLength : op.adLength.toNat = adlen.toNat := by
    rw [hop]
    exact (BitVec.toNat_setWidth ..).trans (Nat.mod_eq_of_lt (by omega))
  have hlength : op.dataLength.toNat = mlen.toNat := by
    rw [hop]
    exact (BitVec.toNat_setWidth ..).trans (Nat.mod_eq_of_lt (by omega))
  exact ⟨hadLength, hlength, hadLength.le.trans had, hlength.le.trans hmlen⟩

/-- The encryption of a vector is that of the specification. -/
theorem jb_result :
    (rightBytes mlen.toNat (TinyJambu.result op).dataOut, rightBytes 8 (TinyJambu.result op).tag) =
        jbSpec key nonce ad adlen pt mlen
      ∧ ∀ i, mlen.toNat ≤ i → byteLE (TinyJambu.result op).dataOut i = 0 := by
  obtain ⟨hadLength, hlength, hadBlock, hdataBlock⟩ := jb_lengths had hmlen hop
  have hspec : op.reference false = jbSpec key nonce ad adlen pt mlen := by
    rw [TinyJambu.CoreIn.reference, TinyJambu.CoreIn.adBytes, TinyJambu.CoreIn.dataBytes, hadLength,
      hlength, hop]
    rfl
  obtain ⟨hout, htag⟩ := @TinyJambu.result_eq op hadBlock hdataBlock false
    (by rw [hop]; rfl)
  refine ⟨?_, fun i hi => TinyJambu.dataOut_unused hdataBlock (hlength.le.trans hi)⟩
  rw [← hspec, ← hlength, hout, htag]

/-- What `jb_test` compares. -/
theorem jb_verdict (expCt : Words4) (expTag : Words2) {op' : TinyJambu.CoreIn} {ct dec : Words4}
    {tag : Words2}
    (hop' : op' = { op with
      selType := TinyJambu.modeDec
      dataIn := (TinyJambu.result op).dataOut
      tagIn := (TinyJambu.result op).tag })
    (hct : (TinyJambu.result op).dataOut = ct.pack) (htag : (TinyJambu.result op).tag = tag.pack)
    (hdec : (TinyJambu.result op').dataOut = dec.pack) :
    ((ct == expCt && tag == expTag) && ((TinyJambu.result op').valid && dec == pt)) = true ↔
      (rightBytes mlen.toNat expCt.pack, rightBytes 8 expTag.pack) =
          jbSpec key nonce ad adlen pt mlen
        ∧ Padded mlen.toNat expCt ∧ Padded mlen.toNat pt := by
  obtain ⟨-, hlength, hadBlock, hdataBlock⟩ := jb_lengths had hmlen hop
  have hlength' : op'.dataLength = op.dataLength := by
    rw [hop']
  have hmessage : op.dataBytes = rightBytes mlen.toNat pt.pack := by
    rw [TinyJambu.CoreIn.dataBytes, hlength, hop]
    rfl
  obtain ⟨hbytes, hvalid⟩ := jb_roundTrip hadBlock hdataBlock (by rw [hop]; rfl) hop'
  obtain ⟨hspec, hunused⟩ := jb_result had hmlen hop
  rw [hlength] at hbytes
  have hunused' (i : ℕ) (hi : mlen.toNat ≤ i) : byteLE (TinyJambu.result op').dataOut i = 0 :=
    TinyJambu.dataOut_unused (by rw [hlength']; exact hdataBlock)
      (by rw [hlength']; exact hlength.le.trans hi)
  rw [Bool.and_eq_true, Bool.and_eq_true, Bool.and_eq_true, beq_iff_eq, beq_iff_eq,
    beq_iff_eq, ← Words4.pack_inj, ← Words2.pack_inj, ← Words4.pack_inj, ← hct, ← htag, ← hdec,
    hvalid, eq_comm (a := (TinyJambu.result op).tag), ← TinyJambu.rightBytes_inj (n := 8),
    eq_pack_iff hunused, eq_pack_iff hunused', hbytes, hmessage, ← hspec, Prod.ext_iff]
  constructor
  · rintro ⟨⟨⟨hc, hpad⟩, ht⟩, -, -, hpad'⟩
    exact ⟨⟨hc, ht⟩, hpad, hpad'⟩
  · rintro ⟨⟨hc, ht⟩, hpad, hpad'⟩
    exact ⟨⟨⟨hc, hpad⟩, ht⟩, rfl, rfl, hpad'⟩

end

variable {boot : Ram bootSize} {F : Soc → Prop}

/-- The test ends, and passes if and only if the vector is one of TinyJAMBU-128. -/
theorem jbTest_ends (hF : Frame boot (Labels jambuSlot) F) (label : String) (key : Words4)
    (nonce : Words3) (ad : Words4) {adlen : Word} (had : adlen.toNat ≤ 16) (pt expCt : Words4)
    {mlen : Word} (hmlen : mlen.toNat ≤ 16) (expTag : Words2) :
    Ends (socTarget boot) (fun s => ∃ r o k, jambuSlot.At F r o k s)
      (jbTest label key nonce ad adlen pt expCt mlen expTag) fun ok s =>
        (ok = true ↔ (rightBytes mlen.toNat expCt.pack, rightBytes 8 expTag.pack) =
            jbSpec key nonce ad adlen pt mlen
          ∧ Padded mlen.toNat expCt ∧ Padded mlen.toNat pt)
        ∧ ∃ r o k, jambuSlot.At F r o k s := by
  refine Ends.exists fun r => Ends.exists fun o => Ends.exists fun k => ?_
  have hprint {r o k} : Frame boot Console (jambuSlot.At F r o k) := frame_at jambuSlot_lawful hF
  refine ends_then (ends_ps hprint _) ?_
  refine ends_then (ends_ps hprint _) ?_
  refine ends_then (ends_ps hprint _) ?_
  refine ends_line hprint _ (ends_p128 hprint key) ?_
  refine ends_line hprint _ (ends_p96 hprint nonce) ?_
  refine ends_line hprint _ (ends_p128 hprint ad) ?_
  refine ends_line hprint _ (ends_p128 hprint pt) ?_
  refine ends_then (ends_ln hprint) ?_
  -- encryption
  refine ends_jbOperands hF key nonce ad pt ?_
  refine ends_jbOperation hF 1 adlen mlen (by omega) (by omega) ?_
  generalize hop : jbCoreIn _ = op
  generalize jambuSlot.clear _ = r
  refine ends_jbOut hF ?_
  refine ends_jbTag hF ?_
  have hct := (Words4.eq_unpack (x := (TinyJambu.result op).dataOut)).1 rfl
  have htag := (Words2.eq_unpack (x := (TinyJambu.result op).tag)).1 rfl
  generalize Words4.unpack (TinyJambu.result op).dataOut = ct at hct ⊢
  generalize Words2.unpack (TinyJambu.result op).tag = tag at htag ⊢
  refine ends_line hprint _ (ends_p128 hprint ct) ?_
  refine ends_line hprint _ (ends_p64 hprint tag) ?_
  refine ends_line hprint _ (ends_ps hprint _) ?_
  refine ends_then (ends_jbDebug hprint _ _ _ _ _) ?_
  refine ends_then (ends_ln hprint) ?_
  -- decryption
  refine ends_jbOperands hF key nonce ad ct ?_
  refine ends_store2 jambuSlot_lawful hF (p := JambuRegs.putTagIn) rfl rfl (fun _ _ _ => rfl)
    tag ?_
  refine ends_jbOperation hF 2 adlen mlen (by omega) (by omega) ?_
  generalize hop' : jbCoreIn _ = op'
  refine ends_jbOut hF ?_
  have hdec := (Words4.eq_unpack (x := (TinyJambu.result op').dataOut)).1 rfl
  generalize Words4.unpack (TinyJambu.result op').dataOut = dec at hdec ⊢
  refine jambuSlot_lawful.ends_load hF jb_showsStatus ?_
  refine ends_line hprint _ (ends_p128 hprint dec) ?_
  refine ends_line hprint _ (ends_pc hprint _) ?_
  refine ends_line hprint _ (ends_ps hprint _) ?_
  refine ends_then (ends_ln hprint) ?_
  refine Ends.ret fun s hs => ⟨?_, _, _, _, hs⟩
  rw [valid_status]
  exact jb_verdict had hmlen hop.symm expCt expTag
    (by rw [hct, htag, ← hop', ← hop, ← putWord_pack2]; rfl) hct htag hdec

/-! ## The vectors of the firmware -/

/-- A vector that the core computes is one of TinyJAMBU-128. -/
theorem jbTest_passes (hF : Frame boot (Labels jambuSlot) F) (label : String) {key : Words4}
    {nonce : Words3} {ad : Words4} {adlen : Word} (had : adlen.toNat ≤ 16) {pt expCt : Words4}
    {mlen : Word} (hmlen : mlen.toNat ≤ 16) {expTag : Words2}
    (hvector : (TinyJambu.result (jbCoreIn (jbStarted (jbLoaded .reset key nonce ad pt) 1 adlen
      mlen))).dataOut = expCt.pack ∧ (TinyJambu.result (jbCoreIn (jbStarted (jbLoaded .reset key
        nonce ad pt) 1 adlen mlen))).tag = expTag.pack) (hpad : Padded mlen.toNat pt) :
    Ends (socTarget boot) (fun s => ∃ r o k, jambuSlot.At F r o k s)
      (jbTest label key nonce ad adlen pt expCt mlen expTag) fun ok s =>
        ok = true ∧ ∃ r o k, jambuSlot.At F r o k s := by
  refine (jbTest_ends hF label key nonce ad had pt expCt hmlen expTag).mono (fun _ hs => hs)
    fun ok s hs => ⟨hs.1.2 ?_, hs.2⟩
  obtain ⟨hct, htag⟩ := hvector
  have hop := Eq.refl (jbCoreIn (jbStarted (jbLoaded .reset key nonce ad pt) 1 adlen mlen))
  obtain ⟨hspec, hunused⟩ := jb_result had hmlen hop
  rw [hct] at hspec hunused
  rw [htag] at hspec
  exact ⟨hspec, hunused, hpad⟩

/-- What the registers held before an operation with a tag does not count. -/
theorem jbCoreIn_loaded (r r' : JambuRegs) (key : Words4) (nonce : Words3) (ad data : Words4)
    (tag : Words2) (mode : BitVec 3) (adlen mlen : Word) :
    jbCoreIn (jbStarted (JambuRegs.putTagIn 1 tag.w1 (JambuRegs.putTagIn 0 tag.w0
        (jbLoaded r key nonce ad data))) mode adlen mlen) =
      jbCoreIn (jbStarted (JambuRegs.putTagIn 1 tag.w1 (JambuRegs.putTagIn 0 tag.w0
        (jbLoaded r' key nonce ad data))) mode adlen mlen) := by
  simp only [JambuRegs.putTagIn, putWord_pack2]
  rfl

/-- All five tests pass. -/
theorem testTinyjambu_ends (hF : Frame boot (Labels jambuSlot) F) :
    Ends (socTarget boot) (fun s => ∃ r o k, jambuSlot.At F r o k s) testTinyjambu fun ok s =>
      ok = true ∧ ∃ r o k, jambuSlot.At F r o k s := by
  have hall := frame_some jambuSlot_lawful hF
  have hprint {r o k} : Frame boot Console (jambuSlot.At F r o k) := frame_at jambuSlot_lawful hF
  refine ends_then (ends_ps hall _) ?_
  refine ends_then (ends_ln hall) ?_
  refine ends_pass (jbTest_passes hF _ (by decide) (by decide) (by decide +kernel) (by decide)) ?_
  refine ends_pass (jbTest_passes hF _ (by decide) (by decide) (by decide +kernel) (by decide)) ?_
  refine ends_pass (jbTest_passes hF _ (by decide) (by decide) (by decide +kernel) (by decide)) ?_
  refine ends_pass (jbTest_passes hF _ (by decide) (by decide) (by decide +kernel) (by decide)) ?_
  refine ends_then (ends_ps hall _) ?_
  refine Ends.exists fun r => Ends.exists fun o => Ends.exists fun k => ?_
  refine ends_jbOperands hF _ _ _ _ ?_
  refine ends_store2 jambuSlot_lawful hF (p := JambuRegs.putTagIn) rfl rfl (fun _ _ _ => rfl)
    _ ?_
  refine ends_jbOperation hF 2 12 12 (by decide) (by decide) ?_
  refine jambuSlot_lawful.ends_load hF jb_showsStatus ?_
  refine ends_line hprint _ (ends_ps hprint _) ?_
  refine ends_then (ends_ln hprint) ?_
  refine ends_then (ends_ps hprint _) ?_
  refine ends_then (ends_ln hprint) ?_
  refine Ends.ret fun s hs => ⟨?_, _, _, _, hs⟩
  rw [valid_status, jbCoreIn_loaded r .reset]
  decide +kernel

/-! ## A test on the system -/

/-- On every system with the accelerator at rest `jb_test` ends, and passes if and only if the
    vector is one of TinyJAMBU-128 and has zeros past its ends. -/
theorem jb_test_correct (boot : Ram bootSize) (label : String) (key : Words4) (nonce : Words3)
    (ad : Words4) {adlen : Word} (had : adlen.toNat ≤ 16) (pt expCt : Words4) {mlen : Word}
    (hmlen : mlen.toNat ≤ 16) (expTag : Words2) {env : ℕ → Mmio.Cycle HostIn} (hfair : Fair env)
    {s : Soc} (hs : ∃ r o k, jambuSlot.Resting r o k s) :
    Returns (socTarget boot) env
      ⟨.ready (jbTest label key nonce ad adlen pt expCt mlen expTag), s⟩ fun ok s' =>
        (ok = true ↔ (rightBytes mlen.toNat expCt.pack, rightBytes 8 expTag.pack) =
            jbSpec key nonce ad adlen pt mlen
          ∧ Padded mlen.toNat expCt ∧ Padded mlen.toNat pt)
        ∧ ∃ r o k, jambuSlot.Resting r o k s' := by
  obtain ⟨r, o, k, hs⟩ := hs
  refine (jbTest_ends (.true boot _) label key nonce ad had pt expCt hmlen expTag).mono
    (fun _ h => h) (fun ok s' h => ⟨h.1, ?_⟩) env hfair s ⟨r, o, k, hs, trivial⟩
  obtain ⟨-, r', o', k', hs', -⟩ := h
  exact ⟨r', o', k', hs'⟩

theorem jb_test_correct_third : Returns (socTarget emptyBoot) promptEnv
    ⟨.ready (jbTest "TC3: ad=10B msg=3B" ⟨0x0C0D0E0F, 0x08090A0B, 0x04050607, 0x00010203⟩
      ⟨0x08090A0B, 0x04050607, 0x00010203⟩ ⟨0x06070809, 0x02030405, 0x00000001, 0x00000000⟩ 10
      ⟨0x00000102, 0, 0, 0⟩ ⟨0x0002D9F6, 0, 0, 0⟩ 3 ⟨0x51B453CD, 0x67431DBB⟩),
      sampleSoc.reset emptyBoot noAccess⟩ fun ok s' =>
        (ok = true ↔ (rightBytes 3 (Words4.pack ⟨0x0002D9F6, 0, 0, 0⟩),
            rightBytes 8 (Words2.pack ⟨0x51B453CD, 0x67431DBB⟩)) =
          jbSpec ⟨0x0C0D0E0F, 0x08090A0B, 0x04050607, 0x00010203⟩
            ⟨0x08090A0B, 0x04050607, 0x00010203⟩
            ⟨0x06070809, 0x02030405, 0x00000001, 0x00000000⟩ 10 ⟨0x00000102, 0, 0, 0⟩ 3
          ∧ Padded 3 ⟨0x0002D9F6, 0, 0, 0⟩ ∧ Padded 3 ⟨0x00000102, 0, 0, 0⟩)
        ∧ ∃ r o k, jambuSlot.Resting r o k s' :=
  jb_test_correct emptyBoot _ _ _ _ (by decide) _ _ (by decide) _ promptEnv_fair
    ⟨.reset, _, ⟨false, false⟩, rfl, rfl, rfl, rfl, rfl, rfl⟩

end PicoSoc.Firmware
