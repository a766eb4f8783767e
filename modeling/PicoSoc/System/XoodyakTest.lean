import PicoSoc.System.Firmware
import PicoSoc.Xoodyak.ReadBack

set_option autoImplicit false

/-! # The Xoodyak test of the firmware (`test_xoodyak`)

Fourteen bytes of message with nine of associated data. The ciphertext goes back as it was read, so
the two bytes past its end matter for the tag; the comparisons mask them. -/

namespace PicoSoc.Firmware

open Bytes Clocked Mmio PicoSoc.System

/-! ## Driver -/

/-- `XD(off)` -/
def xd (off : Word) : Word := 0x40000000 + off
def xdCtrl : Word := xd 0x50
def xdStatus : Word := xd 0x54

/-- `if (!(ct_ok && tag_ok)) { … }` -/
def xdDebug (ok : Bool) (ct expCt tag expTag : Words4) : Prog Unit :=
  if ok then pure () else do
    ps "#     Debug ct: "
    pc (if ct.w3 = expCt.w3 then '1' else '0')
    pc (if ct.w2 = expCt.w2 then '1' else '0')
    pc (if ct.w1 = expCt.w1 then '1' else '0')
    pc (if ct.w0 &&& 0xFFFF0000 = expCt.w0 &&& 0xFFFF0000 then '1' else '0')
    pc '\n'
    ps "#     Debug tg: "
    pc (if tag.w3 = expTag.w3 then '1' else '0')
    pc (if tag.w2 = expTag.w2 then '1' else '0')
    pc (if tag.w1 = expTag.w1 then '1' else '0')
    pc (if tag.w0 = expTag.w0 then '1' else '0')
    pc '\n'

/-- `(ct[3] == exp_ct[3]) && …`, without the two bytes past the message. -/
def xdSame (v w : Words4) : Bool :=
  v.w3 == w.w3 && v.w2 == w.w2 && v.w1 == w.w1 && v.w0 &&& 0xFFFF0000 == w.w0 &&& 0xFFFF0000

def testXoodyak : Prog Bool := do
  let key : Words4 := ⟨0x0c0d0e0f, 0x08090a0b, 0x04050607, 0x00010203⟩
  let nonce : Words4 := ⟨0x0c0d0e0f, 0x08090a0b, 0x04050607, 0x00010203⟩
  let ad : Words4 := ⟨0x00000000, 0x08000000, 0x04050607, 0x00010203⟩
  let pt : Words4 := ⟨0x0c0d0e00, 0x08090a0b, 0x04050607, 0x00010203⟩
  let expCt : Words4 := ⟨0x93090000, 0x6b339d70, 0x24fb2cc1, 0x76e90670⟩
  let expTag : Words4 := ⟨0xBF7B3E0B, 0x5607B323, 0x7579E7C0, 0xBD9C91A7⟩
  ps "# [CORE 2] Xoodyak AEAD (9B AD, 14B PT)\n"
  ln
  ps "# key:       "
  p128 key
  pc '\n'
  ps "# nonce: "
  p128 nonce
  pc '\n'
  ps "# ad:        "
  p128 ad
  pc '\n'
  ps "# plaintext: "
  p128 pt
  pc '\n'
  ln
  -- encrypt
  store outbyte 0x30
  store4 (xd 0x00) (xd 0x04) (xd 0x08) (xd 0x0C) key
  store4 (xd 0x10) (xd 0x14) (xd 0x18) (xd 0x1C) nonce
  store4 (xd 0x20) (xd 0x24) (xd 0x28) (xd 0x2C) ad
  store4 (xd 0x30) (xd 0x34) (xd 0x38) (xd 0x3C) pt
  store4 (xd 0x40) (xd 0x44) (xd 0x48) (xd 0x4C) ⟨0, 0, 0, 0⟩
  store xdCtrl ((1 : Word) <<< 16 ||| (9 : Word) <<< 8 ||| 14)
  waitUntil xdStatus fun w => w &&& 0x02 != 0
  let ct ← load4 (xd 0x58) (xd 0x5C) (xd 0x60) (xd 0x64)
  let tag ← load4 (xd 0x68) (xd 0x6C) (xd 0x70) (xd 0x74)
  ps "# ciphertext: "
  p128 ct
  pc '\n'
  ps "# tag:        "
  p128 tag
  pc '\n'
  let ctOk := xdSame ct expCt
  let tagOk := tag == expTag
  ps "#   ENCRYPT: "
  ps (if ctOk && tagOk then "PASS" else "FAIL")
  pc '\n'
  xdDebug (ctOk && tagOk) ct expCt tag expTag
  ln
  -- decrypt
  store outbyte 0x70
  store4 (xd 0x00) (xd 0x04) (xd 0x08) (xd 0x0C) key
  store4 (xd 0x10) (xd 0x14) (xd 0x18) (xd 0x1C) nonce
  store4 (xd 0x20) (xd 0x24) (xd 0x28) (xd 0x2C) ad
  store4 (xd 0x30) (xd 0x34) (xd 0x38) (xd 0x3C) ct
  store4 (xd 0x40) (xd 0x44) (xd 0x48) (xd 0x4C) tag
  store xdCtrl ((2 : Word) <<< 16 ||| (9 : Word) <<< 8 ||| 14)
  waitUntil xdStatus fun w => w &&& 0x02 != 0
  let dec ← load4 (xd 0x58) (xd 0x5C) (xd 0x60) (xd 0x64)
  let status ← load xdStatus
  let valid := status &&& 0x01 != 0
  ps "# plaintext: "
  p128 dec
  pc '\n'
  ps "# valid: "
  pc (if valid then '1' else '0')
  pc '\n'
  let ptOk := xdSame dec pt
  ps "#   DECRYPT: "
  ps (if valid && ptOk then "PASS" else "FAIL")
  pc '\n'
  ln
  let pass := ctOk && tagOk && valid && ptOk
  ps (if pass then "# Xoodyak: ALL PASS\n" else "# Xoodyak: FAILED\n")
  ln
  return pass

/-! ## The accelerator -/

theorem xoodyakSlot_lawful : xoodyakSlot.Lawful where
  regs_step := fun boot i s => (accelerators_step boot i s).2.1
  core_step := fun _ _ _ => rfl
  sticky_step := fun _ _ _ => rfl
  above := by decide
  start_clear := fun _ => rfl
  clear_clear := fun _ => rfl
  rest := by
    intro r c hstart ⟨hidle, hreset⟩
    let s : Soc := { sampleSoc with
      bus := { Bus.initial with regs := { Regs.initial with xd := r } }
      xd := c }
    obtain ⟨hidle', hout⟩ := xoodyak_machine.rest s hidle hstart
    have hrestart : Xoodyak.NoRestart (xdCoreIn r) := rfl
    exact ⟨⟨hidle', hreset.step hrestart⟩, hout, xoodyak_machine.quiet s hidle⟩

/-- Four words of data replace the whole output register. -/
theorem xoodyak_computes {r : XoodyakRegs} (hena : r.ena = true)
    (hwords : Xoodyak.words r.dataLength = 4) :
    xoodyakSlot.Computes r
      (Xoodyak.collectedOut (xdCoreIn r) 0, Xoodyak.collectedTag (xdCoreIn r))
      (Xoodyak.collectedValid (xdCoreIn r)) := by
  rintro c ⟨hidle, hreset⟩
  have hrestart : ∀ n, Xoodyak.NoRestart (xoodyakSlot.opEnv r n) := by
    intro n
    unfold Slot.opEnv
    split_ifs <;> rfl
  obtain ⟨k, hk⟩ := Xoodyak.run_collected (one_dvd 12) (xdCoreIn r) hena
  obtain ⟨hdone, hend, hout, htag, hvalid⟩ := hk c hreset hidle (xoodyakSlot.opEnv r) hrestart rfl
  refine ⟨k, hdone, ⟨hend, hreset.run hrestart k⟩, ?_, hvalid⟩
  rw [Xoodyak.collectedOut_four hwords _ 0] at hout
  exact Prod.ext hout htag

theorem xd_status (boot : Ram bootSize) (i : SocIn) (s : Soc) (h : i.reads xdStatus) :
    ∃ d, (Soc.step boot i s).bus.memRdata = some d
      ∧ (d &&& 0x02 != 0) = (xoodyakSlot.sticky s).done :=
  ⟨_, memRdata_step boot i s h rfl, done_status s.xdSticky.done s.xdSticky.valid⟩

section

variable {r : XoodyakRegs} {o : BitVec 128 × BitVec 128} {k : Sticky}

theorem xd_shows {addr : Word} (f : BitVec 128 × BitVec 128 → Word)
    (haddr : ∀ p r, (fastReads p r).lookup addr = some (f (p.xdDataOut, p.xdTagOut))) :
    Shows xoodyakSlot r o k addr (f o) :=
  shows_of_reads (p := fun q => (q.xdDataOut, q.xdTagOut)) (fun _ _ => rfl) f haddr

theorem xd_showsStatus : Shows xoodyakSlot r o k xdStatus
    (0#30 ++ BitVec.ofBool k.done ++ BitVec.ofBool k.valid) := by
  intro boot i s hrest h
  rw [← hrest.sticky]
  exact memRdata_step boot i s h rfl

end

/-! ## One operation -/

/-- The registers with the operands. -/
def xdLoaded (r : XoodyakRegs) (key nonce ad data tag : Words4) : XoodyakRegs :=
  { r with
    key := key.pack
    nonce := nonce.pack
    ad := ad.pack
    dataIn := data.pack
    tagIn := tag.pack }

/-- The registers with the fields of CTRL. -/
def xdStarted (r : XoodyakRegs) (mode : BitVec 3) (adlen mlen : Word) : XoodyakRegs :=
  { r with
    selType := mode
    adLength := adlen.setWidth 5
    dataLength := mlen.setWidth 5
    ena := true }

section

variable {boot : Ram bootSize} {F : Soc → Prop} {r : XoodyakRegs} {o : BitVec 128 × BitVec 128}
  {k : Sticky} {β : Type} {Q : β → Soc → Prop} (hF : Frame boot (Labels xoodyakSlot) F)

include hF

/-- The operands of an operation. -/
theorem ends_xdOperands (key nonce ad data tag : Words4) {g : Unit → Prog β}
    (hg : Ends (socTarget boot) (xoodyakSlot.At F (xdLoaded r key nonce ad data tag) o k)
      (g ()) Q) :
    Ends (socTarget boot) (xoodyakSlot.At F r o k)
      (store4 (xd 0x00) (xd 0x04) (xd 0x08) (xd 0x0C) key >>= fun _ =>
        store4 (xd 0x10) (xd 0x14) (xd 0x18) (xd 0x1C) nonce >>= fun _ =>
          store4 (xd 0x20) (xd 0x24) (xd 0x28) (xd 0x2C) ad >>= fun _ =>
            store4 (xd 0x30) (xd 0x34) (xd 0x38) (xd 0x3C) data >>= fun _ =>
              store4 (xd 0x40) (xd 0x44) (xd 0x48) (xd 0x4C) tag >>= g) Q := by
  refine ends_store4 xoodyakSlot_lawful hF (p := XoodyakRegs.putKey) rfl rfl rfl rfl
    (fun _ _ _ => rfl) _ ?_
  refine ends_store4 xoodyakSlot_lawful hF (p := XoodyakRegs.putNonce) rfl rfl rfl rfl
    (fun _ _ _ => rfl) _ ?_
  refine ends_store4 xoodyakSlot_lawful hF (p := XoodyakRegs.putAd) rfl rfl rfl rfl
    (fun _ _ _ => rfl) _ ?_
  refine ends_store4 xoodyakSlot_lawful hF (p := XoodyakRegs.putDataIn) rfl rfl rfl rfl
    (fun _ _ _ => rfl) _ ?_
  refine ends_store4 xoodyakSlot_lawful hF (p := XoodyakRegs.putTagIn) rfl rfl rfl rfl
    (fun _ _ _ => rfl) _ ?_
  simp only [XoodyakRegs.putKey, XoodyakRegs.putNonce, XoodyakRegs.putAd, XoodyakRegs.putDataIn,
    XoodyakRegs.putTagIn, putWord_pack4]
  exact hg

/-- CTRL, and STATUS until `done`. -/
theorem ends_xdOperation (mode : BitVec 3) (adlen mlen : Word) (had : adlen.toNat < 32)
    (hmlen : mlen.toNat < 32) (hwords : Xoodyak.words (mlen.setWidth 5) = 4) {c : Xoodyak.CoreIn}
    (hop : c = xdCoreIn (xdStarted r mode adlen mlen)) {g : Unit → Prog β}
    (hg : ∀ r', Ends (socTarget boot) (xoodyakSlot.At F r'
      (Xoodyak.collectedOut c 0, Xoodyak.collectedTag c) ⟨true, Xoodyak.collectedValid c⟩)
      (g ()) Q) :
    Ends (socTarget boot) (xoodyakSlot.At F r o k)
      (store xdCtrl (mode.setWidth 32 <<< 16 ||| adlen <<< 8 ||| mlen) >>= fun _ =>
        waitUntil xdStatus (fun w => w &&& 0x02 != 0) >>= g) Q := by
  have hctrl : XoodyakRegs.ctrl (mode.setWidth 32 <<< 16 ||| adlen <<< 8 ||| mlen) r =
      xdStarted r mode adlen mlen := by
    obtain ⟨hmode, had', hmlen'⟩ := ctrl_fields mode had hmlen
    rw [XoodyakRegs.ctrl, hmode, had', hmlen', xdStarted]
  have hcomp := xoodyak_computes (r := xdStarted r mode adlen mlen) rfl hwords
  rw [← hop, ← hctrl] at hcomp
  exact xoodyakSlot_lawful.ends_operation hF (.inr ⟨_, rfl⟩) (f := XoodyakRegs.ctrl) rfl rfl hcomp
    xd_status (hg _)

theorem ends_xdOut {g : Words4 → Prog β}
    (hg : Ends (socTarget boot) (xoodyakSlot.At F r o k) (g (.unpack o.1)) Q) :
    Ends (socTarget boot) (xoodyakSlot.At F r o k)
      (load4 (xd 0x58) (xd 0x5C) (xd 0x60) (xd 0x64) >>= g) Q :=
  ends_load4 xoodyakSlot_lawful hF (w := .unpack o.1)
    (xd_shows (fun o => o.1.extractLsb' 0 32) fun _ _ => rfl)
    (xd_shows (fun o => o.1.extractLsb' 32 32) fun _ _ => rfl)
    (xd_shows (fun o => o.1.extractLsb' 64 32) fun _ _ => rfl)
    (xd_shows (fun o => o.1.extractLsb' 96 32) fun _ _ => rfl) hg

theorem ends_xdTag {g : Words4 → Prog β}
    (hg : Ends (socTarget boot) (xoodyakSlot.At F r o k) (g (.unpack o.2)) Q) :
    Ends (socTarget boot) (xoodyakSlot.At F r o k)
      (load4 (xd 0x68) (xd 0x6C) (xd 0x70) (xd 0x74) >>= g) Q :=
  ends_load4 xoodyakSlot_lawful hF (w := .unpack o.2)
    (xd_shows (fun o => o.2.extractLsb' 0 32) fun _ _ => rfl)
    (xd_shows (fun o => o.2.extractLsb' 32 32) fun _ _ => rfl)
    (xd_shows (fun o => o.2.extractLsb' 64 32) fun _ _ => rfl)
    (xd_shows (fun o => o.2.extractLsb' 96 32) fun _ _ => rfl) hg

end

theorem ends_xdDebug {boot : Ram bootSize} {F : Soc → Prop} (hF : Frame boot Console F)
    (ok : Bool) (ct expCt tag expTag : Words4) :
    Ends (socTarget boot) F (xdDebug ok ct expCt tag expTag) fun _ => F := by
  have hpc (c : Char) := ends_pc hF c
  cases ok with
  | true => exact Ends.ret fun _ hs => hs
  | false =>
    refine ends_then (ends_ps hF _) ?_
    refine ends_then (hpc _) <| ends_then (hpc _) <| ends_then (hpc _) <| ends_then (hpc _) ?_
    refine ends_then (hpc _) <| ends_then (ends_ps hF _) ?_
    refine ends_then (hpc _) <| ends_then (hpc _) <| ends_then (hpc _) <| ends_then (hpc _) ?_
    exact hpc _

/-! ## The vector of the firmware -/

/-- The encryption of the test. -/
def xdVector : Xoodyak.CoreIn :=
  xdCoreIn (xdStarted (xdLoaded .reset ⟨0x0c0d0e0f, 0x08090a0b, 0x04050607, 0x00010203⟩
    ⟨0x0c0d0e0f, 0x08090a0b, 0x04050607, 0x00010203⟩
    ⟨0x00000000, 0x08000000, 0x04050607, 0x00010203⟩
    ⟨0x0c0d0e00, 0x08090a0b, 0x04050607, 0x00010203⟩ ⟨0, 0, 0, 0⟩) 1 9 14)

theorem xdVector_result :
    xdSame (.unpack (Xoodyak.collectedOut xdVector 0))
        ⟨0x93090000, 0x6b339d70, 0x24fb2cc1, 0x76e90670⟩ = true
      ∧ Words4.unpack (Xoodyak.collectedTag xdVector) =
        ⟨0xBF7B3E0B, 0x5607B323, 0x7579E7C0, 0xBD9C91A7⟩ := by
  decide +kernel

variable {boot : Ram bootSize} {F : Soc → Prop}

/-- The test passes. -/
theorem testXoodyak_ends (hF : Frame boot (Labels xoodyakSlot) F) :
    Ends (socTarget boot) (fun s => ∃ r o k, xoodyakSlot.At F r o k s) testXoodyak fun ok s =>
      ok = true ∧ ∃ r o k, xoodyakSlot.At F r o k s := by
  have hprint {r o k} : Frame boot Console (xoodyakSlot.At F r o k) :=
    frame_at xoodyakSlot_lawful hF
  obtain ⟨hct, htag⟩ := xdVector_result
  have hmode : xdVector.selType = Xoodyak.modeAeadEnc := rfl
  refine Ends.exists fun r => Ends.exists fun o => Ends.exists fun k => ?_
  refine ends_then (ends_ps hprint _) ?_
  refine ends_then (ends_ln hprint) ?_
  refine ends_line hprint _ (ends_p128 hprint _) ?_
  refine ends_line hprint _ (ends_p128 hprint _) ?_
  refine ends_line hprint _ (ends_p128 hprint _) ?_
  refine ends_line hprint _ (ends_p128 hprint _) ?_
  refine ends_then (ends_ln hprint) ?_
  -- encryption
  refine ends_then (ends_led hprint _) ?_
  refine ends_xdOperands hF _ _ _ _ _ ?_
  refine ends_xdOperation hF 1 9 14 (by decide) (by decide) (by decide) (c := xdVector) ?_
    fun r => ?_
  · rfl
  refine ends_xdOut hF ?_
  refine ends_xdTag hF ?_
  refine ends_line hprint _ (ends_p128 hprint _) ?_
  refine ends_line hprint _ (ends_p128 hprint _) ?_
  refine ends_line hprint _ (ends_ps hprint _) ?_
  refine ends_then (ends_xdDebug hprint _ _ _ _ _) ?_
  refine ends_then (ends_ln hprint) ?_
  -- decryption
  refine ends_then (ends_led hprint _) ?_
  refine ends_xdOperands hF _ _ _ _ _ ?_
  refine ends_xdOperation hF 2 9 14 (by decide) (by decide) (by decide)
    (c := xdVector.readBack (Xoodyak.collectedOut xdVector 0) (Xoodyak.collectedTag xdVector))
    ?_ fun r => ?_
  · rw [xdLoaded, Words4.pack_unpack, Words4.pack_unpack]
    rfl
  refine ends_xdOut hF ?_
  refine xoodyakSlot_lawful.ends_load hF xd_showsStatus ?_
  refine ends_line hprint _ (ends_p128 hprint _) ?_
  refine ends_line hprint _ (ends_pc hprint _) ?_
  refine ends_line hprint _ (ends_ps hprint _) ?_
  refine ends_then (ends_ln hprint) ?_
  refine ends_then (ends_ps hprint _) ?_
  refine ends_then (ends_ln hprint) ?_
  refine Ends.ret fun s hs => ⟨?_, _, _, _, hs⟩
  rw [valid_status, Xoodyak.collectedValid_readBack hmode,
    Xoodyak.collectedOut_readBack hmode _ _ (by decide), hct, htag]
  decide

end PicoSoc.Firmware
