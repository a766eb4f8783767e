import PicoSoc.System.CofbServe

set_option autoImplicit false

/-! # The GIFT-COFB tests of the firmware (`test_giftcofb`)

Test A is one block of each string. In test B the core asks for the second blocks, and the firmware
answers each request and reads the first output block before it does. -/

namespace PicoSoc.Firmware

open Bytes Clocked Mmio PicoSoc.System PicoSoc.GiftCofb

/-! ## Driver -/

def gcTestA : Prog Bool := do
  let expCt : Words4 := ⟨0xFF6CC70D, 0xE2AD9211, 0xF3CEAEBB, 0xACA0E4DA⟩
  let expTag : Words4 := ⟨0x7490194C, 0x0CC8BAE6, 0xBBBD8B17, 0x51859C4E⟩
  let pt : Words4 := ⟨0x0c0d0e0f, 0x08090a0b, 0x04050607, 0x00010203⟩
  ps "# -- Test A: single-block (KAT #533) --\n"
  ps "# ad(4B):  00010203\n"
  ps "# plaintext(16B): "
  p128 pt
  pc '\n'
  -- encrypt
  gcSetKeyNonce
  gcSetAd 0x00010203 0x00000000 0x00000000 0x00000000
  gcSetMsg 0x00010203 0x04050607 0x08090a0b 0x0c0d0e0f
  gcSetTag 0 0 0 0
  store gcCtrl ((0 : Word) <<< 16 ||| (4 : Word) <<< 8 ||| 16)
  waitUntil gcStatus fun w => w &&& 0x02 != 0
  let ct ← gcData
  let tag ← gcTag
  ps "# ciphertext: "
  p128 ct
  pc '\n'
  ps "# tag:        "
  p128 tag
  pc '\n'
  let encOk := ct == expCt && tag == expTag
  ps "#   ENCRYPT: "
  ps (if encOk then "PASS" else "FAIL")
  pc '\n'
  -- decrypt
  gcSetKeyNonce
  gcSetAd 0x00010203 0x00000000 0x00000000 0x00000000
  gcSetMsg expCt.w3 expCt.w2 expCt.w1 expCt.w0
  gcSetTag expTag.w3 expTag.w2 expTag.w1 expTag.w0
  store gcCtrl ((1 : Word) <<< 16 ||| (4 : Word) <<< 8 ||| 16)
  waitUntil gcStatus fun w => w &&& 0x02 != 0
  let dec ← gcData
  let status ← load gcStatus
  let valid := status &&& 0x01 != 0
  ps "# plaintext: "
  p128 dec
  pc '\n'
  ps "# valid: "
  pc (if valid then '1' else '0')
  pc '\n'
  let decOk := valid && dec == pt
  ps "#   DECRYPT: "
  ps (if decOk then "PASS" else "FAIL")
  pc '\n'
  let ok := encOk && decOk
  ps "#   Test A: "
  ps (if ok then "PASS" else "FAIL")
  pc '\n'
  ln
  return ok

/-- `none` when the loops have served more than three requests; `ct0` starts with any contents. -/
def gcTestB (junk : Words4) : Prog (Option Bool) := do
  let blk0 : Words4 := ⟨0x0c0d0e0f, 0x08090a0b, 0x04050607, 0x00010203⟩
  let blk1 : Words4 := ⟨0, 0, 0, 0x10000000⟩
  let expCt0 : Words4 := ⟨0xDA23161C, 0x824EFFE3, 0xB7680D22, 0x54B63042⟩
  let expTag : Words4 := ⟨0x9C079228, 0xA0DA3055, 0xB0433543, 0x82C5C511⟩
  let pt0 : Words4 := ⟨blk0.w0, blk0.w1, blk0.w2, blk0.w3⟩
  ps "# -- Test B: multi-block (KAT 579) --\n"
  ps "# ad(17B):  000102030405060708090A0B0C0D0E0F 10\n"
  ps "# msg(17B): 000102030405060708090A0B0C0D0E0F 10\n"
  -- encrypt
  gcSetKeyNonce
  gcSetAd blk0.w3 blk0.w2 blk0.w1 blk0.w0
  gcSetMsg blk0.w3 blk0.w2 blk0.w1 blk0.w0
  gcSetTag 0 0 0 0
  store gcCtrl ((0 : Word) <<< 16 ||| (17 : Word) <<< 8 ||| 17)
  let some ct0 ← gcServe blk1 blk1 4 junk | return none
  let ct1 ← gcData
  let tag ← gcTag
  ps "# CT blk0: "
  p128 ct0
  pc '\n'
  ps "# CT blk1: "
  ph ct1.w3
  pc '\n'
  ps "# Tag:     "
  p128 tag
  pc '\n'
  let encOk := ct0 == expCt0 && ct1.w3 >>> 24 == 0x2D && tag == expTag
  ps "#   ENCRYPT: "
  ps (if encOk then "PASS" else "FAIL")
  pc '\n'
  -- decrypt
  gcSetKeyNonce
  gcSetAd blk0.w3 blk0.w2 blk0.w1 blk0.w0
  gcSetMsg ct0.w3 ct0.w2 ct0.w1 ct0.w0
  gcSetTag expTag.w3 expTag.w2 expTag.w1 expTag.w0
  store gcCtrl ((1 : Word) <<< 16 ||| (17 : Word) <<< 8 ||| 17)
  let some dec0 ← gcServe blk1 ct1 4 junk | return none
  let dec1 ← gcData
  let status ← load gcStatus
  let valid := status &&& 0x01 != 0
  ps "# PT blk0: "
  p128 dec0
  pc '\n'
  ps "# PT blk1: "
  ph dec1.w3
  pc '\n'
  ps "# valid:   "
  pc (if valid then '1' else '0')
  pc '\n'
  let decOk := valid && dec0 == pt0 && dec1.w3 >>> 24 == 0x10
  ps "#   DECRYPT: "
  ps (if decOk then "PASS" else "FAIL")
  pc '\n'
  let ok := encOk && decOk
  ps "#   Test B: "
  ps (if ok then "PASS" else "FAIL")
  pc '\n'
  ln
  return some ok

def testGiftcofb (junk : Words4) : Prog (Option Bool) := do
  ps "# [CORE 3] GIFT-COFB AEAD\n"
  ln
  ps "# key:   "
  p128 ⟨0x0c0d0e0f, 0x08090a0b, 0x04050607, 0x00010203⟩
  pc '\n'
  ps "# nonce: "
  p128 ⟨0x0c0d0e0f, 0x08090a0b, 0x04050607, 0x00010203⟩
  pc '\n'
  ln
  let okA ← gcTestA
  let some okB ← gcTestB junk | return none
  let pass := okA && okB
  ps (if pass then "# GIFT-COFB: ALL PASS\n" else "# GIFT-COFB: FAILED\n")
  ln
  return some pass

/-! ## Operands -/

/-- The key and the nonce of the tests. -/
def gcKey : Words4 := ⟨0x0c0d0e0f, 0x08090a0b, 0x04050607, 0x00010203⟩

/-- The registers with the operands. -/
def gcLoaded (r : CofbRegs) (ad data tag : Words4) : CofbRegs :=
  { r with
    key := gcKey.pack
    nonce := gcKey.pack
    ad := ad.pack
    dataIn := data.pack
    tagIn := tag.pack }

/-- The registers with the fields of CTRL. -/
def gcStarted (r : CofbRegs) (decrypt : Bool) (adlen mlen : BitVec 8) : CofbRegs :=
  { r with
    decryptMode := decrypt
    adLength := adlen
    dataLength := mlen
    start := true }

section

variable {boot : Ram bootSize} {F : Soc → Prop} {r : CofbRegs} {o : BitVec 128 × BitVec 128}
  {k : Sticky} {β : Type} {Q : β → Soc → Prop}

theorem ends_gcOperands (hF : Frame boot (Labels cofbSlot) F) (ad data tag : Words4)
    {g : Unit → Prog β}
    (hg : Ends (socTarget boot) (cofbSlot.At F (gcLoaded r ad data tag) o k) (g ()) Q) :
    Ends (socTarget boot) (cofbSlot.At F r o k)
      (gcSetKeyNonce >>= fun _ => gcSetAd ad.w3 ad.w2 ad.w1 ad.w0 >>= fun _ =>
        gcSetMsg data.w3 data.w2 data.w1 data.w0 >>= fun _ =>
          gcSetTag tag.w3 tag.w2 tag.w1 tag.w0 >>= g) Q := by
  show Ends _ _ (store4 (gc 0x00) (gc 0x04) (gc 0x08) (gc 0x0C) gcKey >>= fun _ =>
    store4 (gc 0x10) (gc 0x14) (gc 0x18) (gc 0x1C) gcKey >>= fun _ =>
      store4 (gc 0x20) (gc 0x24) (gc 0x28) (gc 0x2C) ad >>= fun _ =>
        store4 (gc 0x30) (gc 0x34) (gc 0x38) (gc 0x3C) data >>= fun _ =>
          store4 (gc 0x40) (gc 0x44) (gc 0x48) (gc 0x4C) tag >>= g) _
  refine ends_store4 cofbSlot_lawful hF (p := CofbRegs.putKey) rfl rfl rfl rfl
    (fun _ _ _ => rfl) _ ?_
  refine ends_store4 cofbSlot_lawful hF (p := CofbRegs.putNonce) rfl rfl rfl rfl
    (fun _ _ _ => rfl) _ ?_
  refine ends_store4 cofbSlot_lawful hF (p := CofbRegs.putAd) rfl rfl rfl rfl
    (fun _ _ _ => rfl) _ ?_
  refine ends_store4 cofbSlot_lawful hF (p := CofbRegs.putDataIn) rfl rfl rfl rfl
    (fun _ _ _ => rfl) _ ?_
  refine ends_store4 cofbSlot_lawful hF (p := CofbRegs.putTagIn) rfl rfl rfl rfl
    (fun _ _ _ => rfl) _ ?_
  simp only [CofbRegs.putKey, CofbRegs.putNonce, CofbRegs.putAd, CofbRegs.putDataIn,
    CofbRegs.putTagIn, putWord_pack4]
  exact hg

end

/-! ## The vectors of the firmware -/

/-- The cipher by the rounds of the engine. -/
theorem gift128_eq : Spec.gift128 = fun key x => (engineAfter key x 0 40).ciphertext := by
  funext key x
  exact (engineAfter_done key x 0).symm

/-- The AD of test A. -/
def gcAdA : Words4 := ⟨0, 0, 0, 0x00010203⟩

theorem gc_vectorA :
    (lastBlock 0 (gcOneBlock (gcStarted (gcLoaded .reset gcAdA gcKey ⟨0, 0, 0, 0⟩) false 4 16)).1,
        (gcOneBlock (gcStarted (gcLoaded .reset gcAdA gcKey ⟨0, 0, 0, 0⟩) false 4 16)).2) =
      (Words4.pack ⟨0xFF6CC70D, 0xE2AD9211, 0xF3CEAEBB, 0xACA0E4DA⟩,
        Words4.pack ⟨0x7490194C, 0x0CC8BAE6, 0xBBBD8B17, 0x51859C4E⟩) := by
  simp only [gcOneBlock, Spec.aead, gift128_eq]
  decide +kernel

theorem gc_vectorA_decrypt :
    (lastBlock 0 (gcOneBlock (gcStarted (gcLoaded .reset gcAdA
        ⟨0xFF6CC70D, 0xE2AD9211, 0xF3CEAEBB, 0xACA0E4DA⟩ ⟨0, 0, 0, 0⟩) true 4 16)).1,
      (gcOneBlock (gcStarted (gcLoaded .reset gcAdA
        ⟨0xFF6CC70D, 0xE2AD9211, 0xF3CEAEBB, 0xACA0E4DA⟩ ⟨0, 0, 0, 0⟩) true 4 16)).2) =
      (gcKey.pack, Words4.pack ⟨0x7490194C, 0x0CC8BAE6, 0xBBBD8B17, 0x51859C4E⟩) := by
  simp only [gcOneBlock, Spec.aead, gift128_eq]
  decide +kernel

/-- The second block of both strings of test B. -/
def gcTail : Words4 := ⟨0, 0, 0, 0x10000000⟩

theorem gc_vectorB :
    gcReference (gcStarted (gcLoaded .reset gcKey gcKey ⟨0, 0, 0, 0⟩) false 17 17) gcTail gcTail =
      ([[0x54, 0xB6, 0x30, 0x42, 0xB7, 0x68, 0x0D, 0x22, 0x82, 0x4E, 0xFF, 0xE3, 0xDA, 0x23, 0x16,
          0x1C], [0x2D]],
        Words4.pack ⟨0x9C079228, 0xA0DA3055, 0xB0433543, 0x82C5C511⟩) := by
  simp only [gcReference, Spec.aead, gift128_eq]
  decide +kernel

theorem gc_vectorB_decrypt :
    gcReference (gcStarted (gcLoaded .reset gcKey
        ⟨0xDA23161C, 0x824EFFE3, 0xB7680D22, 0x54B63042⟩ ⟨0, 0, 0, 0⟩) true 17 17) gcTail
        ⟨0, 0, 0, 0x2D000000⟩ =
      ([[0x00, 0x01, 0x02, 0x03, 0x04, 0x05, 0x06, 0x07, 0x08, 0x09, 0x0A, 0x0B, 0x0C, 0x0D, 0x0E,
          0x0F], [0x10]],
        Words4.pack ⟨0x9C079228, 0xA0DA3055, 0xB0433543, 0x82C5C511⟩) := by
  simp only [gcReference, Spec.aead, gift128_eq]
  decide +kernel

theorem gcOneBlock_loaded (r : CofbRegs) (ad data tag : Words4) (decrypt : Bool)
    (adlen mlen : BitVec 8) :
    gcOneBlock (gcStarted (gcLoaded r ad data tag) decrypt adlen mlen) =
      gcOneBlock (gcStarted (gcLoaded .reset ad data ⟨0, 0, 0, 0⟩) decrypt adlen mlen) := by
  simp only [gcOneBlock, gcStarted, gcLoaded]

theorem gcReference_loaded (r : CofbRegs) (ad data tag : Words4) (decrypt : Bool)
    (adlen mlen : BitVec 8) (ad' data' : Words4) :
    gcReference (cofbSlot.clear (gcStarted (gcLoaded r ad data tag) decrypt adlen mlen)) ad' data' =
      gcReference (gcStarted (gcLoaded .reset ad data ⟨0, 0, 0, 0⟩) decrypt adlen mlen) ad'
        data' := by
  simp only [gcReference, gcStarted, gcLoaded, cofbSlot]

theorem lastServed_pair (out : Words4) (D D' : List Byte) :
    lastServed out [D, D'] = .unpack (Cofb.toBlock D) :=
  lastServed_cons out D (List.cons_ne_nil D' [])

theorem lastBlock_pair (d : BitVec 128) (D D' : List Byte) :
    lastBlock d [D, D'] = Cofb.toBlock D' :=
  lastBlock_cons d D (List.cons_ne_nil D' [])

/-! ## The tests pass -/

section

variable {boot : Ram bootSize} {F : Soc → Prop} (hF : Frame boot (Labels cofbSlot) F)

include hF

theorem gcTestA_ends :
    Ends (socTarget boot) (fun s => ∃ r o k, cofbSlot.At F r o k s) gcTestA fun ok s =>
      ok = true ∧ ∃ r o k, cofbSlot.At F r o k s := by
  have hprint {r o k} : Frame boot Console (cofbSlot.At F r o k) := frame_at cofbSlot_lawful hF
  have had : (4 : BitVec 8).toNat ≤ 16 := by decide
  have hpos : 0 < (16 : BitVec 8).toNat := by decide
  have hmsg : (16 : BitVec 8).toNat ≤ 16 := by decide
  refine Ends.exists fun r => Ends.exists fun o => Ends.exists fun k => ?_
  refine ends_then (ends_ps hprint _) ?_
  refine ends_then (ends_ps hprint _) ?_
  refine ends_line hprint _ (ends_p128 hprint _) ?_
  -- encryption
  refine ends_gcOperands hF gcAdA gcKey ⟨0, 0, 0, 0⟩ ?_
  refine ends_gcSingle hF (q := gcStarted (gcLoaded r gcAdA gcKey ⟨0, 0, 0, 0⟩) false 4 16) ?_
    had hpos hmsg ((gcOneBlock_loaded ..).symm ▸ gc_vectorA) rfl fun r => ?_
  · rfl
  refine ends_gcOut hF rfl ?_
  refine ends_gcTag hF rfl ?_
  refine ends_line hprint _ (ends_p128 hprint _) ?_
  refine ends_line hprint _ (ends_p128 hprint _) ?_
  refine ends_line hprint _ (ends_ps hprint _) ?_
  -- decryption
  refine ends_gcOperands hF gcAdA _ _ ?_
  refine ends_gcSingle hF (q := gcStarted (gcLoaded r gcAdA
      ⟨0xFF6CC70D, 0xE2AD9211, 0xF3CEAEBB, 0xACA0E4DA⟩
      ⟨0x7490194C, 0x0CC8BAE6, 0xBBBD8B17, 0x51859C4E⟩) true 4 16) ?_
    had hpos hmsg ((gcOneBlock_loaded ..).symm ▸ gc_vectorA_decrypt) (beq_self_eq_true _)
    fun r => ?_
  · rfl
  refine ends_gcOut hF rfl ?_
  refine cofbSlot_lawful.ends_load hF gc_showsStatus ?_
  refine ends_line hprint _ (ends_p128 hprint _) ?_
  refine ends_line hprint _ (ends_pc hprint _) ?_
  refine ends_line hprint _ (ends_ps hprint _) ?_
  refine ends_line hprint _ (ends_ps hprint _) ?_
  refine ends_then (ends_ln hprint) ?_
  refine Ends.ret fun s hs => ⟨?_, _, _, _, hs⟩
  rw [valid_status]
  decide

theorem gcTestB_ends (junk : Words4) :
    Ends (socTarget boot) (fun s => ∃ r o k, cofbSlot.At F r o k s) (gcTestB junk) fun ok s =>
      ok = some true ∧ ∃ r o k, cofbSlot.At F r o k s := by
  have hprint {r o k} : Frame boot Console (cofbSlot.At F r o k) := frame_at cofbSlot_lawful hF
  have hn : adBlocks 17 + msgBlocks 17 ≤ 4 := by decide
  refine Ends.exists fun r => Ends.exists fun o => Ends.exists fun k => ?_
  refine ends_then (ends_ps hprint _) ?_
  refine ends_then (ends_ps hprint _) ?_
  refine ends_then (ends_ps hprint _) ?_
  -- encryption
  refine ends_gcOperands hF gcKey gcKey ⟨0, 0, 0, 0⟩ ?_
  refine ends_gcOperation hF (w := ⟨0xDA23161C, 0x824EFFE3, 0xB7680D22, 0x54B63042⟩)
    (q := cofbSlot.clear (gcStarted (gcLoaded r gcKey gcKey ⟨0, 0, 0, 0⟩) false 17 17)) rfl
    hn ((gcReference_loaded ..).trans gc_vectorB) rfl ?_ fun r => ?_
  · rw [lastServed_pair]
    decide +kernel
  refine ends_gcOut hF (w := ⟨0, 0, 0, 0x2D000000⟩) ?_ ?_
  · dsimp only
    rw [lastBlock_pair]
    decide +kernel
  refine ends_gcTag hF rfl ?_
  refine ends_line hprint _ (ends_p128 hprint _) ?_
  refine ends_line hprint _ (ends_ph hprint _) ?_
  refine ends_line hprint _ (ends_p128 hprint _) ?_
  refine ends_line hprint _ (ends_ps hprint _) ?_
  -- decryption
  refine ends_gcOperands hF gcKey ⟨0xDA23161C, 0x824EFFE3, 0xB7680D22, 0x54B63042⟩ _ ?_
  refine ends_gcOperation hF (w := gcKey) (q := cofbSlot.clear (gcStarted (gcLoaded r gcKey
      ⟨0xDA23161C, 0x824EFFE3, 0xB7680D22, 0x54B63042⟩
      ⟨0x9C079228, 0xA0DA3055, 0xB0433543, 0x82C5C511⟩) true 17 17)) rfl
    hn ((gcReference_loaded ..).trans gc_vectorB_decrypt) (beq_self_eq_true _) ?_ fun r => ?_
  · rw [lastServed_pair]
    decide +kernel
  refine ends_gcOut hF (w := gcTail) ?_ ?_
  · dsimp only
    rw [lastBlock_pair]
    decide +kernel
  refine cofbSlot_lawful.ends_load hF gc_showsStatus ?_
  refine ends_line hprint _ (ends_p128 hprint _) ?_
  refine ends_line hprint _ (ends_ph hprint _) ?_
  refine ends_line hprint _ (ends_pc hprint _) ?_
  refine ends_line hprint _ (ends_ps hprint _) ?_
  refine ends_line hprint _ (ends_ps hprint _) ?_
  refine ends_then (ends_ln hprint) ?_
  refine Ends.ret fun s hs => ⟨?_, _, _, _, hs⟩
  rw [valid_status]
  decide

/-- The test passes, whatever `ct0` holds before. -/
theorem testGiftcofb_ends (junk : Words4) :
    Ends (socTarget boot) (fun s => ∃ r o k, cofbSlot.At F r o k s) (testGiftcofb junk) fun ok s =>
      ok = some true ∧ ∃ r o k, cofbSlot.At F r o k s := by
  have hall := frame_some cofbSlot_lawful hF
  refine ends_then (ends_ps hall _) ?_
  refine ends_then (ends_ln hall) ?_
  refine ends_line hall _ (ends_p128 hall _) ?_
  refine ends_line hall _ (ends_p128 hall _) ?_
  refine ends_then (ends_ln hall) ?_
  refine ends_pass (gcTestA_ends hF) ?_
  refine (gcTestB_ends hF junk).bind fun ok => ?_
  intro env hfair s ⟨hok, hs⟩
  rw [hok]
  refine ends_then (ends_ps hall _) ?_ env hfair s hs
  refine ends_then (ends_ln hall) ?_
  exact Ends.ret fun s hs => ⟨rfl, hs⟩

end

end PicoSoc.Firmware
