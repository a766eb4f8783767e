import PicoSoc.Xoodyak.ByteView

set_option autoImplicit false

/-! # The core computes Xoodyak

The sponge states of an operation, read as bytes, are the states of the Cyclist object of the
specification; the output registers show its ciphertext, tag and hash. -/

namespace PicoSoc.Xoodyak

open Bytes Clocked

variable {n : ℕ}

/-! ## What the output registers show -/

theorem takeBytes_stateBytes (r : XState) {m : ℕ} (hm : m ≤ 48) :
    Cyclist.takeBytes m (stateBytes r) =
      (List.range m).map fun i => byteLE (wordOut r (BitVec.ofNat 4 (i / 4))) (i % 4) := by
  apply List.map_congr_left
  intro i hi
  have hi' : i < m := List.mem_range.1 hi
  rw [dif_pos (by omega), stateBytes_apply, wordOut_ofNat r (by omega)]

/-- Four squeezed words are the first sixteen bytes of the state. -/
theorem leftBytes_squeezed (r : XState) (old : BitVec 128) :
    leftBytes 16 16 (squeezed r 4 old) = Cyclist.takeBytes 16 (stateBytes r) := by
  rw [takeBytes_stateBytes r (by decide), leftBytes]
  apply List.map_congr_left
  intro i hi
  exact byteBE_collectWords _ old (by decide) (List.mem_range.1 hi)

/-- The streamed words are the data plus the first bytes of the state. -/
theorem leftBytes_stream {len : BitVec 5} (hlen : InBlock len) (data old : BitVec 128)
    (r : XState) :
    leftBytes 16 len.toNat
        (collectWords (fun j => byteSwap (streamWord data r j)) (words len) old) =
      Cyclist.xorBytes (leftBytes 16 len.toNat data)
        (Cyclist.takeBytes len.toNat (stateBytes r)) := by
  have hle : len.toNat ≤ 16 := hlen
  rw [takeBytes_stateBytes r (by omega), leftBytes, leftBytes, Cyclist.xorBytes,
    List.zipWith_map, List.zipWith_self]
  apply List.map_congr_left
  intro i hi
  have hi' : i < len.toNat := List.mem_range.1 hi
  rw [byteBE_collectWords _ old (words_le len) (by rw [words_eq hlen]; omega), streamWord,
    byteLE_xor, byteLE_inputWord data (by omega) (by omega), Nat.div_add_mod, BitVec.xor_comm]

/-! ## The sponge states -/

theorem stateBytes_zero : stateBytes (Vector.replicate 12 0) = fun _ => 0 := by
  funext i
  rw [stateBytes_apply]
  simp

theorem addLast_addLast (c d : Byte) (s : Cyclist.State 48) :
    Cyclist.addLast c (Cyclist.addLast d s) = Cyclist.addLast (d ^^^ c) s := by
  funext i
  unfold Cyclist.addLast
  split
  · rw [BitVec.xor_assoc]
  · rfl

theorem addLast_zero (s : Cyclist.State 48) : Cyclist.addLast 0 s = s := by
  funext i
  unfold Cyclist.addLast
  split
  · exact BitVec.xor_zero
  · rfl

/-- Key, nonce and the encoded nonce length, padded, by index. -/
theorem getD_keyBlock (key nonce : BitVec 128) (i : ℕ) :
    (leftBytes 16 16 key ++ leftBytes 16 16 nonce ++ [16] ++ [1]).getD i 0 =
      if i < 16 then byteBE 16 key i
      else if i < 32 then byteBE 16 nonce (i - 16)
      else if i = 32 then 16
      else if i = 33 then 1 else 0 := by
  have hlen : (leftBytes 16 16 key ++ leftBytes 16 16 nonce).length = 32 := by simp
  rw [List.append_assoc]
  by_cases h32 : i < 32
  · rw [List.getD_append _ _ _ _ (by rw [hlen]; exact h32)]
    by_cases h16 : i < 16
    · rw [List.getD_append _ _ _ _ (by rw [length_leftBytes]; exact h16), getD_leftBytes,
        if_pos h16, if_pos h16]
    · rw [List.getD_append_right _ _ _ _ (by rw [length_leftBytes]; omega), length_leftBytes,
        getD_leftBytes, if_pos (by omega), if_neg h16, if_pos h32]
  · rw [List.getD_append_right _ _ _ _ (by rw [hlen]; omega), hlen, if_neg (by omega), if_neg h32]
    obtain ⟨j, rfl⟩ : ∃ j, i = 32 + j := ⟨i - 32, by omega⟩
    rw [Nat.add_sub_cancel_left]
    match j with
    | 0 => rfl
    | 1 => rfl
    | j + 2 => simp; omega

theorem stateBytes_keyState (key nonce : BitVec 128) :
    stateBytes (keyState key nonce) = (Cyclist.up Spec.f .keyed 0
      (Spec.keyed (leftBytes 16 16 key) (leftBytes 16 16 nonce))).state := by
  have hblock : Spec.keyed (leftBytes 16 16 key) (leftBytes 16 16 nonce) =
      Cyclist.down .keyed (leftBytes 16 16 key ++ leftBytes 16 16 nonce ++ [16]) 0x02
        (.initial 48) := by
    rw [Spec.keyed, Cyclist.absorbAny_single _ _ (by decide) (by simp [Spec.rateKin])]
    simp [Cyclist.absorbBlock, Cyclist.Duplex.initial]
  rw [hblock, keyState, ← f_stateBytes, Cyclist.up, Cyclist.down]
  simp only [reduceCtorEq, if_false, addLast_zero]
  congr 1
  funext i
  have hpad : ∀ b < 4, byteLE padd01KeyNonce b = if b = 0 then 16 else if b = 1 then 1 else 0 := by
    decide
  have hdomain : domainAbsorbKey = colourWord 0x02 := by decide
  rw [stateBytes_padIn, stateBytes_loadWords _ (by decide), stateBytes_loadWords _ (by decide),
    stateBytes_zero, Cyclist.addLast, Cyclist.addBytes, getD_keyBlock, hpad _ (by omega), hdomain,
    byteLE_colourWord _ (by omega)]
  have hinit : ∀ i, (Cyclist.Duplex.initial 48).state i = 0 := fun _ => rfl
  rw [hinit]
  obtain ⟨i, hi⟩ := i
  dsimp only
  rcases (by omega : i < 16 ∨ (16 ≤ i ∧ i < 32) ∨ 32 ≤ i) with h | h | h
  · simp [show ¬ i / 4 = 8 by omega, show ¬ i / 4 = 11 by omega, h, show ¬ i + 1 = 48 by omega,
      show ¬ 16 ≤ i by omega]
  · simp [show ¬ i / 4 = 8 by omega, show ¬ i / 4 = 11 by omega, h, show ¬ i + 1 = 48 by omega,
      show ¬ i < 16 by omega]
  · interval_cases i <;> simp

theorem stateBytes_adState {ad : BitVec 128} {len : BitVec 5} (hlen : InBlock len)
    (hzero : UnusedZero len.toNat ad) (d : Cyclist.Duplex 48) (hd : d.phase = .down) (r : XState)
    (hr : stateBytes r = (Cyclist.up Spec.f .keyed 0 d).state) :
    stateBytes (adState ad len r) = (Cyclist.up Spec.f .keyed 0x80
      (Cyclist.absorbAny Spec.f .keyed Spec.rateKin (leftBytes 16 len.toNat ad) 0x03 d)).state := by
  have hle : len.toNat ≤ 16 := hlen
  have hdomain : domainAbsorb ^^^ domainCrypt = colourWord (0x03 ^^^ 0x80) := by decide
  rw [adState, ← f_stateBytes, hdomain, stateBytes_absorb hlen hzero, hr,
    Cyclist.absorbAny_single _ _ (by decide) (by simp [Spec.rateKin]; omega),
    Cyclist.absorbBlock, hd, ← addLast_addLast]
  rfl

/-- In encryption mode the data goes down as it is. -/
theorem stateBytes_dataState {selType : BitVec 3} (hmode : selType ≠ modeAeadDec)
    {data : BitVec 128} {len : BitVec 5} (hlen : InBlock len) (hzero : UnusedZero len.toNat data)
    (r : XState) :
    stateBytes (dataState selType data len r) = (Cyclist.up Spec.f .keyed 0x40
      (Cyclist.down .keyed (leftBytes 16 len.toNat data) 0 ⟨.up, stateBytes r⟩)).state := by
  have hdomain : domainSqueeze = colourWord (0x00 ^^^ 0x40) := by decide
  have hword : dataWord selType data r = inputWord data := by
    funext j
    rw [dataWord, if_neg hmode]
  rw [dataState, ← f_stateBytes, hword, hdomain, stateBytes_absorb hlen hzero, ← addLast_addLast]
  rfl

theorem stateBytes_hashState {data : BitVec 128} {len : BitVec 5} (hlen : InBlock len)
    (hzero : UnusedZero len.toNat data) (c : Byte) :
    stateBytes (hashState data len) = (Cyclist.up Spec.f .hash c
      (Cyclist.absorbAny Spec.f .hash Spec.rateHash (leftBytes 16 len.toNat data) 0x03
        (.initial 48))).state := by
  have hle : len.toNat ≤ 16 := hlen
  have hdomain : domainAbsorbHash = colourWord (0x03 &&& 1) := by decide
  rw [hashState, ← f_stateBytes, hdomain, stateBytes_absorb hlen hzero, stateBytes_zero,
    Cyclist.absorbAny_single _ _ (by decide) (by simp [Spec.rateHash]; omega)]
  rfl

theorem stateBytes_hashState2 (r : XState) (c : Byte) :
    stateBytes (hashState2 r) = (Cyclist.up Spec.f .hash c
      (Cyclist.down .hash [] 0 ⟨.up, stateBytes r⟩)).state := by
  have hpad : ∀ b < 4, byteLE padd01 b = if b = 0 then 1 else 0 := by decide
  rw [hashState2, ← f_stateBytes, Cyclist.up, Cyclist.down]
  simp only [if_true, List.nil_append]
  congr 1
  funext i
  rw [stateBytes_padIn, hpad _ (by omega)]
  have hzero : (0 : Byte) &&& 1 = 0 := by decide
  rw [hzero, addLast_zero, Cyclist.addBytes]
  have hone : ([1] : List Byte).getD i.val 0 = if i.val = 0 then 1 else 0 := by
    rcases i.val with _ | k <;> simp
  rw [hone]
  by_cases h : i.val = 0
  · simp [h]
  · rw [if_neg h]
    by_cases h4 : i.val / 4 = (0 : BitVec 4).toNat
    · have h4' : i.val / 4 = 0 := h4
      rw [if_pos h4, if_neg (by omega)]
      simp
    · rw [if_neg h4]
      simp

/-! ## The result of an operation -/

/-- The inputs of an operation on at most one block of associated data and one of data. -/
structure CoreIn.WellFormed (op : CoreIn) : Prop where
  adLength : InBlock op.adLength
  dataLength : InBlock op.dataLength
  ad : UnusedZero op.adLength.toNat op.ad
  dataIn : UnusedZero op.dataLength.toNat op.dataIn

def CoreIn.keyBytes (op : CoreIn) : List Byte := leftBytes 16 16 op.key
def CoreIn.nonceBytes (op : CoreIn) : List Byte := leftBytes 16 16 op.nonce
def CoreIn.adBytes (op : CoreIn) : List Byte := leftBytes 16 op.adLength.toNat op.ad
def CoreIn.dataBytes (op : CoreIn) : List Byte := leftBytes 16 op.dataLength.toNat op.dataIn

theorem stateBytes_withAd {op : CoreIn} (hop : op.WellFormed) :
    stateBytes (adState op.ad op.adLength (keyState op.key op.nonce)) =
      (Cyclist.up Spec.f .keyed 0x80
        (Spec.withAd op.keyBytes op.nonceBytes op.adBytes)).state := by
  refine stateBytes_adState hop.adLength hop.ad _ ?_ _ (stateBytes_keyState op.key op.nonce)
  rw [Spec.keyed, Cyclist.absorbAny_single _ _ (by decide)
    (by simp [Spec.rateKin, CoreIn.keyBytes, CoreIn.nonceBytes])]
  rfl

theorem encrypt_eq {op : CoreIn} (hop : op.WellFormed) (hmode : op.selType ≠ modeAeadDec) :
    Spec.encrypt op.keyBytes op.nonceBytes op.adBytes op.dataBytes =
      (Cyclist.xorBytes op.dataBytes (Cyclist.takeBytes op.dataLength.toNat
          (stateBytes (adState op.ad op.adLength (keyState op.key op.nonce)))),
        Cyclist.takeBytes 16 (stateBytes (aeadState op))) := by
  have hle : op.dataLength.toNat ≤ 16 := hop.dataLength
  have hlen : op.dataBytes.length = op.dataLength.toNat := length_leftBytes _ _ _
  rw [Spec.encrypt, Cyclist.crypt_single _ _ (by decide) (by rw [hlen, Spec.rateKout]; omega),
    Cyclist.squeezeAny_single _ _ (by decide), hlen, ← stateBytes_withAd hop, aeadState,
    stateBytes_dataState hmode hop.dataLength hop.dataIn, stateBytes_withAd hop]
  rfl

theorem hash_eq {op : CoreIn} (hop : op.WellFormed) :
    Spec.hash op.dataBytes =
      Cyclist.takeBytes 16 (stateBytes (hashState op.dataIn op.dataLength)) ++
        Cyclist.takeBytes 16 (stateBytes (hashState2 (hashState op.dataIn op.dataLength))) := by
  rw [Spec.hash, show 32 = Spec.rateHash + Spec.rateHash from rfl,
    Cyclist.squeezeAny_double _ _ (by decide), stateBytes_hashState2 _ 0,
    stateBytes_hashState hop.dataLength hop.dataIn 0x40]
  rfl

/-- From every reachable idle state, an accepted operation on inputs of at most one block leaves
    the ciphertext and the tag, or the hash, of the specification in the output registers. -/
theorem core_computes_xoodyak (hn : n ∣ 12) {s : Core}
    (hs : Reachable (Core.step n) (· = Core.reset) NoRestart s) (hidle : s.stateR = .idle)
    {env : ℕ → CoreIn} (henv : ∀ k, NoRestart (env k)) (hena : (env 0).ena = true)
    (hop : (env 0).WellFormed) :
    ((env 0).selType = modeAeadEnc → ∃ k, FirstDone (Core.step n) env s Core.done k ∧
      leftBytes 16 (env 0).dataLength.toNat (run (Core.step n) env s k).dataOut =
        (Spec.encrypt (env 0).keyBytes (env 0).nonceBytes (env 0).adBytes (env 0).dataBytes).1 ∧
      leftBytes 16 16 (run (Core.step n) env s k).tag =
        (Spec.encrypt (env 0).keyBytes (env 0).nonceBytes (env 0).adBytes (env 0).dataBytes).2) ∧
    ((env 0).selType = modeHash → ∃ k, FirstDone (Core.step n) env s Core.done k ∧
      leftBytes 16 16 (run (Core.step n) env s k).tag ++
          leftBytes 16 16 (run (Core.step n) env s k).dataOut =
        Spec.hash (env 0).dataBytes) := by
  have hinv := reachable_inv hn hs
  have hstarted := step_start_op hn hinv hidle (henv 0) hena
  constructor
  · intro henc
    have hmode : (env 0).selType ≠ modeHash := by rw [henc]; decide
    obtain ⟨t, hpath, hstate, -, hout, htag, -⟩ := path_aead hn hstarted hmode
    obtain ⟨hdone, -, hdataOut, htagOut, -⟩ := run_op hn hinv hidle henv hena hpath hstate
    refine ⟨_, hdone, ?_, ?_⟩
    · rw [hdataOut, hout, leftBytes_stream hop.dataLength,
        encrypt_eq hop (by rw [henc]; decide)]
      rfl
    · rw [htagOut, htag, leftBytes_squeezed, encrypt_eq hop (by rw [henc]; decide)]
  · intro hhash
    obtain ⟨t, hpath, hstate, -, htag, hout, -⟩ := path_hash hn hstarted hhash
    obtain ⟨hdone, -, hdataOut, htagOut, -⟩ := run_op hn hinv hidle henv hena hpath hstate
    refine ⟨_, hdone, ?_⟩
    rw [htagOut, hdataOut, htag, hout, leftBytes_squeezed, leftBytes_squeezed, hash_eq hop]

/-- The self-test of the firmware, with the unused bytes of its message cleared. -/
def firmwareOp : CoreIn where
  ena := true
  restart := false
  selType := modeAeadEnc
  key := 0x000102030405060708090a0b0c0d0e0f
  nonce := 0x000102030405060708090a0b0c0d0e0f
  ad := 0x00010203040506070800000000000000
  adLength := 9
  dataLength := 14
  dataIn := 0x000102030405060708090a0b0c0d0000
  tagIn := 0

theorem unusedZero_of_forall {m : ℕ} {data : BitVec 128}
    (h : ∀ i < 16, m ≤ i → byteBE 16 data i = 0) : UnusedZero m data :=
  fun i hm hi => h i hi hm

theorem firmwareOp_wellFormed : firmwareOp.WellFormed where
  adLength := by decide
  dataLength := by decide
  ad := unusedZero_of_forall (by decide)
  dataIn := unusedZero_of_forall (by decide)

theorem core_computes_xoodyak_firmware :
    ∃ k, FirstDone (Core.step 1) (fun _ => firmwareOp) Core.reset Core.done k ∧
      leftBytes 16 14 (run (Core.step 1) (fun _ => firmwareOp) Core.reset k).dataOut =
        (Spec.encrypt firmwareOp.keyBytes firmwareOp.nonceBytes firmwareOp.adBytes
          firmwareOp.dataBytes).1 ∧
      leftBytes 16 16 (run (Core.step 1) (fun _ => firmwareOp) Core.reset k).tag =
        (Spec.encrypt firmwareOp.keyBytes firmwareOp.nonceBytes firmwareOp.adBytes
          firmwareOp.dataBytes).2 :=
  (@core_computes_xoodyak 1 (one_dvd 12) _ (.init rfl) rfl (fun _ => firmwareOp) (fun _ => rfl) rfl
    firmwareOp_wellFormed).1 rfl

end PicoSoc.Xoodyak
