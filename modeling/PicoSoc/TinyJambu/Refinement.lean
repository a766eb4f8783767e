import PicoSoc.TinyJambu.ByteView

set_option autoImplicit false

/-! # The core computes TinyJAMBU-128

Word by word the registers of the core follow the fold of the specification over the blocks of the
nonce, the associated data and the data. -/

namespace PicoSoc.TinyJambu

open Bytes Clocked

/-! ## Folding over blocks -/

/-- The first `j` blocks of a string. -/
def firstBlocks (X : List Byte) (j : ℕ) : List (List Byte) := (List.range j).map (block X)

theorem firstBlocks_succ (X : List Byte) (j : ℕ) :
    firstBlocks X (j + 1) = firstBlocks X j ++ [block X j] := by
  rw [firstBlocks, List.range_succ, List.map_append]
  rfl

theorem blocks_eq (X : List Byte) : Spec.blocks X = firstBlocks X ((X.length + 3) / 4) := rfl

/-! ## Key and nonce -/

/-- The key as bytes. -/
def CoreIn.keyBytes (op : CoreIn) : List Byte := rightBytes 16 op.key

/-- The nonce as bytes. -/
def CoreIn.nonceBytes (op : CoreIn) : List Byte := rightBytes 12 op.nonce

/-- The associated data as bytes. -/
def CoreIn.adBytes (op : CoreIn) : List Byte := rightBytes op.adLength.toNat op.ad

/-- The message as bytes. -/
def CoreIn.dataBytes (op : CoreIn) : List Byte := rightBytes op.dataLength.toNat op.dataIn

/-- The tag to compare with as bytes. -/
def CoreIn.tagBytes (op : CoreIn) : List Byte := rightBytes 8 op.tagIn

theorem key_eq (op : CoreIn) :
    bswap128 op.key = ofBytesLE 16 fun i => op.keyBytes.getD i 0 := by
  apply eq_of_byteLE 16 rfl
  intro i hi
  rw [byteLE_ofBytesLE _ hi, CoreIn.keyBytes, getD_rightBytes, if_pos hi]
  exact byteLE_bswap (n := 16) op.key hi

theorem nonceWord_eq (op : CoreIn) {j : ℕ} (hj : j < 3) :
    Spec.loadBlock (block op.nonceBytes j) =
      getNonceWord (bswap96 op.nonce) (BitVec.ofNat 2 j) := by
  have hne : BitVec.ofNat 2 j ≠ 3 := by
    interval_cases j <;> decide
  have hidx : (BitVec.ofNat 2 j).toNat = j := by
    simp only [BitVec.toNat_ofNat]
    omega
  apply eq_of_byteLE 4 rfl
  intro b hb
  rw [byteLE_loadBlock _ hb, getD_block _ _ _ hb, CoreIn.nonceBytes, getD_rightBytes,
    if_pos (by omega), getNonceWord, if_neg hne, hidx, show 32 * j = 8 * (4 * j) by omega,
    byteLE_extractLsb' _ _ _ (by omega)]
  exact (byteLE_bswap (n := 12) op.nonce (by omega)).symm

/-- After `j` nonce words. -/
theorem bits_nonceSteps (op : CoreIn) {j : ℕ} (hj : j ≤ 3) (w : Nlfsr) :
    (nonceSteps (latched op) j w).bits =
      (firstBlocks op.nonceBytes j).foldl (fun s B => Spec.addWord 3 (Spec.loadBlock B)
        (Spec.permute (bswap128 op.key) 640 (Spec.addWord 1 Spec.frameNonce s))) w.bits := by
  induction j with
  | zero => rfl
  | succ j ih =>
      rw [firstBlocks_succ, List.foldl_append, ← ih (by omega), nonceSteps, bits_inject,
        bits_permSteps, bits_frame, List.foldl_cons, List.foldl_nil, nonceWord_eq op (by omega)]
      rfl

theorem bits_initState (op : CoreIn) :
    (nonceSteps (latched op) 3 (permSteps (bswap128 op.key) 32 .zero)).bits =
      Spec.initState (bswap128 op.key) op.nonceBytes := by
  have hlen : op.nonceBytes.length = 12 := length_rightBytes _ _
  rw [bits_nonceSteps op (by decide), bits_permSteps, bits_zero, Spec.initState, blocks_eq, hlen]

/-! ## Associated data -/

theorem latched_adWords {op : CoreIn} (hlen : InBlock op.adLength) :
    (latched op).adWordsR.toNat = (op.adLength.toNat + 3) / 4 :=
  calcWords_toNat hlen

theorem maskedWord_getWord {v : BitVec 128} {X : List Byte} {len : BitVec 5}
    (hX : X.length = len.toNat) (hv : Holds v X) {j : ℕ} (hj : j < (len.toNat + 3) / 4) (hj4 : j < 4) :
    maskedWord len (decide (j + 1 = (len.toNat + 3) / 4)) (getWord v (BitVec.ofNat 2 j)) =
      Spec.loadBlock (block X j) := by
  apply eq_of_byteLE 4 rfl
  intro b hb
  rw [byteLE_maskedWord hj _ hb, loadBlock_eq hv hj4]
  split
  · rfl
  · next h =>
    rw [byteLE_getWord _ hj4 hb, hv _ (by omega), List.getD_eq_default _ _ (by omega)]

theorem bits_adSteps {op : CoreIn} (hlen : InBlock op.adLength) {j : ℕ}
    (hj : j ≤ (op.adLength.toNat + 3) / 4) (w : Nlfsr) :
    (adSteps (latched op) j w).bits =
      (firstBlocks op.adBytes j).foldl (Spec.absorbAd (bswap128 op.key)) w.bits := by
  have hle : op.adLength.toNat ≤ 16 := hlen
  have hX : op.adBytes.length = op.adLength.toNat := length_rightBytes _ _
  induction j with
  | zero => rfl
  | succ j ih =>
      have hword := maskedWord_getWord hX (holds_bsOutput op.ad hlen) (show j < _ by omega)
        (by omega)
      rw [firstBlocks_succ, List.foldl_append, ← ih (by omega), List.foldl_cons, List.foldl_nil,
        Spec.absorbAd, addLength_block hX (by omega), adSteps, adStep, bits_frame, bits_inject,
        bits_permSteps, bits_frame, latched_adWords hlen, ← hword]
      rfl

/-! ## Data -/

theorem latched_dataWords {op : CoreIn} (hlen : InBlock op.dataLength) :
    (latched op).dataWordsR.toNat = (op.dataLength.toNat + 3) / 4 :=
  calcWords_toNat hlen

theorem byteLE_setWord (v : BitVec 128) (word : BitVec 32) {j i : ℕ} (hj : j < 4) (hi : i < 16) :
    byteLE (setWord v (BitVec.ofNat 2 j) word) i =
      if i / 4 = j then byteLE word (i % 4) else byteLE v i := by
  have hlow {n k : ℕ} (h : 8 * k + 8 ≤ n) : byteLE (v.extractLsb' 0 n) k = byteLE v k := by
    rw [show 0 = 8 * 0 from rfl, byteLE_extractLsb' _ _ _ h, Nat.zero_add]
  have hhigh {n k m : ℕ} (h : 8 * k + 8 ≤ n) :
      byteLE (v.extractLsb' (8 * m) n) k = byteLE v (m + k) := byteLE_extractLsb' _ _ _ h
  interval_cases j
  · rw [setWord, if_pos (by decide), byteLE_append _ _ _ (k := 4) rfl]
    by_cases h : i < 4
    · rw [if_pos h, if_pos (by omega), Nat.mod_eq_of_lt h]
    · rw [if_neg h, if_neg (by omega), hhigh (m := 4) (by omega), Nat.add_sub_cancel' (by omega)]
  · rw [setWord, if_neg (by decide), if_pos (by decide), byteLE_append _ _ _ (k := 4) rfl,
      byteLE_append _ _ _ (k := 4) rfl]
    by_cases h : i < 4
    · rw [if_pos h, if_neg (by omega), hlow (by omega)]
    · by_cases h' : i - 4 < 4
      · rw [if_neg h, if_pos h', if_pos (by omega), show i % 4 = i - 4 by omega]
      · rw [if_neg h, if_neg h', if_neg (by omega), hhigh (m := 8) (by omega)]
        congr 1
        omega
  · rw [setWord, if_neg (by decide), if_neg (by decide), if_pos (by decide),
      byteLE_append _ _ _ (k := 8) rfl, byteLE_append _ _ _ (k := 4) rfl]
    by_cases h : i < 8
    · rw [if_pos h, if_neg (by omega), hlow (by omega)]
    · by_cases h' : i - 8 < 4
      · rw [if_neg h, if_pos h', if_pos (by omega), show i % 4 = i - 8 by omega]
      · rw [if_neg h, if_neg h', if_neg (by omega), hhigh (m := 12) (by omega)]
        congr 1
        omega
  · rw [setWord, if_neg (by decide), if_neg (by decide), if_neg (by decide),
      byteLE_append _ _ _ (k := 12) rfl]
    by_cases h : i < 12
    · rw [if_pos h, if_neg (by omega), hlow (by omega)]
    · rw [if_neg h, if_pos (by omega), show i % 4 = i - 12 by omega]

/-- The keystream block and the output block of the specification, from the words of the core. -/
theorem cryptBlock_eq {op : CoreIn} (hlen : InBlock op.dataLength) {decrypt : Bool}
    (hmode : op.selType = if decrypt then modeDec else modeEnc) {j : ℕ}
    (hj : j < (op.dataLength.toNat + 3) / 4) (w : Nlfsr) :
    (Spec.cryptBlock (bswap128 op.key) decrypt w.bits (block op.dataBytes j)).2 =
        (msgStep (latched op) j w).bits ∧
      (Spec.cryptBlock (bswap128 op.key) decrypt w.bits (block op.dataBytes j)).1.length =
        min 4 (op.dataLength.toNat - 4 * j) ∧
      ∀ b < 4, (Spec.cryptBlock (bswap128 op.key) decrypt w.bits (block op.dataBytes j)).1.getD b 0 =
        byteLE (maskedWord op.dataLength (decide (j + 1 = (op.dataLength.toNat + 3) / 4))
          (streamWord (latched op) j w)) b := by
  have hle : op.dataLength.toNat ≤ 16 := hlen
  have hX : op.dataBytes.length = op.dataLength.toNat := length_rightBytes _ _
  have hv : Holds (latched op).dataR op.dataBytes := holds_bsOutput op.dataIn hlen
  have hin : Spec.permute (bswap128 op.key) 1024 (Spec.addWord 1 Spec.frameData w.bits) =
      (msgIn (latched op) w).bits := by
    rw [msgIn, bits_permSteps, bits_frame]
    rfl
  have hblock : (block op.dataBytes j).length = min 4 (op.dataLength.toNat - 4 * j) := by
    rw [length_block, hX]
  rw [Spec.cryptBlock, hin, word_bits]
  set O := List.zipWith (· ^^^ ·) (block op.dataBytes j)
    ((List.range 4).map (byteLE (msgIn (latched op) w).w2)) with hO
  have hOlen : O.length = min 4 (op.dataLength.toNat - 4 * j) := by
    rw [hO, List.length_zipWith, hblock, List.length_map, List.length_range]
    omega
  -- the output block, byte by byte
  have hout : ∀ b < 4, O.getD b 0 =
      byteLE (maskedWord op.dataLength (decide (j + 1 = (op.dataLength.toNat + 3) / 4))
        (streamWord (latched op) j w)) b := by
    intro b hb
    rw [byteLE_maskedWord hj _ hb]
    split
    · next h =>
      have hbB : b < (block op.dataBytes j).length := by rw [hblock]; omega
      have hbO : b < O.length := by rw [hOlen]; omega
      have hdata := getD_block op.dataBytes j b hb
      rw [List.getD_eq_getElem _ _ hbB, ← hv _ (by omega), ← byteLE_getWord _ (by omega) hb] at hdata
      rw [List.getD_eq_getElem _ _ hbO, streamWord, byteLE_xor, ← hdata, BitVec.xor_comm]
      simp [hO]
    · next h => exact List.getD_eq_default _ _ (by rw [hOlen]; omega)
  have hplain : Spec.loadBlock (if decrypt then O else block op.dataBytes j) =
      maskedWord op.dataLength (decide (j + 1 = (op.dataLength.toNat + 3) / 4))
        (if op.selType = modeEnc then getWord (latched op).dataR (BitVec.ofNat 2 j)
          else streamWord (latched op) j w) := by
    cases decrypt with
    | true =>
        rw [hmode, if_pos rfl, if_pos rfl, if_neg (by decide)]
        apply eq_of_byteLE 4 rfl
        intro b hb
        rw [byteLE_loadBlock _ hb, hout b hb]
    | false =>
        rw [hmode, if_neg Bool.false_ne_true, if_neg Bool.false_ne_true, if_pos rfl]
        exact (maskedWord_getWord hX hv hj (by omega)).symm
  refine ⟨?_, hOlen, hout⟩
  show Spec.addLength _ (Spec.addWord 3 (Spec.loadBlock _) _) = _
  rw [addLength_block hX hj, hplain, msgStep, bits_frame, bits_inject, latched_dataWords hlen]
  rfl

/-- One block of `Spec.crypt`. -/
def cryptStep (k : BitVec 128) (decrypt : Bool) (p : List Byte × Spec.State) (B : List Byte) :
    List Byte × Spec.State :=
  (p.1 ++ (Spec.cryptBlock k decrypt p.2 B).1, (Spec.cryptBlock k decrypt p.2 B).2)

theorem crypt_eq (k : BitVec 128) (decrypt : Bool) (s : Spec.State) (X : List Byte) :
    Spec.crypt k decrypt s X =
      (firstBlocks X ((X.length + 3) / 4)).foldl (cryptStep k decrypt) ([], s) := rfl

/-- Word by word, the state and the output register follow `Spec.crypt`. -/
theorem cryptSteps_eq {op : CoreIn} (hlen : InBlock op.dataLength) {decrypt : Bool}
    (hmode : op.selType = if decrypt then modeDec else modeEnc) (w : Nlfsr) {j : ℕ}
    (hj : j ≤ (op.dataLength.toNat + 3) / 4) {p : List Byte × Spec.State}
    (hp : (firstBlocks op.dataBytes j).foldl (cryptStep (bswap128 op.key) decrypt) ([], w.bits) = p) :
    p.2 = (msgSteps (latched op) j w).bits ∧
      p.1.length = min (4 * j) op.dataLength.toNat ∧
      ∀ i < 16, byteLE (outSteps (latched op) w j) i = p.1.getD i 0 := by
  have hle : op.dataLength.toNat ≤ 16 := hlen
  induction j generalizing p with
  | zero =>
      subst hp
      refine ⟨rfl, by simp [firstBlocks], fun i _ => ?_⟩
      exact byteLE_zero _ _
  | succ j ih =>
      rw [firstBlocks_succ, List.foldl_append, List.foldl_cons, List.foldl_nil] at hp
      obtain ⟨hstate, hlength, hbytes⟩ := ih (by omega) rfl
      generalize (firstBlocks op.dataBytes j).foldl (cryptStep (bswap128 op.key) decrypt)
        ([], w.bits) = q at hp hstate hlength hbytes
      obtain ⟨hstep, hOlen, hO⟩ := cryptBlock_eq hlen hmode (show j < _ by omega)
        (msgSteps (latched op) j w)
      subst hp
      rw [← hstate] at hstep hOlen hO
      refine ⟨hstep, ?_, ?_⟩
      · rw [cryptStep, List.length_append, hlength, hOlen]
        omega
      · intro i hi
        rw [cryptStep, outSteps, byteLE_setWord _ _ (by omega) hi, latched_dataWords hlen]
        have hfull : q.1.length = 4 * j := by omega
        rcases Nat.lt_trichotomy (i / 4) j with h | h | h
        · rw [if_neg (by omega), hbytes i hi, List.getD_append _ _ _ _ (by omega)]
        · rw [if_pos h, List.getD_append_right _ _ _ _ (by omega), hfull,
            show i - 4 * j = i % 4 by omega, hO _ (by omega)]
          rfl
        · rw [if_neg (by omega), hbytes i hi, List.getD_eq_default _ _ (by omega),
            List.getD_eq_default _ _ (by rw [List.length_append, hOlen]; omega)]

/-! ## Output and tag -/

theorem ext_getD {X Y : List Byte} (hlen : X.length = Y.length)
    (h : ∀ i < Y.length, X.getD i 0 = Y.getD i 0) : X = Y := by
  apply List.ext_getElem hlen
  intro i hX hY
  rw [← List.getD_eq_getElem X 0 hX, ← List.getD_eq_getElem Y 0 hY]
  exact h i hY

/-- The right-aligned port shows the string of the output register. -/
theorem rightBytes_bsOutput {x : BitVec 128} {len : BitVec 5} (hlen : InBlock len) {X : List Byte}
    (hX : X.length = len.toNat) (hx : Holds x X) : rightBytes len.toNat (bsOutput x len) = X := by
  have hle : len.toNat ≤ 16 := hlen
  apply ext_getD (by rw [length_rightBytes, hX])
  intro i hi
  rw [hX] at hi
  rw [getD_rightBytes, if_pos hi, byteBE, byteLE_bsOutput x hlen, if_pos (by omega), byteBE,
    show len.toNat - 1 - (len.toNat - 1 - i) = i by omega, hx i (by omega)]

/-- The tag port shows the two words of the tag, low word first. -/
theorem rightBytes_bswap64 (lo hi : BitVec 32) :
    rightBytes 8 (bswap64 (hi ++ lo)) =
      (List.range 4).map (byteLE lo) ++ (List.range 4).map (byteLE hi) := by
  apply ext_getD (by simp)
  intro i hi8
  have hi8 : i < 8 := by simpa using hi8
  rw [getD_rightBytes, if_pos hi8, bswap64, byteBE_bswap (n := 8) _ hi8,
    byteLE_append _ _ _ (k := 4) rfl]
  by_cases h : i < 4
  · rw [if_pos h, List.getD_append _ _ _ _ (by simpa using h)]
    simp [List.getD_eq_getElem?_getD, h]
  · rw [if_neg h, List.getD_append_right _ _ _ _ (by simpa using h)]
    simp [List.getD_eq_getElem?_getD, show i - 4 < 4 by omega]

theorem finalize_eq (op : CoreIn) (w : Nlfsr) :
    Spec.finalize (bswap128 op.key) w.bits = rightBytes 8 (bswap64 (tagWords (latched op) w)) := by
  rw [tagWords, rightBytes_bswap64, Spec.finalize, ← word_bits, ← word_bits, bits_permSteps,
    bits_frame, finIn, bits_permSteps, bits_frame]
  rfl

theorem rightBytes_inj {n : ℕ} {x y : BitVec (8 * n)} : rightBytes n x = rightBytes n y ↔ x = y := by
  refine ⟨fun h => eq_of_byteBE n rfl fun i hi => ?_, fun h => h ▸ rfl⟩
  have hb := congrArg (fun X => X.getD i 0) h
  simpa only [getD_rightBytes, if_pos hi] using hb

/-! ## The result of an operation -/

/-- Output and tag of TinyJAMBU-128 on these strings. -/
def CoreIn.reference (op : CoreIn) (decrypt : Bool) : List Byte × List Byte :=
  Spec.aead decrypt op.keyBytes op.nonceBytes op.adBytes op.dataBytes

theorem bits_adState {op : CoreIn} (had : InBlock op.adLength) :
    (adState op).bits =
      (Spec.blocks op.adBytes).foldl (Spec.absorbAd (bswap128 op.key))
        (Spec.initState (bswap128 op.key) op.nonceBytes) := by
  have hX : op.adBytes.length = op.adLength.toNat := length_rightBytes _ _
  rw [adState, calcWords_toNat had, bits_adSteps had le_rfl, bits_initState, blocks_eq, hX]

/-- The data path at the end holds the output and the tag of the specification. -/
theorem result_eq {op : CoreIn} (had : InBlock op.adLength) (hdata : InBlock op.dataLength)
    {decrypt : Bool} (hmode : op.selType = if decrypt then modeDec else modeEnc) :
    rightBytes op.dataLength.toNat (result op).dataOut = (op.reference decrypt).1 ∧
      rightBytes 8 (result op).tag = (op.reference decrypt).2 := by
  have hle : op.dataLength.toNat ≤ 16 := hdata
  have hX : op.dataBytes.length = op.dataLength.toNat := length_rightBytes _ _
  obtain ⟨hstate, hlength, hbytes⟩ := cryptSteps_eq hdata hmode (adState op) le_rfl rfl
  rw [CoreIn.reference, Spec.aead, ← key_eq, ← bits_adState had, crypt_eq, hX]
  constructor
  · have hout : (result op).dataOut = bsOutput
        (outSteps (latched op) (adState op) ((op.dataLength.toNat + 3) / 4)) op.dataLength := by
      rw [← calcWords_toNat hdata]
      rfl
    rw [hout]
    exact rightBytes_bsOutput hdata (hlength.trans (by omega)) hbytes
  · rw [hstate, finalize_eq, ← calcWords_toNat hdata]
    rfl

theorem dataOut_unused {op : CoreIn} (hdata : InBlock op.dataLength) {i : ℕ}
    (hi : op.dataLength.toNat ≤ i) : byteLE (result op).dataOut i = 0 := by
  show byteLE (bsOutput _ op.dataLength) i = 0
  rw [byteLE_bsOutput _ hdata, if_neg (by omega)]

theorem result_valid {op : CoreIn} (hmode : op.selType = modeDec) :
    (result op).valid = true ↔ op.tagBytes = rightBytes 8 (result op).tag := by
  generalize hx : tagWords (latched op) (msgSteps (latched op) (calcWords op.dataLength).toNat
    (adState op)) = x
  have hvalid : (result op).valid = (x == bswap64 op.tagIn) := by
    rw [← hx, result, Datapath.finished]
    exact if_pos hmode
  have htag : (result op).tag = bswap64 x := by
    rw [← hx]
    rfl
  rw [hvalid, htag, CoreIn.tagBytes, beq_iff_eq, rightBytes_inj (n := 8)]
  constructor
  · intro h
    rw [h, bswap64_bswap64]
  · intro h
    rw [h, bswap64_bswap64]

/-- From every idle state, an operation with its inputs held while they are latched ends with the
    output and the tag of TinyJAMBU-128, and a decryption tells whether the tags agree. -/
theorem core_computes_tinyjambu {s : Core} (hs : s.fsm.fsm = .idle) {env : ℕ → CoreIn}
    (hena : (env 0).ena = true) (hheld : Held env) (had : InBlock (env 0).adLength)
    (hdata : InBlock (env 0).dataLength) (decrypt : Bool)
    (hmode : (env 0).selType = if decrypt then modeDec else modeEnc) :
    ∃ k, FirstDone Core.step env s Core.done k ∧
      rightBytes (env 0).dataLength.toNat (run Core.step env s k).dp.dataOut =
        ((env 0).reference decrypt).1 ∧
      (∀ i, (env 0).dataLength.toNat ≤ i → byteLE (run Core.step env s k).dp.dataOut i = 0) ∧
      rightBytes 8 (run Core.step env s k).dp.tag = ((env 0).reference decrypt).2 ∧
      (decrypt = true → ((run Core.step env s k).dp.valid = true ↔
        (env 0).tagBytes = ((env 0).reference decrypt).2)) := by
  obtain ⟨hdone, -, hdp⟩ := run_op hs hena hheld
  obtain ⟨hout, htag⟩ := result_eq had hdata hmode
  refine ⟨_, hdone, ?_⟩
  rw [hdp]
  refine ⟨hout, fun i hi => dataOut_unused hdata hi, htag, fun hdec => ?_⟩
  rw [← htag]
  exact result_valid (by rw [hmode, hdec, if_pos rfl])

/-- The third self-test of the firmware, as a decryption. -/
def firmwareOp : CoreIn where
  ena := true
  selType := modeDec
  key := 0x000102030405060708090A0B0C0D0E0F
  nonce := 0x000102030405060708090A0B
  ad := 0x00010203040506070809
  adLength := 10
  dataLength := 3
  dataIn := 0x02D9F6
  tagIn := 0x67431DBB51B453CD

theorem core_computes_tinyjambu_firmware :
    ∃ k, FirstDone Core.step (fun _ => firmwareOp) Core.reset Core.done k ∧
      rightBytes 3 (run Core.step (fun _ => firmwareOp) Core.reset k).dp.dataOut =
        (firmwareOp.reference true).1 ∧
      (∀ i, 3 ≤ i → byteLE (run Core.step (fun _ => firmwareOp) Core.reset k).dp.dataOut i = 0) ∧
      rightBytes 8 (run Core.step (fun _ => firmwareOp) Core.reset k).dp.tag =
        (firmwareOp.reference true).2 ∧
      (true = true → ((run Core.step (fun _ => firmwareOp) Core.reset k).dp.valid = true ↔
        firmwareOp.tagBytes = (firmwareOp.reference true).2)) :=
  @core_computes_tinyjambu Core.reset rfl (fun _ => firmwareOp) rfl
    (fun _ _ => rfl) (by decide) (by decide) true rfl

end PicoSoc.TinyJambu
