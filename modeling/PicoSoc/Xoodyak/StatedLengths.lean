import PicoSoc.Xoodyak.Lanes
import PicoSoc.Xoodyak.Outcome
import PicoSoc.Xoodyak.Refinement

set_option autoImplicit false

/-! # The bytes past the stated lengths

The core absorbs whole words, so the bytes that share the last word with the end of the data enter
the sponge. The results are functions of the bytes inside the lengths exactly when no absorbed word
is partial. -/

namespace PicoSoc.Xoodyak

open Bytes Clocked

variable {n : ℕ}

/-! ## Two operations on the same bytes -/

/-- The inputs agree inside the stated lengths. -/
structure SameStated (op op' : CoreIn) : Prop where
  selType : op.selType = op'.selType
  key : op.key = op'.key
  nonce : op.nonce = op'.nonce
  tagIn : op.tagIn = op'.tagIn
  adLength : op.adLength = op'.adLength
  dataLength : op.dataLength = op'.dataLength
  ad : leftBytes 16 op.adLength.toNat op.ad = leftBytes 16 op.adLength.toNat op'.ad
  dataIn : leftBytes 16 op.dataLength.toNat op.dataIn = leftBytes 16 op.dataLength.toNat op'.dataIn

/-- The bytes of `data_out` that belong to the result. -/
def CoreIn.shownLength (op : CoreIn) : ℕ :=
  if op.selType = modeHash then 16 else op.dataLength.toNat

/-- Any two runs of the two operations end with the same results. -/
def SameShown (n : ℕ) (op op' : CoreIn) : Prop :=
  ∀ s s' : Core, s.FromReset n → s.stateR = .idle → s'.FromReset n → s'.stateR = .idle →
    ∀ env env' : ℕ → CoreIn, (∀ t, NoRestart (env t)) → (∀ t, NoRestart (env' t)) →
      env 0 = op → env' 0 = op' →
      ∃ k k', FirstDone (Core.step n) env s Core.done k ∧
        FirstDone (Core.step n) env' s' Core.done k' ∧
        (run (Core.step n) env s k).tag = (run (Core.step n) env' s' k').tag ∧
        (run (Core.step n) env s k).valid = (run (Core.step n) env' s' k').valid ∧
        leftBytes 16 op.shownLength (run (Core.step n) env s k).dataOut =
          leftBytes 16 op.shownLength (run (Core.step n) env' s' k').dataOut

/-- In this mode and for these lengths the results depend only on the bytes inside the lengths. -/
def OnlyStated (n : ℕ) (mode : BitVec 3) (adLength dataLength : BitVec 5) : Prop :=
  ∀ op op' : CoreIn, op.ena = true → op'.ena = true → op.selType = mode →
    op.adLength = adLength → op.dataLength = dataLength → SameStated op op' → SameShown n op op'

/-! ## Whole words -/

theorem byteBE_of_leftBytes {data data' : BitVec 128} {m : ℕ}
    (h : leftBytes 16 m data = leftBytes 16 m data') {i : ℕ} (hi : i < m) :
    byteBE 16 data i = byteBE 16 data' i :=
  List.map_inj_left.1 h i (List.mem_range.2 hi)

/-- The words that lie inside the length agree. -/
theorem inputWord_of_leftBytes {data data' : BitVec 128} {len : BitVec 5} (hlen : InBlock len)
    (hwhole : 4 ∣ len.toNat) (h : leftBytes 16 len.toNat data = leftBytes 16 len.toNat data') {j : ℕ}
    (hj : j < words len) : inputWord data j = inputWord data' j := by
  have hle : len.toNat ≤ 16 := hlen
  rw [words_eq hlen] at hj
  apply eq_of_byteLE 4 rfl
  intro b hb
  rw [byteLE_inputWord data (by omega) hb, byteLE_inputWord data' (by omega) hb]
  exact byteBE_of_leftBytes h (by omega)

theorem loadWords_congr {w w' : ℕ → BitVec 32} {m : ℕ} (h : ∀ j < m, w j = w' j) (r : XState) :
    loadWords w 0 m r = loadWords w' 0 m r := by
  apply Vector.ext
  intro k hk
  rw [getElem_loadWords, getElem_loadWords, Nat.zero_add, Nat.sub_zero]
  split
  · next hlt => rw [h k hlt.2]
  · rfl

theorem adState_congr {ad ad' : BitVec 128} {len : BitVec 5} (hlen : InBlock len)
    (hwhole : 4 ∣ len.toNat) (h : leftBytes 16 len.toNat ad = leftBytes 16 len.toNat ad')
    (r : XState) : adState ad len r = adState ad' len r := by
  rw [adState, adState,
    loadWords_congr (fun j hj => inputWord_of_leftBytes hlen hwhole h hj) r]

theorem dataState_congr (mode : BitVec 3) {data data' : BitVec 128} {len : BitVec 5}
    (hlen : InBlock len) (hwhole : 4 ∣ len.toNat)
    (h : leftBytes 16 len.toNat data = leftBytes 16 len.toNat data') (r : XState) :
    dataState mode data len r = dataState mode data' len r := by
  have hword : ∀ j < words len, dataWord mode data r j = dataWord mode data' r j := by
    intro j hj
    rw [dataWord, dataWord, streamWord, streamWord, inputWord_of_leftBytes hlen hwhole h hj]
  rw [dataState, dataState, loadWords_congr hword]

theorem hashState_congr {data data' : BitVec 128} {len : BitVec 5} (hlen : InBlock len)
    (hwhole : 4 ∣ len.toNat) (h : leftBytes 16 len.toNat data = leftBytes 16 len.toNat data') :
    hashState data len = hashState data' len := by
  rw [hashState, hashState,
    loadWords_congr (fun j hj => inputWord_of_leftBytes hlen hwhole h hj)]

/-- Without a partial word the results agree. -/
theorem sameShown_of_whole (hn : n ∣ 12) {op op' : CoreIn} (hena : op.ena = true)
    (hena' : op'.ena = true) (had : InBlock op.adLength) (hdata : InBlock op.dataLength)
    (hwhole : 4 ∣ op.dataLength.toNat) (hadWhole : op.selType = modeHash ∨ 4 ∣ op.adLength.toNat)
    (h : SameStated op op') : SameShown n op op' := by
  intro s s' hs hidle hs' hidle' env env' henv henv' hop hop'
  obtain ⟨k, hrun⟩ := run_collected hn op hena
  obtain ⟨k', hrun'⟩ := run_collected hn op' hena'
  obtain ⟨hdone, -, hout, htag, hvalid⟩ := hrun s hs hidle env henv hop
  obtain ⟨hdone', -, hout', htag', hvalid'⟩ := hrun' s' hs' hidle' env' henv' hop'
  refine ⟨k, k', hdone, hdone', ?_⟩
  rw [htag, htag', hvalid, hvalid', hout, hout']
  by_cases hmode : op.selType = modeHash
  · have hmode' : op'.selType = modeHash := h.selType ▸ hmode
    have hstate : hashState op.dataIn op.dataLength = hashState op'.dataIn op'.dataLength := by
      rw [← h.dataLength]
      exact hashState_congr hdata hwhole h.dataIn
    refine ⟨?_, ?_, ?_⟩
    · rw [collectedTag_of_hash hmode, collectedTag_of_hash hmode', hstate]
    · have hdec : modeHash ≠ modeAeadDec := by decide
      rw [collectedValid, collectedValid, hmode, hmode', if_neg hdec, if_neg hdec]
    · rw [collectedOut_of_hash hmode, collectedOut_of_hash hmode', hstate]
      exact congrArg _ (squeezed_four _ _ _)
  · have hmode' : op'.selType ≠ modeHash := h.selType ▸ hmode
    have hadState : adState op.ad op.adLength (keyState op.key op.nonce) =
        adState op'.ad op'.adLength (keyState op'.key op'.nonce) := by
      rw [← h.key, ← h.nonce, ← h.adLength]
      exact adState_congr had (hadWhole.resolve_left hmode) h.ad _
    have hstate : aeadState op = aeadState op' := by
      rw [aeadState, aeadState, hadState, ← h.selType, ← h.dataLength]
      exact dataState_congr _ hdata hwhole h.dataIn _
    refine ⟨?_, ?_, ?_⟩
    · rw [collectedTag_of_aead hmode, collectedTag_of_aead hmode', hstate]
    · rw [collectedValid, collectedValid, hstate, h.selType, h.tagIn]
    · rw [CoreIn.shownLength, if_neg hmode, collectedOut_of_aead hmode, collectedOut_of_aead hmode',
        hadState, ← h.dataLength, leftBytes_stream hdata, leftBytes_stream hdata, h.dataIn]

/-! ## A partial word -/

/-- What two runs from reset show. -/
theorem SameShown.collected (hn : n ∣ 12) {op op' : CoreIn} (h : SameShown n op op')
    (hena : op.ena = true) (hena' : op'.ena = true) (hrestart : NoRestart op)
    (hrestart' : NoRestart op') :
    collectedTag op = collectedTag op' ∧
      leftBytes 16 op.shownLength (collectedOut op 0) =
        leftBytes 16 op.shownLength (collectedOut op' 0) := by
  obtain ⟨j, hrun⟩ := run_collected hn op hena
  obtain ⟨j', hrun'⟩ := run_collected hn op' hena'
  have hreset : Core.reset.FromReset n := .init rfl
  obtain ⟨hj, -, hout, htag, -⟩ := hrun Core.reset hreset rfl (fun _ => op) (fun _ => hrestart) rfl
  obtain ⟨hj', -, hout', htag', -⟩ :=
    hrun' Core.reset hreset rfl (fun _ => op') (fun _ => hrestart') rfl
  obtain ⟨k, k', hk, hk', htags, -, houts⟩ := h Core.reset Core.reset hreset rfl hreset rfl
    (fun _ => op) (fun _ => op') (fun _ => hrestart) (fun _ => hrestart') rfl rfl
  obtain rfl := hk.unique hj
  obtain rfl := hk'.unique hj'
  rw [htag, htag'] at htags
  rw [hout, hout'] at houts
  exact ⟨htags, houts⟩

/-- The byte `0x01` in place `k`. -/
def fillByte (k : ℕ) : BitVec 128 := 1#128 <<< (8 * (15 - k))

/-- An operation under the zero key and nonce. -/
def probeOp (mode : BitVec 3) (adLength dataLength : BitVec 5) (ad dataIn : BitVec 128) : CoreIn where
  ena := true
  restart := false
  selType := mode
  key := 0
  nonce := 0
  ad := ad
  adLength := adLength
  dataLength := dataLength
  dataIn := dataIn
  tagIn := 0

/-- The sponge state of the probes after `len` bytes of associated data. -/
def probeState (ad : BitVec 128) (len : BitVec 5) : XState := adState ad len (keyState 0 0)

theorem collectedTag_probeOp_hash (adLength dataLength : BitVec 5) (ad dataIn : BitVec 128) :
    collectedTag (probeOp modeHash adLength dataLength ad dataIn) =
      squeezed (hashState dataIn dataLength) 4 0 :=
  collectedTag_of_hash rfl

theorem collectedTag_probeOp_aead {mode : BitVec 3} (hmode : mode ≠ modeHash)
    (adLength dataLength : BitVec 5) (ad dataIn : BitVec 128) :
    collectedTag (probeOp mode adLength dataLength ad dataIn) =
      squeezed (dataState mode dataIn dataLength (probeState ad adLength)) 4 0 := by
  have hop : (probeOp mode adLength dataLength ad dataIn).selType ≠ modeHash := hmode
  rw [collectedTag_of_aead hop]
  rfl

/-- The first byte of the keystream shows the byte after the associated data. -/
theorem probe_stream : ∀ len : BitVec 5, InBlock len → ¬4 ∣ len.toNat →
    byteLE (unpack (probeState 0 len)).a₀ 0 ≠
      byteLE (unpack (probeState (fillByte len.toNat) len)).a₀ 0 := by
  simp only [probeState, adState, keyState, xoodoo12_eq_pack]
  decide +kernel

/-- So does the tag of an empty message, -/
theorem probe_adTag : ∀ len : BitVec 5, InBlock len → ¬4 ∣ len.toNat →
    (unpack (dataState modeAeadEnc 0 0 (probeState 0 len))).a₀ ≠
      (unpack (dataState modeAeadEnc 0 0 (probeState (fillByte len.toNat) len))).a₀ := by
  simp only [probeState, dataState, adState, keyState, xoodoo12_eq_pack]
  decide +kernel

/-- and the tag of a message the byte after the message. -/
theorem probe_tag : ∀ adLen : BitVec 5, InBlock adLen → 4 ∣ adLen.toNat →
    ∀ len : BitVec 5, InBlock len → ¬4 ∣ len.toNat →
      (unpack (dataState modeAeadEnc 0 len (probeState 0 adLen))).a₀ ≠
        (unpack (dataState modeAeadEnc (fillByte len.toNat) len (probeState 0 adLen))).a₀ := by
  simp only [probeState, dataState, adState, keyState, xoodoo12_eq_pack]
  decide +kernel

theorem probe_hash : ∀ len : BitVec 5, InBlock len → ¬4 ∣ len.toNat →
    (unpack (hashState 0 len)).a₀ ≠ (unpack (hashState (fillByte len.toNat) len)).a₀ := by
  simp only [hashState, xoodoo12_eq_pack]
  decide +kernel

theorem byteBE_fillByte {k i : ℕ} (hk : k < 16) (hi : i < 16) :
    byteBE 16 (fillByte k) i = if i = k then 1 else 0 := by
  have htable : ∀ k < 16, ∀ i < 16, byteBE 16 (fillByte k) i = if i = k then 1 else 0 := by
    decide +kernel
  exact htable k hk i hi

theorem leftBytes_fillByte {len : ℕ} (h : len < 16) :
    leftBytes 16 len (0 : BitVec 128) = leftBytes 16 len (fillByte len) := by
  apply List.map_congr_left
  intro i hi
  have hi : i < len := List.mem_range.1 hi
  rw [byteBE_fillByte h (by omega), if_neg (by omega)]
  exact byteBE_zero 128 16 i

theorem lt_of_not_dvd {len : BitVec 5} (hlen : InBlock len) (h : ¬4 ∣ len.toNat) :
    len.toNat < 16 := by
  have hle : len.toNat ≤ 16 := hlen
  omega

/-- A partial word of associated data shows in every encryption and decryption. -/
theorem not_onlyStated_ad (hn : n ∣ 12) {mode : BitVec 3} (hmode : mode ≠ modeHash)
    {adLen len : BitVec 5} (had : InBlock adLen) (hpart : ¬4 ∣ adLen.toNat) (hlen : InBlock len) :
    ¬OnlyStated n mode adLen len := by
  intro h
  have hsame : SameStated (probeOp mode adLen len 0 0)
      (probeOp mode adLen len (fillByte adLen.toNat) 0) :=
    ⟨rfl, rfl, rfl, rfl, rfl, rfl, leftBytes_fillByte (lt_of_not_dvd had hpart), rfl⟩
  obtain ⟨htag, hout⟩ := (h _ _ rfl rfl rfl rfl rfl hsame).collected hn rfl rfl rfl rfl
  by_cases hzero : len = 0
  · -- no keystream is shown, but the tag is
    subst hzero
    rw [collectedTag_probeOp_aead hmode, collectedTag_probeOp_aead hmode] at htag
    have hempty (r : XState) : dataState mode 0 0 r = dataState modeAeadEnc 0 0 r := by
      rw [dataState, dataState, show words 0 = 0 from rfl, loadWords_zero, loadWords_zero]
    rw [hempty, hempty] at htag
    exact probe_adTag adLen had hpart (word_of_squeezed htag)
  · have hpos : 0 < len.toNat := by
      rcases Nat.eq_zero_or_pos len.toNat with h | h
      · exact absurd (BitVec.eq_of_toNat_eq h) hzero
      · exact h
    have hwords : 0 < words len := words_pos (by simpa [BitVec.lt_def] using hpos)
    have hfirst (ad : BitVec 128) : byteBE 16 (collectedOut (probeOp mode adLen len ad 0) 0) 0 =
        byteLE (unpack (probeState ad adLen)).a₀ 0 ^^^ byteLE (inputWord 0 0) 0 := by
      rw [collectedOut_of_aead (show (probeOp mode adLen len ad 0).selType ≠ modeHash from hmode),
        byteBE_collectWords _ _ (words_le _) (by show 0 < 4 * words len; omega), streamWord,
        byteLE_xor, wordOut_ofNat _ (by decide)]
      rfl
    have hshown : (probeOp mode adLen len 0 0).shownLength = len.toNat := if_neg hmode
    rw [hshown] at hout
    have hbyte := byteBE_of_leftBytes hout hpos
    rw [hfirst, hfirst, BitVec.xor_left_inj] at hbyte
    exact probe_stream adLen had hpart hbyte

/-- The data to decrypt that put `data` into the sponge. -/
def probeData (mode : BitVec 3) (data : BitVec 128) (r : XState) : BitVec 128 :=
  if mode = modeAeadDec then squeezed r 4 0 ^^^ data else data

theorem dataState_probeData (mode : BitVec 3) (data : BitVec 128) {len : BitVec 5} (r : XState) :
    dataState mode (probeData mode data r) len r = dataState modeAeadEnc data len r := by
  have henc : modeAeadEnc ≠ modeAeadDec := by decide
  have hword : ∀ j < words len, dataWord mode (probeData mode data r) r j =
      dataWord modeAeadEnc data r j := by
    intro j hj
    have hj4 : j < 4 := by have := words_le len; omega
    rw [dataWord, dataWord, if_neg henc, probeData]
    by_cases hdec : mode = modeAeadDec
    · rw [if_pos hdec, if_pos hdec, streamWord]
      have hsqueezed : inputWord (squeezed r 4 0 ^^^ data) j =
          wordOut r (BitVec.ofNat 4 j) ^^^ inputWord data j := by
        apply eq_of_byteLE 4 rfl
        intro b hb
        rw [byteLE_xor, byteLE_inputWord _ hj4 hb, byteLE_inputWord _ hj4 hb, byteBE_xor, squeezed,
          byteBE_collectWords _ _ (by decide) (by omega), show (4 * j + b) / 4 = j by omega,
          show (4 * j + b) % 4 = b by omega]
      rw [hsqueezed, ← BitVec.xor_assoc, BitVec.xor_self, BitVec.zero_xor]
    · rw [if_neg hdec, if_neg hdec]
  rw [dataState, dataState, loadWords_congr hword]

/-- A partial word of data shows in every tag. -/
theorem not_onlyStated_data (hn : n ∣ 12) {mode : BitVec 3} (hmode : mode ≠ modeHash)
    {adLen len : BitVec 5} (had : InBlock adLen) (hwhole : 4 ∣ adLen.toNat) (hlen : InBlock len)
    (hpart : ¬4 ∣ len.toNat) : ¬OnlyStated n mode adLen len := by
  intro h
  have hlt := lt_of_not_dvd hlen hpart
  have hdata : leftBytes 16 len.toNat (probeData mode 0 (probeState 0 adLen)) =
      leftBytes 16 len.toNat (probeData mode (fillByte len.toNat) (probeState 0 adLen)) := by
    have hfill := leftBytes_fillByte hlt
    rw [probeData, probeData]
    split
    · apply List.map_congr_left
      intro i hi
      rw [byteBE_xor, byteBE_xor, byteBE_of_leftBytes hfill (List.mem_range.1 hi)]
    · exact hfill
  have hsame : SameStated (probeOp mode adLen len 0 (probeData mode 0 (probeState 0 adLen)))
      (probeOp mode adLen len 0 (probeData mode (fillByte len.toNat) (probeState 0 adLen))) :=
    ⟨rfl, rfl, rfl, rfl, rfl, rfl, rfl, hdata⟩
  obtain ⟨htag, -⟩ := (h _ _ rfl rfl rfl rfl rfl hsame).collected hn rfl rfl rfl rfl
  rw [collectedTag_probeOp_aead hmode, collectedTag_probeOp_aead hmode, dataState_probeData,
    dataState_probeData] at htag
  exact probe_tag adLen had hwhole len hlen hpart (word_of_squeezed htag)

/-- A partial word shows in the hash. -/
theorem not_onlyStated_hash (hn : n ∣ 12) (adLen : BitVec 5) {len : BitVec 5} (hlen : InBlock len)
    (hpart : ¬4 ∣ len.toNat) : ¬OnlyStated n modeHash adLen len := by
  intro h
  have hsame : SameStated (probeOp modeHash adLen len 0 0)
      (probeOp modeHash adLen len 0 (fillByte len.toNat)) :=
    ⟨rfl, rfl, rfl, rfl, rfl, rfl, rfl, leftBytes_fillByte (lt_of_not_dvd hlen hpart)⟩
  obtain ⟨htag, -⟩ := (h _ _ rfl rfl rfl rfl rfl hsame).collected hn rfl rfl rfl rfl
  rw [collectedTag_probeOp_hash, collectedTag_probeOp_hash] at htag
  exact probe_hash len hlen hpart (word_of_squeezed htag)

/-! ## The lengths for which the bytes past them do not matter -/

/-- The results depend only on the bytes inside the lengths exactly when the data, and outside the
    hash mode the associated data too, end with a whole word. -/
theorem only_stated_iff (hn : n ∣ 12) (mode : BitVec 3) {adLen len : BitVec 5} (had : InBlock adLen)
    (hlen : InBlock len) :
    OnlyStated n mode adLen len ↔
      4 ∣ len.toNat ∧ (mode = modeHash ∨ 4 ∣ adLen.toNat) := by
  constructor
  · intro h
    by_cases hmode : mode = modeHash
    · subst hmode
      refine ⟨?_, .inl rfl⟩
      by_contra hpart
      exact not_onlyStated_hash hn adLen hlen hpart h
    · have hwhole : 4 ∣ adLen.toNat := by
        by_contra hpart
        exact not_onlyStated_ad hn hmode had hpart hlen h
      refine ⟨?_, .inr hwhole⟩
      by_contra hpart
      exact not_onlyStated_data hn hmode had hwhole hlen hpart h
  · rintro ⟨hwhole, hadWhole⟩ op op' hena hena' rfl rfl rfl hsame
    exact sameShown_of_whole hn hena hena' had hlen hwhole hadWhole hsame

theorem only_stated_iff_hash :
    OnlyStated 1 modeHash 0 4 ↔ 4 ∣ (4 : BitVec 5).toNat ∧
      (modeHash = modeHash ∨ 4 ∣ (0 : BitVec 5).toNat) :=
  only_stated_iff (one_dvd 12) modeHash (by decide) (by decide)

/-- The hash of one byte differs for two fillings of the bytes after it. -/
theorem not_onlyStated_one_byte : ¬OnlyStated 1 modeHash 0 1 :=
  not_onlyStated_hash (one_dvd 12) 0 (by decide) (by decide)

end PicoSoc.Xoodyak
