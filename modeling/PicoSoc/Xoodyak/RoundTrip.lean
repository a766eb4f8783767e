import PicoSoc.Xoodyak.Lanes
import PicoSoc.Xoodyak.Refinement

set_option autoImplicit false

/-! # Decryption after encryption

In decryption mode the last word of the data replaces the word of the state, also in the bytes
after the end of the ciphertext; in encryption mode these bytes keep what the permutation left
there. The plaintext always comes back. The tag comes back when the last word is whole, and for a
partial word only if clearing those bytes does not change it. -/

namespace PicoSoc.Xoodyak

open Bytes Clocked

variable {n : ℕ}

/-! ## Decryption on bytes -/

/-- The state with the bytes cleared that share a word with the end of `m` bytes of data. -/
def clearUnused (m : ℕ) (s : Cyclist.State 48) : Cyclist.State 48 :=
  fun i => if m ≤ i.val ∧ i.val < 4 * ((m + 3) / 4) then 0 else s i

theorem clearUnused_whole {m : ℕ} (hm : 4 ∣ m) (s : Cyclist.State 48) : clearUnused m s = s := by
  funext i
  unfold clearUnused
  rw [if_neg (by omega)]

/-- Decryption loads the ciphertext over the state. -/
theorem getElem_loadDecrypted (data : BitVec 128) (m : ℕ) (r : XState) {k : ℕ}
    (hk : k < 12) :
    (loadWords (dataWord modeAeadDec data r) 0 m r)[k] =
      if k < m then inputWord data k else r[k] := by
  rw [getElem_loadWords]
  by_cases h : k < m
  · rw [if_pos (by omega), if_pos h, dataWord, if_pos rfl, streamWord, Nat.sub_zero,
      wordOut_ofNat r hk, ← BitVec.xor_assoc, BitVec.xor_self, BitVec.zero_xor]
  · rw [if_neg (by omega), if_neg h]

/-- The sponge state before the padding, when the ciphertext `C` of a plaintext `P` is decrypted:
    `P` has gone down on a state with the unused bytes cleared. -/
theorem stateBytes_loadDecrypted {data ct : BitVec 128} {len : BitVec 5} (hlen : InBlock len)
    {r : XState}
    (hct : ∀ i (hi : i < 16), byteBE 16 ct i =
      if i < len.toNat then byteBE 16 data i ^^^ stateBytes r ⟨i, by omega⟩ else 0) :
    stateBytes (loadWords (dataWord modeAeadDec ct r) 0 (words len) r) =
      Cyclist.addBytes (leftBytes 16 len.toNat data) (clearUnused len.toNat (stateBytes r)) := by
  have hle : len.toNat ≤ 16 := hlen
  have hwords := words_eq hlen
  funext i
  rw [stateBytes_apply, getElem_loadDecrypted, Cyclist.addBytes, clearUnused,
    getD_leftBytes]
  by_cases hin : i.val / 4 < words len
  · rw [if_pos hin, byteLE_inputWord ct (by have := words_le len; omega) (by omega),
      Nat.div_add_mod, hct i.val (by omega)]
    by_cases hm : i.val < len.toNat
    · rw [if_pos hm, if_neg (by omega), if_pos hm, BitVec.xor_comm]
    · rw [if_neg hm, if_pos (by omega), if_neg hm]
      rfl
  · rw [if_neg hin, if_neg (by omega), if_neg (by omega), stateBytes_apply]
    exact BitVec.xor_zero.symm

/-- The state after the data has gone down and been permuted, for a state `s` of the object. -/
def tagState (P : List Byte) (s : Cyclist.State 48) : Cyclist.State 48 :=
  (Cyclist.up Spec.f .keyed 0x40 (Cyclist.down .keyed P 0 ⟨.up, s⟩)).state

theorem stateBytes_decrypted {data ct : BitVec 128} {len : BitVec 5} (hlen : InBlock len)
    {r : XState}
    (hct : ∀ i (hi : i < 16), byteBE 16 ct i =
      if i < len.toNat then byteBE 16 data i ^^^ stateBytes r ⟨i, by omega⟩ else 0) :
    stateBytes (dataState modeAeadDec ct len r) =
      tagState (leftBytes 16 len.toNat data) (clearUnused len.toNat (stateBytes r)) := by
  have hdomain : domainSqueeze = colourWord (0x00 ^^^ 0x40) := by decide
  rw [dataState, ← f_stateBytes, hdomain, stateBytes_padAfter hlen _ (length_leftBytes _ _ _)
    (stateBytes_loadDecrypted hlen hct), ← addLast_addLast]
  rfl

/-! ## The tag comparison -/

theorem byteSwap_injective {x y : BitVec 32} (h : byteSwap x = byteSwap y) : x = y := by
  apply eq_of_byteLE 4 rfl
  intro i hi
  have hbyte := congrArg (byteLE · (3 - i)) h
  simp only [byteLE_byteSwap _ (show 3 - i < 4 by omega)] at hbyte
  rwa [show 3 - (3 - i) = i by omega] at hbyte

theorem byteSwap_byteSwap (x : BitVec 32) : byteSwap (byteSwap x) = x := by
  apply eq_of_byteLE 4 rfl
  intro i hi
  rw [byteLE_byteSwap _ hi, byteLE_byteSwap _ (by omega), show 3 - (3 - i) = i by omega]

theorem tagSlice_eq (tagIn : BitVec 128) (idx : BitVec 2) :
    tagSlice tagIn idx = byteSwap (getWord tagIn idx) := by
  unfold tagSlice getWord
  split
  · rw [byteSwap_byteSwap]
  · split
    · rw [byteSwap_byteSwap]
    · split <;> rw [byteSwap_byteSwap]

theorem tagMatches_iff_words (tagIn : BitVec 128) (r : XState) (j : ℕ) :
    tagMatches tagIn r j = true ↔ ∀ k < j, wordOut r (BitVec.ofNat 4 k) = inputWord tagIn k := by
  induction j with
  | zero => simp [tagMatches]
  | succ j ih =>
      have hword : byteSwap (wordOut r (BitVec.ofNat 4 j)) = tagSlice tagIn (BitVec.ofNat 2 j) ↔
          wordOut r (BitVec.ofNat 4 j) = inputWord tagIn j := by
        rw [tagSlice_eq]
        exact ⟨byteSwap_injective, fun h => by rw [h]; rfl⟩
      rw [tagMatches, Bool.and_eq_true, ih, beq_iff_eq, hword, Nat.forall_lt_succ_right]

/-- The comparison accepts exactly the first sixteen bytes of the state. -/
theorem tagMatches_iff (tagIn : BitVec 128) (r : XState) :
    tagMatches tagIn r 4 = true ↔
      Cyclist.takeBytes 16 (stateBytes r) = leftBytes 16 16 tagIn := by
  rw [tagMatches_iff_words, takeBytes_stateBytes r (by decide), leftBytes]
  constructor
  · intro h
    apply List.map_congr_left
    intro i hi
    have hi' : i < 16 := List.mem_range.1 hi
    rw [h (i / 4) (by omega), byteLE_inputWord tagIn (by omega) (by omega), Nat.div_add_mod]
  · intro h k hk
    apply eq_of_byteLE 4 rfl
    intro b hb
    have hbyte := List.map_inj_left.1 h (4 * k + b) (List.mem_range.2 (by omega))
    rwa [show (4 * k + b) / 4 = k by omega, show (4 * k + b) % 4 = b by omega,
      ← byteLE_inputWord tagIn hk hb] at hbyte

/-! ## Two runs -/

/-- In cycle `0` of the run the idle core accepts the operation `op`. -/
structure Accepted (n : ℕ) (op : CoreIn) (s : Core) (env : ℕ → CoreIn) : Prop where
  reachable : Reachable (Core.step n) (· = Core.reset) NoRestart s
  idle : s.stateR = .idle
  restart : ∀ k, NoRestart (env k)
  start : env 0 = op

/-- The encryption of the data of `op`. -/
def CoreIn.encryption (op : CoreIn) : CoreIn :=
  { op with ena := true, restart := false, selType := modeAeadEnc }

/-- The decryption of the ciphertext and tag shown by the output registers; the bytes of
    `data_out` after the ciphertext are cleared. -/
def CoreIn.decryption (op : CoreIn) (dataOut tag : BitVec 128) : CoreIn :=
  { op with
    ena := true
    restart := false
    selType := modeAeadDec
    dataIn := keepLeft 16 op.dataLength.toNat dataOut
    tagIn := tag }

/-- Encrypting and then decrypting, each from any reachable idle state, accepts the tag and
    returns the message. -/
def RoundTrip (n : ℕ) (op : CoreIn) : Prop :=
  ∀ s env, Accepted n op.encryption s env →
    ∃ k, FirstDone (Core.step n) env s Core.done k ∧
      ∀ s' env', Accepted n (op.decryption (run (Core.step n) env s k).dataOut
          (run (Core.step n) env s k).tag) s' env' →
        ∃ k', FirstDone (Core.step n) env' s' Core.done k' ∧
          (run (Core.step n) env' s' k').valid = true ∧
          leftBytes 16 op.dataLength.toNat (run (Core.step n) env' s' k').dataOut = op.dataBytes

/-- The 48 bytes of the object from which the keystream is taken. -/
def keystream (op : CoreIn) : Cyclist.State 48 :=
  (Cyclist.up Spec.f .keyed 0x80 (Spec.withAd op.keyBytes op.nonceBytes op.adBytes)).state

/-- The tag does not depend on the keystream bytes between the end of the message and the end of
    its last word. -/
def TagKept (op : CoreIn) : Prop :=
  Cyclist.takeBytes 16
      (tagState op.dataBytes (clearUnused op.dataLength.toNat (keystream op))) =
    Cyclist.takeBytes 16 (tagState op.dataBytes (keystream op))

/-- What an encryption shows. -/
theorem encryption_outcome (hn : n ∣ 12) {op : CoreIn} (hop : op.WellFormed) {s : Core}
    {env : ℕ → CoreIn} (h : Accepted n op.encryption s env) :
    ∃ k, FirstDone (Core.step n) env s Core.done k ∧
      leftBytes 16 op.dataLength.toNat (run (Core.step n) env s k).dataOut =
        Cyclist.xorBytes op.dataBytes (Cyclist.takeBytes op.dataLength.toNat (keystream op)) ∧
      leftBytes 16 16 (run (Core.step n) env s k).tag =
        Cyclist.takeBytes 16 (tagState op.dataBytes (keystream op)) := by
  have hinv := reachable_inv hn h.reachable
  have hena : (env 0).ena = true := by rw [h.start]; rfl
  have hstarted := step_start_op hn hinv h.idle (h.restart 0) hena
  rw [h.start] at hstarted
  obtain ⟨t, hpath, hstate, -, hout, htag, -⟩ := path_aead hn hstarted
    (by decide : modeAeadEnc ≠ modeHash)
  rw [← h.start] at hpath
  obtain ⟨hdone, -, hdataOut, htagOut, -⟩ := run_op hn hinv h.idle h.restart hena hpath hstate
  have hkey : stateBytes (adState op.ad op.adLength (keyState op.key op.nonce)) = keystream op :=
    stateBytes_withAd hop
  have henc : modeAeadEnc ≠ modeAeadDec := by decide
  refine ⟨_, hdone, ?_, ?_⟩
  · rw [hdataOut, hout]
    exact (leftBytes_stream hop.dataLength _ _ _).trans (by rw [← hkey]; rfl)
  · rw [htagOut, htag, leftBytes_squeezed, ← hkey]
    exact congrArg _ (stateBytes_dataState henc hop.dataLength hop.dataIn _)

/-- What a decryption of the ciphertext shows. -/
theorem decryption_outcome (hn : n ∣ 12) {op : CoreIn} (hop : op.WellFormed) {dataOut tag : BitVec 128}
    (hout : leftBytes 16 op.dataLength.toNat dataOut =
      Cyclist.xorBytes op.dataBytes (Cyclist.takeBytes op.dataLength.toNat (keystream op)))
    (htag : leftBytes 16 16 tag = Cyclist.takeBytes 16 (tagState op.dataBytes (keystream op)))
    {s : Core} {env : ℕ → CoreIn} (h : Accepted n (op.decryption dataOut tag) s env) :
    ∃ k, FirstDone (Core.step n) env s Core.done k ∧
      ((run (Core.step n) env s k).valid = true ↔ TagKept op) ∧
      leftBytes 16 op.dataLength.toNat (run (Core.step n) env s k).dataOut = op.dataBytes := by
  have hinv := reachable_inv hn h.reachable
  have hena : (env 0).ena = true := by rw [h.start]; rfl
  have hstarted := step_start_op hn hinv h.idle (h.restart 0) hena
  rw [h.start] at hstarted
  obtain ⟨t, hpath, hstate, hsel, hdata, -, hvalid⟩ := path_aead hn hstarted
    (by decide : modeAeadDec ≠ modeHash)
  rw [← h.start] at hpath
  obtain ⟨hdone, -, hdataOut, -, hvalidOut⟩ := run_op hn hinv h.idle h.restart hena hpath hstate
  have hle : op.dataLength.toNat ≤ 16 := hop.dataLength
  have hkey : stateBytes (adState op.ad op.adLength (keyState op.key op.nonce)) = keystream op :=
    stateBytes_withAd hop
  -- the core decrypts the message bytes only, what is above them reads as zero
  have hct : ∀ i (hi : i < 16), byteBE 16 (keepLeft 16 op.dataLength.toNat dataOut) i =
      if i < op.dataLength.toNat then byteBE 16 op.dataIn i ^^^
        stateBytes (adState op.ad op.adLength (keyState op.key op.nonce)) ⟨i, by omega⟩ else 0 := by
    intro i hi
    rw [byteBE_keepLeft rfl hle _ hi]
    split
    · next him =>
      have hmap := hout
      rw [leftBytes, CoreIn.dataBytes, leftBytes, Cyclist.takeBytes, Cyclist.xorBytes,
        List.zipWith_map, List.zipWith_self] at hmap
      have hbyte := List.map_inj_left.1 hmap i (List.mem_range.2 him)
      rw [hbyte, hkey, dif_pos (show i < 48 by omega)]
    · rfl
  refine ⟨_, hdone, ?_, ?_⟩
  · rw [hvalidOut, hsel, hvalid]
    have hmode : (op.decryption dataOut tag).selType = modeAeadDec := rfl
    have hne : (modeAeadDec == modeAeadEnc) = false := by decide
    rw [hmode, hne, if_pos rfl, Bool.false_or, tagMatches_iff]
    -- both directions leave the same state, so the tags agree
    have hdec := stateBytes_decrypted hop.dataLength hct
    have hin : (op.decryption dataOut tag).tagIn = tag := rfl
    rw [hin, htag, TagKept, ← hkey]
    exact iff_of_eq (congrArg (fun s => Cyclist.takeBytes 16 s = _) hdec)
  · have hkept : leftBytes 16 op.dataLength.toNat (keepLeft 16 op.dataLength.toNat dataOut) =
        leftBytes 16 op.dataLength.toNat dataOut := by
      apply List.map_congr_left
      intro i hi
      have hi' : i < op.dataLength.toNat := List.mem_range.1 hi
      rw [byteBE_keepLeft rfl hle _ (by omega), if_pos hi']
    rw [hdataOut, hdata]
    refine (leftBytes_stream hop.dataLength (keepLeft 16 op.dataLength.toNat dataOut) _
      (adState op.ad op.adLength (keyState op.key op.nonce))).trans ?_
    rw [hkept, hout, hkey]
    exact Cyclist.xorBytes_cancel (by rw [CoreIn.dataBytes]; simp)

/-! ## When the round trip holds -/

/-- From reset an operation is accepted in the first cycle. -/
theorem accepted_reset {op : CoreIn} (hop : NoRestart op) :
    Accepted n op Core.reset (fun _ => op) :=
  ⟨.init rfl, rfl, fun _ => hop, rfl⟩

theorem roundTrip_iff_tagKept (hn : n ∣ 12) {op : CoreIn} (hop : op.WellFormed) :
    RoundTrip n op ↔ TagKept op := by
  constructor
  · intro h
    obtain ⟨k, hdone, hdec⟩ := h _ _ (accepted_reset rfl)
    obtain ⟨k', hdone', hout, htag⟩ := encryption_outcome hn hop (accepted_reset (n := n) rfl)
    have hk : k' = k := hdone'.unique hdone
    subst hk
    obtain ⟨j, hj, hvalid, -⟩ := hdec _ _ (accepted_reset rfl)
    obtain ⟨j', hj', hiff, -⟩ := decryption_outcome hn hop hout htag (accepted_reset (n := n) rfl)
    have hjj : j' = j := hj'.unique hj
    subst hjj
    exact hiff.1 hvalid
  · intro hkept s env henc
    obtain ⟨k, hdone, hout, htag⟩ := encryption_outcome hn hop henc
    refine ⟨k, hdone, fun s' env' hdec => ?_⟩
    obtain ⟨k', hdone', hiff, hdata⟩ := decryption_outcome hn hop hout htag hdec
    exact ⟨k', hdone', hiff.2 hkept, hdata⟩

theorem tagKept_whole {op : CoreIn} (hm : 4 ∣ op.dataLength.toNat) : TagKept op := by
  rw [TagKept, clearUnused_whole hm]

/-! ## A partial last word -/

/-- An operation on `len` zero bytes without associated data, under the zero key and nonce. -/
def zeroOp (len : BitVec 5) : CoreIn where
  ena := true
  restart := false
  selType := modeAeadEnc
  key := 0
  nonce := 0
  ad := 0
  adLength := 0
  dataLength := len
  dataIn := 0
  tagIn := 0

theorem zeroOp_wellFormed {len : BitVec 5} (hlen : InBlock len) : (zeroOp len).WellFormed :=
  ⟨(by decide : InBlock 0), hlen, fun _ _ _ => byteBE_zero _ _ _, fun _ _ _ => byteBE_zero _ _ _⟩

/-- The register the keystream of `zeroOp` is taken from. -/
def zeroKeystream : XState :=
  #v[0xa72d805f, 0x766462c5, 0xaae36fd4, 0x319a0902, 0x0ff1c5cc, 0xf1a2a9c9, 0xfc519145, 0xc42bf811,
    0xcac49a1d, 0xeebf141b, 0x856831f1, 0x6953ab1b]

theorem zeroKeystream_eq : adState 0 0 (keyState 0 0) = zeroKeystream := by
  rw [adState, keyState, xoodoo12_eq_pack, xoodoo12_eq_pack]
  decide +kernel

/-- The ciphertext block of `zeroOp` as it comes back for decryption. -/
def zeroCiphertext (len : BitVec 5) : BitVec 128 :=
  keepLeft 16 len.toNat (squeezed zeroKeystream 4 0)

/-- One word of the two tags, for every length. -/
theorem zeroOp_tags : ∀ len : BitVec 5, InBlock len → ¬ 4 ∣ len.toNat →
    (unpack (dataState modeAeadDec (zeroCiphertext len) len zeroKeystream)).a₀ ≠
      (unpack (dataState modeAeadEnc 0 len zeroKeystream)).a₀ := by
  simp only [dataState, xoodoo12_eq_pack]
  decide +kernel

theorem zeroOp_not_tagKept {len : BitVec 5} (hlen : InBlock len) (hm : ¬ 4 ∣ len.toNat) :
    ¬ TagKept (zeroOp len) := by
  have hle : len.toNat ≤ 16 := hlen
  intro hkept
  have hkey : keystream (zeroOp len) = stateBytes zeroKeystream := by
    rw [← zeroKeystream_eq]
    exact (stateBytes_withAd (zeroOp_wellFormed hlen)).symm
  have hct : ∀ i (hi : i < 16), byteBE 16 (zeroCiphertext len) i =
      if i < len.toNat then byteBE 16 0#128 i ^^^ stateBytes zeroKeystream ⟨i, by omega⟩ else 0 := by
    intro i hi
    rw [zeroCiphertext, byteBE_keepLeft rfl hle _ hi, byteBE_zero, squeezed,
      byteBE_collectWords _ _ (by decide) hi, stateBytes_apply, wordOut_ofNat _ (by omega)]
    simp
  have hdec := stateBytes_decrypted hlen hct
  have henc := stateBytes_dataState (show modeAeadEnc ≠ modeAeadDec by decide) hlen
    (fun _ _ _ => byteBE_zero 128 16 _) zeroKeystream
  rw [TagKept, hkey] at hkept
  have htags : Cyclist.takeBytes 16
      (stateBytes (dataState modeAeadDec (zeroCiphertext len) len zeroKeystream)) =
      Cyclist.takeBytes 16 (stateBytes (dataState modeAeadEnc 0 len zeroKeystream)) := by
    rw [hdec]
    exact hkept.trans (congrArg (Cyclist.takeBytes 16) henc.symm)
  rw [takeBytes_stateBytes _ (by decide), takeBytes_stateBytes _ (by decide)] at htags
  refine zeroOp_tags len hlen hm (eq_of_byteLE 4 rfl fun b hb => ?_)
  have hbyte := List.map_inj_left.1 htags b (List.mem_range.2 (by omega))
  rwa [show b / 4 = 0 by omega, show b % 4 = b by omega, wordOut_ofNat _ (by decide),
    wordOut_ofNat _ (by decide)] at hbyte

/-- Decryption undoes encryption for a message whose last word is whole. For another length it
    does so exactly when clearing the keystream bytes after the message does not change the tag,
    which fails for some key, nonce and data of every such length. -/
theorem decryption_undoes_encryption_iff (hn : n ∣ 12) :
    (∀ op : CoreIn, op.WellFormed →
      (RoundTrip n op ↔ 4 ∣ op.dataLength.toNat ∨ TagKept op)) ∧
    (∀ len : BitVec 5, InBlock len →
      ((∀ op : CoreIn, op.WellFormed → op.dataLength = len → RoundTrip n op) ↔
        4 ∣ len.toNat)) := by
  constructor
  · intro op hop
    rw [roundTrip_iff_tagKept hn hop]
    exact ⟨.inr, fun h => h.elim tagKept_whole id⟩
  · intro len hlen
    constructor
    · intro h
      by_contra hm
      have hround := h (zeroOp len) (zeroOp_wellFormed hlen) rfl
      exact zeroOp_not_tagKept hlen hm ((roundTrip_iff_tagKept hn (zeroOp_wellFormed hlen)).1 hround)
    · intro hm op hop hop_len
      exact (roundTrip_iff_tagKept hn hop).2 (tagKept_whole (hop_len ▸ hm))

theorem decryption_undoes_encryption_iff_one :
    RoundTrip 1 (zeroOp 4) ↔ 4 ∣ (zeroOp 4).dataLength.toNat ∨ TagKept (zeroOp 4) :=
  (decryption_undoes_encryption_iff (one_dvd 12)).1 (zeroOp 4) (zeroOp_wellFormed (by decide))

/-- A message of one zero byte under the zero key is rejected when it comes back. -/
theorem one_byte_rejected : (zeroOp 1).WellFormed ∧ ¬ RoundTrip 1 (zeroOp 1) := by
  have hop : (zeroOp 1).WellFormed := zeroOp_wellFormed (by decide)
  refine ⟨hop, fun h => ?_⟩
  exact zeroOp_not_tagKept (by decide) (by decide) ((roundTrip_iff_tagKept (one_dvd 12) hop).1 h)

end PicoSoc.Xoodyak
