import PicoSoc.Xoodyak.Outcome
import PicoSoc.Xoodyak.RoundTrip
import PicoSoc.Xoodyak.StatedLengths

set_option autoImplicit false

/-! # Decryption of the whole output register

The firmware feeds `data_out` back as it stands. The bytes after a partial last word are then the
encryption of the bytes that stood there, so the decryption restores the state of the encryption. -/

namespace PicoSoc.Xoodyak

open Bytes Clocked

variable {n : ℕ}

/-- The decryption of the output registers, with nothing cleared. -/
def CoreIn.readBack (op : CoreIn) (dataOut tag : BitVec 128) : CoreIn :=
  { op with ena := true, restart := false, selType := modeAeadDec, dataIn := dataOut, tagIn := tag }

/-- A word of the output register is a word of the key stream on the message. -/
theorem inputWord_collectWords (w : ℕ → BitVec 32) (old : BitVec 128) {j k : ℕ} (hj : j ≤ 4)
    (hk : k < j) : inputWord (collectWords (fun k => byteSwap (w k)) j old) k = w k := by
  apply eq_of_byteLE 4 rfl
  intro b hb
  rw [byteLE_inputWord _ (by omega) hb, byteBE_collectWords w old hj (by omega),
    show (4 * k + b) / 4 = k by omega, show (4 * k + b) % 4 = b by omega]

/-- Four words of data replace the whole register. -/
theorem collectedOut_four {op : CoreIn} (h : words op.dataLength = 4) (old old' : BitVec 128) :
    collectedOut op old = collectedOut op old' := by
  unfold collectedOut
  rw [h]
  split_ifs
  · exact squeezed_four _ _ _
  · exact collectWords_four _ _ _

theorem streamWord_streamWord {data data' : BitVec 128} {r : XState} {k : ℕ}
    (h : inputWord data' k = streamWord data r k) : streamWord data' r k = inputWord data k := by
  rw [streamWord, h, streamWord, ← BitVec.xor_assoc, BitVec.xor_self, BitVec.zero_xor]

/-- Decrypting what gives the message absorbs the message. -/
theorem dataState_of_streamWord {mode : BitVec 3} (hmode : mode ≠ modeAeadDec)
    {data data' : BitVec 128} {len : BitVec 5} {r : XState}
    (h : ∀ k < words len, streamWord data' r k = inputWord data k) :
    dataState modeAeadDec data' len r = dataState mode data len r := by
  have hload : loadWords (dataWord modeAeadDec data' r) 0 (words len) r =
      loadWords (dataWord mode data r) 0 (words len) r := by
    refine loadWords_congr (fun k hk => ?_) r
    rw [dataWord, if_pos rfl, dataWord, if_neg hmode, h k hk]
  rw [dataState, hload, dataState]

section

variable {op : CoreIn} (hmode : op.selType = modeAeadEnc) (old : BitVec 128) (tag : BitVec 128)

include hmode

/-- The decryption finds its own words of the message. -/
theorem streamWord_readBack {k : ℕ} (hk : k < words op.dataLength) :
    streamWord (collectedOut op old) (adState op.ad op.adLength (keyState op.key op.nonce)) k =
      inputWord op.dataIn k := by
  refine streamWord_streamWord ?_
  rw [collectedOut_of_aead (by rw [hmode]; decide)]
  exact inputWord_collectWords _ old (words_le _) hk

theorem aeadState_readBack : aeadState (op.readBack (collectedOut op old) tag) = aeadState op :=
  dataState_of_streamWord (by rw [hmode]; decide) fun _ hk => streamWord_readBack hmode old hk

/-- The tag of the encryption is accepted. -/
theorem collectedValid_readBack :
    collectedValid (op.readBack (collectedOut op old) (collectedTag op)) = true := by
  have hdec : (op.readBack (collectedOut op old) (collectedTag op)).selType = modeAeadDec := rfl
  rw [collectedValid, if_pos hdec, aeadState_readBack hmode]
  refine (tagMatches_iff _ _).2 ?_
  show _ = leftBytes 16 16 (collectedTag op)
  rw [collectedTag_of_aead (by rw [hmode]; decide), leftBytes_squeezed]

theorem byteBE_readBack (old' : BitVec 128) {i : ℕ} (hi : i < 4 * words op.dataLength) :
    byteBE 16 (collectedOut (op.readBack (collectedOut op old) tag) old') i =
      byteBE 16 op.dataIn i := by
  have hle := words_le op.dataLength
  rw [collectedOut_of_aead (show modeAeadDec ≠ modeHash by decide)]
  refine (byteBE_collectWords _ old' hle (by exact hi)).trans ?_
  refine (congrArg (fun w => byteLE w (i % 4)) (streamWord_readBack hmode old (by omega))).trans ?_
  rw [byteLE_inputWord _ (by omega) (by omega), Nat.div_add_mod]

/-- Four words of message come back as they were. -/
theorem collectedOut_readBack (hwords : words op.dataLength = 4) (old' : BitVec 128) :
    collectedOut (op.readBack (collectedOut op old) tag) old' = op.dataIn :=
  eq_of_byteBE 16 rfl fun _ hi => byteBE_readBack hmode old tag old' (by omega)

end

/-- Encryption, then decryption of the registers as they stand, each from any reachable idle state:
    the tag is accepted and every word of the message comes back, at every length and whatever the
    unused bytes hold. -/
theorem read_back_accepted (hn : n ∣ 12) (op : CoreIn) {s : Core} {env : ℕ → CoreIn}
    (henc : Accepted n op.encryption s env) :
    ∃ k, FirstDone (Core.step n) env s Core.done k ∧
      ∀ s' env', Accepted n (op.readBack (run (Core.step n) env s k).dataOut
          (run (Core.step n) env s k).tag) s' env' →
        ∃ k', FirstDone (Core.step n) env' s' Core.done k' ∧
          (run (Core.step n) env' s' k').valid = true ∧
          ∀ i < 4 * words op.dataLength,
            byteBE 16 (run (Core.step n) env' s' k').dataOut i = byteBE 16 op.dataIn i := by
  have hmode : op.encryption.selType = modeAeadEnc := rfl
  obtain ⟨k, hrun⟩ := run_collected hn op.encryption rfl
  obtain ⟨hdone, -, hout, htag, -⟩ := hrun s henc.reachable henc.idle env henc.restart henc.start
  refine ⟨k, hdone, fun s' env' hdec => ?_⟩
  rw [hout, htag] at hdec
  obtain ⟨k', hrun'⟩ := run_collected hn (op.encryption.readBack
    (collectedOut op.encryption s.dataOutR) (collectedTag op.encryption)) rfl
  obtain ⟨hdone', -, hout', -, hvalid⟩ :=
    hrun' s' hdec.reachable hdec.idle env' hdec.restart hdec.start
  refine ⟨k', hdone', hvalid.trans (collectedValid_readBack hmode _), fun i hi => ?_⟩
  rw [hout']
  exact byteBE_readBack hmode _ _ _ hi

/-- From reset, the message of the firmware's self-test. -/
theorem read_back_accepted_firmware :
    ∃ k, FirstDone (Core.step 1) (fun _ => firmwareOp.encryption) Core.reset Core.done k ∧
      ∀ s' env', Accepted 1 (firmwareOp.readBack
          (run (Core.step 1) (fun _ => firmwareOp.encryption) Core.reset k).dataOut
          (run (Core.step 1) (fun _ => firmwareOp.encryption) Core.reset k).tag) s' env' →
        ∃ k', FirstDone (Core.step 1) env' s' Core.done k' ∧
          (run (Core.step 1) env' s' k').valid = true ∧
          ∀ i < 4 * words 14,
            byteBE 16 (run (Core.step 1) env' s' k').dataOut i = byteBE 16 firmwareOp.dataIn i :=
  @read_back_accepted 1 (one_dvd 12) firmwareOp Core.reset (fun _ => firmwareOp.encryption)
    (accepted_reset rfl)

end PicoSoc.Xoodyak
