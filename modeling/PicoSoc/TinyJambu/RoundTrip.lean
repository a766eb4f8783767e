import PicoSoc.TinyJambu.Refinement

set_option autoImplicit false

/-! # Decryption after encryption

Block by block the decryption meets the states of the encryption, because it absorbs the plaintext
it recovers. So the message comes back, and with it the tag. -/

namespace PicoSoc.TinyJambu

open Bytes Clocked

/-! ## One block -/

theorem xorBytes_cancel {X Y : List Byte} (h : X.length ≤ Y.length) :
    List.zipWith (· ^^^ ·) (List.zipWith (· ^^^ ·) X Y) Y = X := by
  induction X generalizing Y with
  | nil => rfl
  | cons x X ih =>
      cases Y with
      | nil => simp at h
      | cons y Y =>
          have hrest := ih (Y := Y) (by simpa using h)
          rw [List.zipWith_cons_cons, List.zipWith_cons_cons, hrest, BitVec.xor_assoc,
            BitVec.xor_self, BitVec.xor_zero]

theorem length_cryptBlock (k : BitVec 128) (decrypt : Bool) (s : Spec.State) {B : List Byte}
    (hB : B.length ≤ 4) : (Spec.cryptBlock k decrypt s B).1.length = B.length := by
  rw [Spec.cryptBlock, List.length_zipWith, List.length_map, List.length_range]
  omega

/-- Decrypting the block of an encryption gives the block and the state of the encryption. -/
theorem cryptBlock_cryptBlock (k : BitVec 128) (s : Spec.State) {B : List Byte}
    (hB : B.length ≤ 4) :
    Spec.cryptBlock k true s (Spec.cryptBlock k false s B).1 =
      (B, (Spec.cryptBlock k false s B).2) := by
  have hlength := length_cryptBlock k false s hB
  have hplain : (Spec.cryptBlock k true s (Spec.cryptBlock k false s B).1).1 = B :=
    xorBytes_cancel (by simpa using hB)
  have hstate : (Spec.cryptBlock k true s (Spec.cryptBlock k false s B).1).2 =
      (Spec.cryptBlock k false s B).2 := by
    have hdef : (Spec.cryptBlock k true s (Spec.cryptBlock k false s B).1).2 =
        Spec.addLength (Spec.cryptBlock k false s B).1
          (Spec.addWord 3 (Spec.loadBlock
            (Spec.cryptBlock k true s (Spec.cryptBlock k false s B).1).1)
            (Spec.permute k 1024 (Spec.addWord 1 Spec.frameData s))) := rfl
    rw [hdef, hplain, Spec.addLength, hlength]
    rfl
  exact Prod.ext hplain hstate

/-! ## All blocks -/

/-- Output and state after the first `j` blocks. -/
def cryptFirst (k : BitVec 128) (decrypt : Bool) (s : Spec.State) (X : List Byte) (j : ℕ) :
    List Byte × Spec.State :=
  (firstBlocks X j).foldl (cryptStep k decrypt) ([], s)

theorem cryptFirst_succ (k : BitVec 128) (decrypt : Bool) (s : Spec.State) (X : List Byte) (j : ℕ) :
    cryptFirst k decrypt s X (j + 1) =
      cryptStep k decrypt (cryptFirst k decrypt s X j) (block X j) := by
  rw [cryptFirst, firstBlocks_succ, List.foldl_append]
  rfl

theorem length_cryptFirst (k : BitVec 128) (decrypt : Bool) (s : Spec.State) (X : List Byte)
    (j : ℕ) : (cryptFirst k decrypt s X j).1.length = min (4 * j) X.length := by
  induction j with
  | zero => simp [cryptFirst, firstBlocks]
  | succ j ih =>
      have hB := length_block X j
      rw [cryptFirst_succ, cryptStep, List.length_append, ih, length_cryptBlock _ _ _ (by omega), hB]
      omega

/-- Later blocks only append to the output. -/
theorem cryptFirst_prefix (k : BitVec 128) (decrypt : Bool) (s : Spec.State) (X : List Byte)
    {i j : ℕ} (h : i ≤ j) :
    (cryptFirst k decrypt s X i).1 <+: (cryptFirst k decrypt s X j).1 := by
  induction j, h using Nat.le_induction with
  | base => exact List.prefix_refl _
  | succ j _ ih =>
      rw [cryptFirst_succ]
      exact ih.trans (List.prefix_append _ _)

/-- Block `j` of the output is the output for block `j`. -/
theorem block_crypt (k : BitVec 128) (s : Spec.State) (X : List Byte) {j : ℕ}
    (hj : j < (X.length + 3) / 4) :
    block (Spec.crypt k false s X).1 j =
      (Spec.cryptBlock k false (cryptFirst k false s X j).2 (block X j)).1 := by
  have hB := length_block X j
  obtain ⟨rest, hrest⟩ := cryptFirst_prefix k false s X (show j + 1 ≤ (X.length + 3) / 4 by omega)
  have hfirst := length_cryptFirst k false s X j
  have hnext := length_cryptFirst k false s X (j + 1)
  have hall := length_cryptFirst k false s X ((X.length + 3) / 4)
  have hblock := length_cryptBlock k false (cryptFirst k false s X j).2 (show (block X j).length ≤ 4 by
    omega)
  rw [← hrest, List.length_append] at hall
  rw [cryptFirst_succ, cryptStep] at hrest
  have hout : (Spec.crypt k false s X).1 = (cryptFirst k false s X ((X.length + 3) / 4)).1 := rfl
  rw [block, hout, ← hrest, List.append_assoc, List.drop_left' (by omega)]
  by_cases hfull : 4 * (j + 1) ≤ X.length
  · rw [List.take_left' (by omega)]
  · have hnil : rest = [] := List.length_eq_zero_iff.1 (by omega)
    rw [hnil, List.append_nil, List.take_of_length_le (by omega)]

theorem crypt_crypt (k : BitVec 128) (s : Spec.State) (X : List Byte) :
    Spec.crypt k true s (Spec.crypt k false s X).1 = (X, (Spec.crypt k false s X).2) := by
  have hlength : (Spec.crypt k false s X).1.length = X.length := by
    have hall := length_cryptFirst k false s X ((X.length + 3) / 4)
    rw [crypt_eq, ← cryptFirst, hall]
    omega
  -- the decryption has met the same state and recovered the blocks so far
  have hfirst : ∀ j ≤ (X.length + 3) / 4,
      cryptFirst k true s (Spec.crypt k false s X).1 j =
        (X.take (4 * j), (cryptFirst k false s X j).2) := by
    intro j hj
    induction j with
    | zero => simp [cryptFirst, firstBlocks]
    | succ j ih =>
        have hB := length_block X j
        rw [cryptFirst_succ, ih (by omega), block_crypt k s X (by omega), cryptStep,
          cryptBlock_cryptBlock _ _ (by omega), cryptFirst_succ, cryptStep, Nat.mul_succ,
          List.take_add]
        rfl
  have hall := hfirst _ le_rfl
  rw [List.take_of_length_le (by omega)] at hall
  rw [crypt_eq, hlength, ← cryptFirst, hall]
  rfl

/-- Decrypting an encryption gives the message and the tag of the encryption. -/
theorem aead_aead (K N A X : List Byte) :
    Spec.aead true K N A (Spec.aead false K N A X).1 = (X, (Spec.aead false K N A X).2) := by
  simp only [Spec.aead, crypt_crypt]

/-! ## Two runs of the core -/

/-- In cycle `0` of the run the idle core accepts `op`, and its inputs stay while they are
    latched. -/
structure Accepted (op : CoreIn) (s : Core) (env : ℕ → CoreIn) : Prop where
  idle : s.fsm.fsm = .idle
  held : Held env
  start : env 0 = op

/-- The encryption of the data of `op`. -/
def CoreIn.encryption (op : CoreIn) : CoreIn := { op with ena := true, selType := modeEnc }

/-- The decryption of what the output register shows. -/
def CoreIn.decryption (op : CoreIn) (dataOut : BitVec 128) (tagIn : BitVec 64) : CoreIn :=
  { op with ena := true, selType := modeDec, dataIn := dataOut, tagIn := tagIn }

/-- Encryption, then decryption of the ciphertext with any tag: the message comes back with zeros
    above it, and only the tag of the encryption is accepted. -/
theorem decryption_recovers_message {op : CoreIn} (had : InBlock op.adLength)
    (hdata : InBlock op.dataLength) {s : Core} {env : ℕ → CoreIn}
    (henc : Accepted op.encryption s env) :
    ∃ k, FirstDone Core.step env s Core.done k ∧
      ∀ tagIn s' env', Accepted (op.decryption (run Core.step env s k).dp.dataOut tagIn) s' env' →
        ∃ k', FirstDone Core.step env' s' Core.done k' ∧
          rightBytes op.dataLength.toNat (run Core.step env' s' k').dp.dataOut = op.dataBytes ∧
          (∀ i, op.dataLength.toNat ≤ i → byteLE (run Core.step env' s' k').dp.dataOut i = 0) ∧
          ((run Core.step env' s' k').dp.valid = true ↔
            tagIn = (run Core.step env s k).dp.tag) := by
  obtain ⟨hdone, -, hdp⟩ := run_op henc.idle (by rw [henc.start]; rfl) henc.held
  rw [henc.start] at hdone hdp
  obtain ⟨hout, htag⟩ := @result_eq op.encryption had hdata false rfl
  refine ⟨_, hdone, fun tagIn s' env' hdec => ?_⟩
  rw [hdp] at hdec ⊢
  obtain ⟨hdone', -, hdp'⟩ := run_op hdec.idle (by rw [hdec.start]; rfl) hdec.held
  rw [hdec.start] at hdone' hdp'
  obtain ⟨hout', htag'⟩ :=
    @result_eq (op.decryption (result op.encryption).dataOut tagIn) had hdata true rfl
  have hround : (op.decryption (result op.encryption).dataOut tagIn).reference true =
      (op.dataBytes, (op.encryption.reference false).2) := by
    have hbytes : (op.decryption (result op.encryption).dataOut tagIn).dataBytes =
        (op.encryption.reference false).1 := hout
    rw [CoreIn.reference, hbytes]
    exact aead_aead op.keyBytes op.nonceBytes op.adBytes op.dataBytes
  rw [hround] at hout' htag'
  refine ⟨_, hdone', ?_⟩
  rw [hdp']
  have hunused := @dataOut_unused (op.decryption (result op.encryption).dataOut tagIn) hdata
  refine ⟨hout', fun i hi => hunused hi, ?_⟩
  rw [result_valid rfl, htag', ← htag]
  exact rightBytes_inj (n := 8)

/-- From reset an operation is accepted in the first cycle. -/
theorem accepted_reset {op : CoreIn} (hena : op.ena = true) :
    Accepted op Core.reset (fun _ => op) where
  idle := rfl
  held := fun _ _ => by rw [← hena]
  start := rfl

/-- The first self-test of the firmware: ten bytes of associated data, three of data. -/
theorem decryption_recovers_message_firmware :
    ∃ k, FirstDone Core.step (fun _ => firmwareOp.encryption) Core.reset Core.done k ∧
      ∀ tagIn s' env', Accepted (firmwareOp.decryption
          (run Core.step (fun _ => firmwareOp.encryption) Core.reset k).dp.dataOut tagIn) s' env' →
        ∃ k', FirstDone Core.step env' s' Core.done k' ∧
          rightBytes 3 (run Core.step env' s' k').dp.dataOut = firmwareOp.dataBytes ∧
          (∀ i, 3 ≤ i → byteLE (run Core.step env' s' k').dp.dataOut i = 0) ∧
          ((run Core.step env' s' k').dp.valid = true ↔
            tagIn = (run Core.step (fun _ => firmwareOp.encryption) Core.reset k).dp.tag) :=
  @decryption_recovers_message firmwareOp (by decide) (by decide) Core.reset
    (fun _ => firmwareOp.encryption) (accepted_reset rfl)

end PicoSoc.TinyJambu
