import PicoSoc.GiftCofb.Refinement

set_option autoImplicit false

/-! # Decryption undoes encryption

Two operations of the core, the second one on the output of the first. -/

namespace PicoSoc.GiftCofb

open Bytes Clocked

/-! ## Blocks of a string -/

theorem length_inBytes (block : ℕ → BitVec 128) (len j : ℕ) :
    (inBytes block len j).length = min 16 (len - 16 * j) :=
  length_leftBytes _ _ _

/-- The stream `block` carries the blocks `shown`, with anything in the unused bytes. -/
def Carries (block : ℕ → BitVec 128) (len : ℕ) (shown : List (BitVec 128)) : Prop :=
  ∀ j, inBytes block len j = inBytes (fun j => shown.getD j 0) len j

theorem length_cryptBlock (E : BitVec 128 → BitVec 128) (decrypt : Bool)
    (last : BitVec 64 → BitVec 64) {Bs : List (List Byte)} (hBs : ∀ B ∈ Bs, B.length ≤ 16)
    (c : Cofb.Chain) :
    (Cofb.cryptAll E decrypt last Bs c).1.map List.length = Bs.map List.length := by
  induction Bs generalizing c with
  | nil => rfl
  | cons B Bs ih =>
      have hB := Cofb.length_output c (hBs B List.mem_cons_self)
      cases hrest : Bs with
      | nil => simp [Cofb.cryptAll, hB]
      | cons B' Bs' =>
          rw [← hrest, Cofb.cryptAll_cons E decrypt last B (by rw [hrest]; exact List.cons_ne_nil _ _),
            List.map_cons, List.map_cons, hB, ih fun C hC => hBs C (List.mem_cons_of_mem B hC)]

/-- A stream that carries the output blocks is split into them. -/
theorem blocks_carried {block : ℕ → BitVec 128} {len : ℕ} {Cs : List (List Byte)}
    (hlen : Cs.map List.length =
      ((List.range ((len + 15) / 16)).map fun j => min 16 (len - 16 * j)))
    (h : Carries block len (Cs.map Cofb.toBlock)) :
    Cofb.blocks (streamBytes block len) = Cs := by
  have hcount : Cs.length = (len + 15) / 16 := by
    have := congrArg List.length hlen
    simpa using this
  rw [blocks_streamBytes]
  apply List.ext_getElem
  · rw [List.length_map, List.length_range, hcount]
  · intro j hj hjC
    have hCj : (Cs.get ⟨j, hjC⟩).length = min 16 (len - 16 * j) := by
      have := congrArg (fun L => L.getD j 0) hlen
      simpa [List.getD_eq_getElem?_getD, hjC, hcount ▸ hjC] using this
    have hport : (Cs.map Cofb.toBlock).getD j 0 = Cofb.toBlock (Cs.get ⟨j, hjC⟩) := by
      simp [List.getD_eq_getElem?_getD, hjC]
    rw [List.getElem_map, List.getElem_range, h j]
    show leftBytes 16 (min 16 (len - 16 * j)) ((Cs.map Cofb.toBlock).getD j 0) = _
    rw [hport, ← hCj, leftBytes_toBlock (by omega)]
    rfl

/-! ## The two operations -/

section RoundTrip

variable {env₁ env₂ : ℕ → CoreIn} {s₁ s₂ : Core} {adBlock₁ adBlock₂ msgBlock ctBlock : ℕ → BitVec 128}

/-- The parameters of a decryption that belongs to an encryption. -/
structure SameParameters (env₁ env₂ : ℕ → CoreIn) (adBlock₁ adBlock₂ : ℕ → BitVec 128) : Prop where
  encrypt : (env₁ 0).decryptMode = false
  decrypt : (env₂ 0).decryptMode = true
  key : (env₂ 0).key = (env₁ 0).key
  nonce : (env₂ 0).nonce = (env₁ 0).nonce
  ad : Host.adBytes env₂ adBlock₂ = Host.adBytes env₁ adBlock₁
  msgTotalLen : (env₂ 0).msgTotalLen = (env₁ 0).msgTotalLen

/-- The reference decryption of carried output blocks. -/
theorem reference_roundTrip (h : SameParameters env₁ env₂ adBlock₁ adBlock₂)
    (hct : Carries ctBlock (env₁ 0).msgTotalLen.toNat
      ((Host.reference env₁ adBlock₁ msgBlock).1.map Cofb.toBlock)) :
    Host.reference env₂ adBlock₂ ctBlock =
      (Cofb.blocks (Host.msgBytes env₁ msgBlock), (Host.reference env₁ adBlock₁ msgBlock).2) := by
  have hshort : ∀ B ∈ Cofb.blocks (Host.msgBytes env₁ msgBlock), B.length ≤ 16 := by
    intro B hB
    rw [Host.msgBytes, blocks_streamBytes] at hB
    obtain ⟨j, -, rfl⟩ := List.mem_map.1 hB
    rw [length_inBytes]
    exact Nat.min_le_left _ _
  have hlen : (Host.msgBytes env₂ ctBlock).length = (Host.msgBytes env₁ msgBlock).length := by
    rw [Host.msgBytes, Host.msgBytes, length_streamBytes, length_streamBytes, h.msgTotalLen]
  have hchain : Host.adChain env₂ adBlock₂ ctBlock = Host.adChain env₁ adBlock₁ msgBlock := by
    rw [Host.adChain, Host.adChain, Host.cipher, Host.cipher, h.key, h.nonce, h.ad]
    exact Cofb.afterAd_congr _ _ _ hlen
  have hcipher : Host.cipher env₂ = Host.cipher env₁ := by
    rw [Host.cipher, Host.cipher, h.key]
  rw [Host.reference_eq env₁, h.encrypt] at hct ⊢
  have hblocks : Cofb.blocks (Host.msgBytes env₂ ctBlock) =
      (Cofb.cryptAll (Host.cipher env₁) false (Cofb.lastMask (Host.msgBytes env₁ msgBlock))
        (Cofb.blocks (Host.msgBytes env₁ msgBlock)) (Host.adChain env₁ adBlock₁ msgBlock)).1 := by
    rw [Host.msgBytes, h.msgTotalLen]
    refine blocks_carried ?_ hct
    rw [length_cryptBlock _ _ _ hshort, Host.msgBytes, blocks_streamBytes, List.map_map]
    exact List.map_congr_left fun j _ => length_inBytes _ _ _
  rw [Host.reference_eq env₂, h.decrypt, hblocks, hchain, hcipher, Cofb.lastMask_congr hlen,
    Cofb.cryptAll_cryptAll _ _ hshort]

/-- A decryption of the shown blocks shows the message blocks, and accepts exactly the tag that the
    encryption produced. -/
theorem decryption_undoes_encryption (hs₁ : s₁.FromReset) (hidle₁ : s₁.state = .idle)
    (host₁ : Host env₁ s₁ adBlock₁ msgBlock) (hs₂ : s₂.FromReset) (hidle₂ : s₂.state = .idle)
    (host₂ : Host env₂ s₂ adBlock₂ ctBlock) (h : SameParameters env₁ env₂ adBlock₁ adBlock₂)
    (hct : ∀ n, FirstDone Core.step env₁ s₁ Core.done n →
      Carries ctBlock (env₁ 0).msgTotalLen.toNat (trace (shown env₁ s₁) n)) :
    ∃ n₁ n₂, FirstDone Core.step env₁ s₁ Core.done n₁ ∧ FirstDone Core.step env₂ s₂ Core.done n₂ ∧
      trace (shown env₂ s₂) n₂ =
        (Cofb.blocks (streamBytes msgBlock (env₁ 0).msgTotalLen.toNat)).map Cofb.toBlock ∧
      ((run Core.step env₂ s₂ n₂).valid = true ↔
        (env₂ 0).tagIn = (run Core.step env₁ s₁ n₁).tagOut) := by
  obtain ⟨n₁, h₁⟩ := host₁.run_op hs₁ hidle₁
  obtain ⟨n₂, h₂⟩ := host₂.run_op hs₂ hidle₂
  have href := reference_roundTrip h (by rw [← h₁.outputs]; exact hct n₁ h₁.firstDone)
  refine ⟨n₁, n₂, h₁.firstDone, h₂.firstDone, ?_, ?_⟩
  · rw [h₂.outputs, href]
    rfl
  · rw [h₂.valid, h.decrypt, if_pos rfl, href, h₁.tagOut, beq_iff_eq]
    exact eq_comm

end RoundTrip

/-- The blocks that the encryption shows. -/
def firmwareCtBlock (j : ℕ) : BitVec 128 :=
  ((Host.reference firmwareEnv firmwareBlock firmwareBlock).1.map Cofb.toBlock).getD j 0

/-- Test B of the firmware: the produced blocks with their own tag. -/
def firmwareDecryptOp : CoreIn :=
  { firmwareOp with
    decryptMode := true
    tagIn := (Host.reference firmwareEnv firmwareBlock firmwareBlock).2 }

def firmwareDecryptEnv : ℕ → CoreIn :=
  Hosted.env firmwareDecryptOp firmwareBlock firmwareCtBlock firmwareCycle (default : Core).reset

theorem decryption_undoes_encryption_firmware :
    ∃ n₁ n₂, FirstDone Core.step firmwareEnv (default : Core).reset Core.done n₁ ∧
      FirstDone Core.step firmwareDecryptEnv (default : Core).reset Core.done n₂ ∧
      trace (shown firmwareDecryptEnv (default : Core).reset) n₂ =
        (Cofb.blocks (streamBytes firmwareBlock 17)).map Cofb.toBlock ∧
      ((run Core.step firmwareDecryptEnv (default : Core).reset n₂).valid = true ↔
        firmwareDecryptOp.tagIn = (run Core.step firmwareEnv (default : Core).reset n₁).tagOut) := by
  have hhost : Host firmwareDecryptEnv (default : Core).reset firmwareBlock firmwareCtBlock :=
    Hosted.host firmwareDecryptOp firmwareBlock firmwareCtBlock rfl firmwareCycle_go ⟨rfl, rfl⟩
  refine decryption_undoes_encryption (.init ⟨default, rfl⟩) rfl firmwareEnv_host
    (.init ⟨default, rfl⟩) rfl hhost ⟨rfl, rfl, rfl, rfl, rfl, rfl⟩ fun n hn => ?_
  obtain ⟨m, hm⟩ := firmwareEnv_host.run_op (.init ⟨default, rfl⟩) rfl
  obtain rfl := hn.unique hm.firstDone
  rw [hm.outputs]
  exact fun j => rfl

end PicoSoc.GiftCofb
