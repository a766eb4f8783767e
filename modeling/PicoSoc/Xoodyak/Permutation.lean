import PicoSoc.Xoodyak.Xoodoo
import PicoSoc.Xoodyak.Spec

set_option autoImplicit false

/-! # The engine's rounds are Xoodoo's rounds

`stateArray` reads the register as planes; it carries `xoodooRound` to the round of the
specification and the round constant generator to the table of constants. -/

namespace PicoSoc.Xoodyak

/-! ## Words of the state -/

theorem rotl32_eq_rotateLeft (v : BitVec 32) {n : ℕ} (hn : n < 32) :
    rotl32 v n = v.rotateLeft n := by
  rw [rotl32, BitVec.rotateLeft_def, Nat.mod_eq_of_lt hn]

@[simp] theorem stateArray_packState (w : Fin 3 → Fin 4 → BitVec 32) :
    stateArray (packState w) = w := by
  funext y x
  have hy : (4 * y.val + x.val) / 4 = y.val := by omega
  have hx : (4 * y.val + x.val) % 4 = x.val := by omega
  simp only [stateArray, packState, Vector.getElem_ofFn, hy, hx]

/-! ## One round -/

theorem stateArray_xoodooRound (s : XState) (rc : BitVec 32) :
    stateArray (xoodooRound s rc) = Spec.round (stateArray s) rc := by
  rw [xoodooRound, stateArray_packState]
  have hrotl : ∀ v : BitVec 32, rotl32 v 5 = v.rotateLeft 5 ∧ rotl32 v 14 = v.rotateLeft 14 ∧
      rotl32 v 11 = v.rotateLeft 11 ∧ rotl32 v 1 = v.rotateLeft 1 ∧
      rotl32 v 8 = v.rotateLeft 8 := fun v =>
    ⟨rotl32_eq_rotateLeft v (by decide), rotl32_eq_rotateLeft v (by decide),
      rotl32_eq_rotateLeft v (by decide), rotl32_eq_rotateLeft v (by decide),
      rotl32_eq_rotateLeft v (by decide)⟩
  have hrot0 : ∀ v : BitVec 32, v.rotateLeft 0 = v := fun v => by
    simp [BitVec.rotateLeft_def, BitVec.ushiftRight_eq_zero]
  have hsub1 : ∀ x : Fin 4, x - 1 = x + 3 := by decide
  have hsub2 : ∀ x : Fin 4, x - 2 = x + 2 := by decide
  funext y x
  fin_cases y <;>
    simp [Spec.round, Spec.rhoEast, Spec.chi, Spec.iota, Spec.rhoWest, Spec.theta, Spec.shiftPlane,
      hrotl, hrot0, hsub1, hsub2]

/-! ## The chain of rounds -/

theorem xoodooNRounds_add (m n : ℕ) (s : XState) (rc : BitVec 6) :
    xoodooNRounds (m + n) s rc =
      xoodooNRounds n (xoodooNRounds m s rc).1 (xoodooNRounds m s rc).2 := by
  induction n with
  | zero => rfl
  | succ n ih => rw [← Nat.add_assoc, xoodooNRounds, xoodooNRounds, ih]

/-- The constants do not depend on the data. -/
theorem xoodooNRounds_snd (n : ℕ) (s : XState) (rc : BitVec 6) :
    (xoodooNRounds n s rc).2 = xoodooRcNext^[n] rc := by
  induction n with
  | zero => rfl
  | succ n ih => rw [xoodooNRounds, ih, Function.iterate_succ_apply']

theorem stateArray_xoodooNRounds (n : ℕ) (s : XState) (rc : BitVec 6) :
    stateArray (xoodooNRounds n s rc).1 =
      ((List.range n).map fun k => xoodooRc (xoodooRcNext^[k] rc)).foldl Spec.round
        (stateArray s) := by
  induction n with
  | zero => rfl
  | succ n ih =>
      rw [xoodooNRounds, stateArray_xoodooRound, ih, xoodooNRounds_snd, List.range_succ,
        List.map_append, List.foldl_append]
      rfl

/-- The generator runs through the standard constants, -/
theorem rc_table :
    ((List.range 12).map fun k => xoodooRc (xoodooRcNext^[k] rcInit)) = Spec.roundConstants := by
  decide

/-- and reaches its final state after exactly twelve rounds. -/
theorem rc_final {k : ℕ} (hk : k ≤ 12) : xoodooRcNext^[k] rcInit = rcFinal ↔ k = 12 := by
  have : ∀ k ≤ 12, (xoodooRcNext^[k] rcInit = rcFinal ↔ k = 12) := by decide
  exact this k hk

/-! ## The permutation -/

/-- Twelve rounds of the engine from its initial constant. -/
def xoodoo12 (s : XState) : XState := (xoodooNRounds 12 s rcInit).1

theorem stateArray_xoodoo12 (s : XState) :
    stateArray (xoodoo12 s) = Spec.permute (stateArray s) := by
  rw [xoodoo12, stateArray_xoodooNRounds, rc_table, Spec.permute]

/-! ## The byte view -/

/-- The register as the 48-byte state of the specification. -/
def stateBytes (s : XState) : Cyclist.State 48 := Spec.bytes (stateArray s)

theorem stateBytes_apply (s : XState) (i : Fin 48) :
    stateBytes s i = Bytes.byteLE s[i.val / 4] (i.val % 4) := by
  have : 4 * (i.val / 16) + i.val / 4 % 4 = i.val / 4 := by omega
  simp only [stateBytes, Spec.bytes, stateArray, this]

theorem lanes_bytes (a : Spec.Planes) : Spec.lanes (Spec.bytes a) = a := by
  funext y x
  apply Bytes.eq_of_byteLE 4 rfl
  intro i hi
  have hbyte : ∀ k (hk : k < 4), Spec.bytes a ⟨16 * y.val + 4 * x.val + k, by omega⟩ =
      Bytes.byteLE (a y x) k := by
    intro k hk
    have hy : (16 * y.val + 4 * x.val + k) / 16 = y.val := by omega
    have hx : (16 * y.val + 4 * x.val + k) / 4 % 4 = x.val := by omega
    simp only [Spec.bytes, hy, hx, show (16 * y.val + 4 * x.val + k) % 4 = k by omega]
  have h0 := hbyte 0 (by decide)
  have h1 := hbyte 1 (by decide)
  have h2 := hbyte 2 (by decide)
  have h3 := hbyte 3 (by decide)
  simp only [Nat.add_zero] at h0
  have hself : ∀ b : Bytes.Byte, Bytes.byteLE b 0 = b := fun b => by simp [Bytes.byteLE]
  rw [Spec.lanes, h0, h1, h2, h3]
  interval_cases i
  · rw [Bytes.byteLE_append_lo _ _ (by decide), hself]
  · rw [Bytes.byteLE_append_hi _ _ (k := 1) rfl (by decide),
      Bytes.byteLE_append_lo _ _ (by decide), hself]
  · rw [Bytes.byteLE_append_hi _ _ (k := 1) rfl (by decide),
      Bytes.byteLE_append_hi _ _ (k := 1) rfl (by decide),
      Bytes.byteLE_append_lo _ _ (by decide), hself]
  · rw [Bytes.byteLE_append_hi _ _ (k := 1) rfl (by decide),
      Bytes.byteLE_append_hi _ _ (k := 1) rfl (by decide),
      Bytes.byteLE_append_hi _ _ (k := 1) rfl (by decide), hself]

/-- The permutation of the specification, on registers. -/
theorem f_stateBytes (s : XState) : Spec.f (stateBytes s) = stateBytes (xoodoo12 s) := by
  rw [Spec.f, stateBytes, lanes_bytes, stateBytes, stateArray_xoodoo12]

end PicoSoc.Xoodyak
