import PicoSoc.Xoodyak.Permutation

set_option autoImplicit false

/-! # The permutation on twelve words

Straight-line code for the twelve rounds, which the kernel can evaluate on concrete states. -/

namespace PicoSoc.Xoodyak

/-- The words of the register, plane by plane. -/
structure Lanes where
  (a₀ a₁ a₂ a₃ b₀ b₁ b₂ b₃ c₀ c₁ c₂ c₃ : BitVec 32)

def unpack (s : XState) : Lanes :=
  ⟨s[0], s[1], s[2], s[3], s[4], s[5], s[6], s[7], s[8], s[9], s[10], s[11]⟩

def Lanes.pack (s : Lanes) : XState :=
  #v[s.a₀, s.a₁, s.a₂, s.a₃, s.b₀, s.b₁, s.b₂, s.b₃, s.c₀, s.c₁, s.c₂, s.c₃]

def Lanes.round (s : Lanes) (rc : BitVec 32) : Lanes :=
  let p₀ := s.a₀ ^^^ s.b₀ ^^^ s.c₀
  let p₁ := s.a₁ ^^^ s.b₁ ^^^ s.c₁
  let p₂ := s.a₂ ^^^ s.b₂ ^^^ s.c₂
  let p₃ := s.a₃ ^^^ s.b₃ ^^^ s.c₃
  let e₀ := rotl32 p₃ 5 ^^^ rotl32 p₃ 14
  let e₁ := rotl32 p₀ 5 ^^^ rotl32 p₀ 14
  let e₂ := rotl32 p₁ 5 ^^^ rotl32 p₁ 14
  let e₃ := rotl32 p₂ 5 ^^^ rotl32 p₂ 14
  let a₀ := s.a₀ ^^^ e₀ ^^^ rc
  let a₁ := s.a₁ ^^^ e₁
  let a₂ := s.a₂ ^^^ e₂
  let a₃ := s.a₃ ^^^ e₃
  let b₀ := s.b₃ ^^^ e₃
  let b₁ := s.b₀ ^^^ e₀
  let b₂ := s.b₁ ^^^ e₁
  let b₃ := s.b₂ ^^^ e₂
  let c₀ := rotl32 (s.c₀ ^^^ e₀) 11
  let c₁ := rotl32 (s.c₁ ^^^ e₁) 11
  let c₂ := rotl32 (s.c₂ ^^^ e₂) 11
  let c₃ := rotl32 (s.c₃ ^^^ e₃) 11
  { a₀ := a₀ ^^^ (~~~b₀ &&& c₀), a₁ := a₁ ^^^ (~~~b₁ &&& c₁)
    a₂ := a₂ ^^^ (~~~b₂ &&& c₂), a₃ := a₃ ^^^ (~~~b₃ &&& c₃)
    b₀ := rotl32 (b₀ ^^^ (~~~c₀ &&& a₀)) 1, b₁ := rotl32 (b₁ ^^^ (~~~c₁ &&& a₁)) 1
    b₂ := rotl32 (b₂ ^^^ (~~~c₂ &&& a₂)) 1, b₃ := rotl32 (b₃ ^^^ (~~~c₃ &&& a₃)) 1
    c₀ := rotl32 (c₂ ^^^ (~~~a₂ &&& b₂)) 8, c₁ := rotl32 (c₃ ^^^ (~~~a₃ &&& b₃)) 8
    c₂ := rotl32 (c₀ ^^^ (~~~a₀ &&& b₀)) 8, c₃ := rotl32 (c₁ ^^^ (~~~a₁ &&& b₁)) 8 }

theorem pack_unpack (s : XState) : (unpack s).pack = s := by
  apply Vector.ext
  intro i hi
  interval_cases i <;> rfl

theorem unpack_packState (w : Fin 3 → Fin 4 → BitVec 32) : unpack (packState w) =
    ⟨w 0 0, w 0 1, w 0 2, w 0 3, w 1 0, w 1 1, w 1 2, w 1 3, w 2 0, w 2 1, w 2 2, w 2 3⟩ := by
  simp only [unpack, packState, Vector.getElem_ofFn]
  rfl

theorem unpack_xoodooRound (s : XState) (rc : BitVec 32) :
    unpack (xoodooRound s rc) = (unpack s).round rc := by
  rw [xoodooRound, unpack_packState]
  rfl
/-- The twelve rounds. -/
def Lanes.permute (s : Lanes) : Lanes := Spec.roundConstants.foldl Lanes.round s

theorem unpack_xoodooNRounds (n : ℕ) (s : XState) (rc : BitVec 6) :
    unpack (xoodooNRounds n s rc).1 =
      ((List.range n).map fun k => xoodooRc (xoodooRcNext^[k] rc)).foldl Lanes.round (unpack s) := by
  induction n with
  | zero => rfl
  | succ n ih =>
      rw [xoodooNRounds, unpack_xoodooRound, ih, xoodooNRounds_snd, List.range_succ,
        List.map_append, List.foldl_append]
      rfl

/-- The permutation in the form to evaluate. -/
theorem xoodoo12_eq_pack (s : XState) : xoodoo12 s = (unpack s).permute.pack := by
  rw [← pack_unpack (xoodoo12 s), xoodoo12, unpack_xoodooNRounds, rc_table]
  rfl

end PicoSoc.Xoodyak
