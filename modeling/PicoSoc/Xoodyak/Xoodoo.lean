import PicoSoc.Xoodyak.Spec

set_option autoImplicit false

/-! # The Xoodoo engine (`xoodoo.v` and the modules it instantiates)

The 384-bit register `reg_value` is the vector of its twelve 32-bit words; word `4 * y + x` is
`state_array[y][x]`. -/

namespace PicoSoc.Xoodyak

open scoped Spec

/-- The twelve lanes. -/
abbrev XState := Vector (BitVec 32) 12

/-! ## `xoodoo_rc`: the round constant generator -/

/-- `state_out`: the next state of the round constant generator. -/
def xoodooRcNext (stateIn : BitVec 6) : BitVec 6 :=
  let si := stateIn.extractLsb' 0 3
  let tempNewSi : BitVec 4 :=
    (0#1 ++ si) + (si.extractLsb' 0 2 ++ si.extractLsb' 2 1).setWidth 4
  let newSi : BitVec 3 := tempNewSi.extractLsb' 0 3 + (tempNewSi.extractLsb' 3 1).setWidth 3
  let qi := stateIn.extractLsb' 3 3
  let newQi : BitVec 3 :=
    qi.extractLsb' 1 1 ++ (qi.extractLsb' 0 1 ^^^ qi.extractLsb' 2 1) ++ qi.extractLsb' 2 1
  newQi ++ newSi

/-- `rc`: the round constant of a generator state. -/
def xoodooRc (stateIn : BitVec 6) : BitVec 32 :=
  let si := stateIn.extractLsb' 0 3
  let qiPlusT3 : BitVec 4 := 1#1 ++ stateIn.extractLsb' 3 3
  let low : BitVec 10 :=
    if si = 1 then 0#5 ++ qiPlusT3 ++ 0#1
    else if si = 2 then 0#4 ++ qiPlusT3 ++ 0#2
    else if si = 3 then 0#3 ++ qiPlusT3 ++ 0#3
    else if si = 4 then 0#2 ++ qiPlusT3 ++ 0#4
    else if si = 5 then 0#1 ++ qiPlusT3 ++ 0#5
    else if si = 6 then qiPlusT3 ++ 0#6
    else 0#10
  0#22 ++ low

/-! ## `xoodoo_round` -/

/-- `rotl32` -/
def rotl32 (val : BitVec 32) (shift : ℕ) : BitVec 32 := (val <<< shift) ||| (val >>> (32 - shift))

/-- `state_array[y][x]`. -/
def stateArray (stateIn : XState) (y : Fin 3) (x : Fin 4) : BitVec 32 :=
  stateIn[4 * y.val + x.val]

/-- `state_out_reg[128*y + 32*x +: 32] = rho_e_out[y][x]`. -/
def packState (rhoEOut : Fin 3 → Fin 4 → BitVec 32) : XState :=
  Vector.ofFn fun i : Fin 12 => rhoEOut ⟨i.val / 4, by omega⟩ ⟨i.val % 4, by omega⟩

/-- `xoodoo_round` -/
def xoodooRound (stateIn : XState) (rc : BitVec 32) : XState :=
  let state := stateArray stateIn
  let parity := fun x => state 0 x ^^^ state 1 x ^^^ state 2 x
  let e := fun x : Fin 4 => rotl32 (parity (x + 3)) 5 ^^^ rotl32 (parity (x + 3)) 14
  let thetaOut := fun y x => state y x ^^^ e x
  let rhoWOut := fun (y : Fin 3) (x : Fin 4) =>
    match y with
    | 0 => thetaOut 0 x
    | 1 => thetaOut 1 (x + 3)
    | 2 => rotl32 (thetaOut 2 x) 11
  let iotaOut := fun (y : Fin 3) (x : Fin 4) =>
    if y = 0 ∧ x = 0 then rhoWOut y x ^^^ rc else rhoWOut y x
  let chiOut := fun (y : Fin 3) (x : Fin 4) =>
    match y with
    | 0 => iotaOut 0 x ^^^ (~~~ iotaOut 1 x &&& iotaOut 2 x)
    | 1 => iotaOut 1 x ^^^ (~~~ iotaOut 2 x &&& iotaOut 0 x)
    | 2 => iotaOut 2 x ^^^ (~~~ iotaOut 0 x &&& iotaOut 1 x)
  let rhoEOut := fun (y : Fin 3) (x : Fin 4) =>
    match y with
    | 0 => chiOut 0 x
    | 1 => rotl32 (chiOut 1 x) 1
    | 2 => rotl32 (chiOut 2 (x + 2)) 8
  packState rhoEOut

/-! ## `xoodoo_n_rounds` -/

/-- `state_chain[n]` and `rc_chain[n]` of the unrolled rounds. -/
def xoodooNRounds : ℕ → XState → BitVec 6 → XState × BitVec 6
  | 0, stateIn, rcStateIn => (stateIn, rcStateIn)
  | n + 1, stateIn, rcStateIn =>
      let chain := xoodooNRounds n stateIn rcStateIn
      (xoodooRound chain.1 (xoodooRc chain.2), xoodooRcNext chain.2)

/-! ## `xoodoo`: the registered engine

The register `done` is written but never read, so it is left out. -/

/-- The inputs of the permutation unit. -/
structure XoodooIn where
  startI : Bool
  initReg : Bool
  wordIn : BitVec 32
  wordIndexIn : BitVec 4
  wordEnableIn : Bool
  domainI : BitVec 32
  domainEnableI : Bool

/-- The registers of the permutation unit. -/
structure Xoodoo where
  regValue : XState
  rcStateIn : BitVec 6
  running : Bool
  stateValidO : Bool
  deriving DecidableEq

/-- The state of the round constants before the first round. -/
def rcInit : BitVec 6 := 0b011011#6

/-- The state of the round constants in the last cycle. -/
def rcFinal : BitVec 6 := 0b010011#6

/-- The registers while `rst_i` is active. -/
def Xoodoo.reset : Xoodoo :=
  { regValue := Vector.replicate 12 0, rcStateIn := rcInit, running := false, stateValidO := false }

/-- `state_with_xor`: the pending word and domain XORs applied combinationally. -/
def stateWithXor (i : XoodooIn) (regValue : XState) : XState :=
  Vector.ofFn fun k : Fin 12 =>
    regValue[k.val] ^^^
      (if i.wordEnableIn = true ∧ i.wordIndexIn.toNat = k.val then i.wordIn else 0) ^^^
      (if k.val = 11 ∧ i.domainEnableI = true then i.domainI else 0)

/-- `word_out`; an index past the last word reads nothing. -/
def wordOut (regValue : XState) (wordIndexIn : BitVec 4) : BitVec 32 :=
  regValue.toArray.getD wordIndexIn.toNat 0

/-- The clock edge: a write to a word of the state, or `roundPerCycle` rounds. -/
def Xoodoo.step (roundPerCycle : ℕ) (i : XoodooIn) (s : Xoodoo) : Xoodoo :=
  let rounds := xoodooNRounds roundPerCycle (stateWithXor i s.regValue) s.rcStateIn
  { regValue :=
      if i.initReg then Vector.replicate 12 0
      else if s.running || i.startI then rounds.1
      else stateWithXor i s.regValue
    rcStateIn :=
      if rounds.2 = rcFinal then rcInit
      else if i.startI || s.running then rounds.2
      else s.rcStateIn
    running :=
      if rounds.2 = rcFinal then false
      else if i.startI || s.running then true
      else s.running
    stateValidO :=
      if rounds.2 = rcFinal then true
      else if i.startI || s.running then false
      else s.stateValidO }

end PicoSoc.Xoodyak
