import PicoSoc.Library.Bytes

set_option autoImplicit false

/-! # The TinyJAMBU core

`tinyjambu_nlfsr.v`, `tinyjambu_datapath.v` and `tinyjambu_fsm.v`, wired together as in
`tinyjambu_core.v`. -/

namespace PicoSoc.TinyJambu

/-! ## `tinyjambu_nlfsr`: the permutation engine -/

/-- The inputs of `tinyjambu_nlfsr`. -/
structure NlfsrIn where
  init : Bool := false
  run : Bool := false
  keyWord : BitVec 32
  wrW1 : Bool := false
  w1Xor : BitVec 32 := 0
  wrW3 : Bool := false
  w3Xor : BitVec 32 := 0

/-- The 128-bit state, in words. -/
@[ext] structure Nlfsr where
  w0 : BitVec 32
  w1 : BitVec 32
  w2 : BitVec 32
  w3 : BitVec 32
  deriving DecidableEq

/-- The state before an operation. -/
def Nlfsr.zero : Nlfsr := ⟨0, 0, 0, 0⟩

/-- `fb`: the feedback of 32 rounds at once. -/
def Nlfsr.fb (keyWord : BitVec 32) (s : Nlfsr) : BitVec 32 :=
  let t47 := (s.w1 >>> 15) ||| (s.w2 <<< 17)
  let t70 := (s.w2 >>> 6) ||| (s.w3 <<< 26)
  let t85 := (s.w2 >>> 21) ||| (s.w3 <<< 11)
  let t91 := (s.w2 >>> 27) ||| (s.w3 <<< 5)
  s.w0 ^^^ t47 ^^^ ~~~(t70 &&& t85) ^^^ t91 ^^^ keyWord

/-- The clock edge: 32 rounds at once, or writes to two of the words. -/
def Nlfsr.step (i : NlfsrIn) (s : Nlfsr) : Nlfsr :=
  if i.init then .zero
  else if i.run then { w0 := s.w1, w1 := s.w2, w2 := s.w3, w3 := s.fb i.keyWord }
  else
    { s with
      w1 := if i.wrW1 then s.w1 ^^^ i.w1Xor else s.w1
      w3 := if i.wrW3 then s.w3 ^^^ i.w3Xor else s.w3 }

/-! ## `tinyjambu_datapath`: byte order, latches and outputs -/

open Bytes in
/-- `bswap128`, `bswap96` and `bswap64`: the bytes of an `n`-byte vector in reverse order. -/
def bswap (n : ℕ) (x : BitVec (8 * n)) : BitVec (8 * n) := ofBytesLE n (byteBE n x)

/-- `bswap128`. -/
def bswap128 (x : BitVec 128) : BitVec 128 := bswap 16 x

/-- `bswap96`. -/
def bswap96 (x : BitVec 96) : BitVec 96 := bswap 12 x

/-- `bswap64`. -/
def bswap64 (x : BitVec 64) : BitVec 64 := bswap 8 x

/-- `get_word`, also `key_r[{idx, 5'd0} +: 32]`. -/
def getWord (data : BitVec 128) (idx : BitVec 2) : BitVec 32 :=
  data.extractLsb' (32 * idx.toNat) 32

/-- Word `idx` of the nonce. -/
def getNonceWord (data : BitVec 96) (idx : BitVec 2) : BitVec 32 :=
  if idx = 3 then 0 else data.extractLsb' (32 * idx.toNat) 32

/-- The bytes of the last word of a string. -/
def byteMask (lenMod : BitVec 2) : BitVec 32 :=
  if lenMod = 0 then 0xFFFFFFFF
  else if lenMod = 1 then 0x000000FF
  else if lenMod = 2 then 0x0000FFFF
  else 0x00FFFFFF

/-- The words that a string of `byte_len` bytes takes. -/
def calcWords (byteLen : BitVec 5) : BitVec 3 :=
  if byteLen = 0 then 0
  else byteLen.extractLsb' 2 3 + (if byteLen.extractLsb' 0 2 ≠ 0 then 1 else 0)

/-- The shared barrel shifter: `bswap128(x) >> {16 - len, 3'b000}`. -/
def bsOutput (x : BitVec 128) (len : BitVec 5) : BitVec 128 :=
  let bsShift : BitVec 8 := (16 - len) ++ 0#3
  bswap128 x >>> bsShift

/-- `o_data_out[{i_out_idx, 5'd0} +: 32] <= i_out_word`. -/
def setWord (data : BitVec 128) (idx : BitVec 2) (word : BitVec 32) : BitVec 128 :=
  if idx = 0 then data.extractLsb' 32 96 ++ word
  else if idx = 1 then data.extractLsb' 64 64 ++ word ++ data.extractLsb' 0 32
  else if idx = 2 then data.extractLsb' 96 32 ++ word ++ data.extractLsb' 0 64
  else word ++ data.extractLsb' 0 96

/-- The inputs of `tinyjambu_core`. -/
structure CoreIn where
  ena : Bool
  selType : BitVec 3
  key : BitVec 128
  nonce : BitVec 96
  ad : BitVec 128
  adLength : BitVec 5
  dataLength : BitVec 5
  dataIn : BitVec 128
  tagIn : BitVec 64

/-- The latched operands and the results. -/
structure Datapath where
  keyR : BitVec 128
  nonceR : BitVec 96
  adR : BitVec 128
  dataR : BitVec 128
  tagInR : BitVec 64
  adLenR : BitVec 5
  dataLenR : BitVec 5
  modeR : BitVec 3
  adWordsR : BitVec 3
  dataWordsR : BitVec 3
  dataOut : BitVec 128
  tag : BitVec 64
  valid : Bool

/-- The datapath after reset. -/
def Datapath.reset : Datapath where
  keyR := 0
  nonceR := 0
  adR := 0
  dataR := 0
  tagInR := 0
  adLenR := 0
  dataLenR := 0
  modeR := 0
  adWordsR := 0
  dataWordsR := 0
  dataOut := 0
  tag := 0
  valid := false

/-- The control signals of the data path. -/
structure DatapathCtl where
  latch : Bool := false
  latchAd : Bool := false
  latchDat : Bool := false
  outWr : Bool := false
  outIdx : BitVec 2 := 0
  outWord : BitVec 32 := 0
  finalize : Bool := false
  tagWr : Bool := false
  tagLo : BitVec 32 := 0
  tagHi : BitVec 32 := 0

/-- `seltype` of an encryption. -/
def modeEnc : BitVec 3 := 0b001

/-- `seltype` of a decryption. -/
def modeDec : BitVec 3 := 0b010

/-- At most one of the phases of the barrel shifter is selected. -/
def Datapath.bsOut (i : CoreIn) (c : DatapathCtl) (s : Datapath) : BitVec 128 :=
  if c.latchAd then bsOutput i.ad i.adLength
  else if c.latchDat then bsOutput i.dataIn i.dataLength
  else if c.finalize then bsOutput s.dataOut s.dataLenR
  else 0

/-- The clock edge of the datapath. -/
def Datapath.step (i : CoreIn) (c : DatapathCtl) (s : Datapath) : Datapath where
  keyR := if c.latch then bswap128 i.key else s.keyR
  nonceR := if c.latch then bswap96 i.nonce else s.nonceR
  tagInR := if c.latch then bswap64 i.tagIn else s.tagInR
  adLenR := if c.latch then i.adLength else s.adLenR
  dataLenR := if c.latch then i.dataLength else s.dataLenR
  modeR := if c.latch then i.selType else s.modeR
  adWordsR := if c.latch then calcWords i.adLength else s.adWordsR
  dataWordsR := if c.latch then calcWords i.dataLength else s.dataWordsR
  adR := if c.latchAd then s.bsOut i c else s.adR
  dataR := if c.latchDat then s.bsOut i c else s.dataR
  dataOut :=
    if c.finalize then s.bsOut i c
    else if c.outWr then setWord s.dataOut c.outIdx c.outWord
    else if c.latch then 0 else s.dataOut
  tag := if c.tagWr then bswap64 (c.tagHi ++ c.tagLo) else if c.latch then 0 else s.tag
  valid :=
    if c.tagWr then (if s.modeR = modeDec then c.tagHi ++ c.tagLo == s.tagInR else true)
    else if c.latch then false else s.valid

/-! ## `tinyjambu_fsm` -/

/-- The states of the machine; the codes 13 to 15 of the 4-bit register do not occur. -/
inductive FsmState
  | idle | latchAd | latchDat | perm | nFrame | nXor | adFrame | adXor
  | msgFrame | msgXor | fin1 | fin2 | done
  deriving DecidableEq

/-- The cycles of a permutation with 1024 rounds. -/
def stpP1024 : BitVec 6 := 32

/-- The cycles of a permutation with 640 rounds. -/
def stpP640 : BitVec 6 := 20

/-- The frame bits of the nonce. -/
def frN : BitVec 32 := 0x00000010

/-- The frame bits of the associated data. -/
def frA : BitVec 32 := 0x00000030

/-- The frame bits of the message. -/
def frM : BitVec 32 := 0x00000050

/-- The frame bits of the tag. -/
def frF : BitVec 32 := 0x00000070

/-- The registers of the state machine. -/
structure Fsm where
  fsm : FsmState
  permRet : FsmState
  steps : BitVec 6
  kidx : BitVec 6
  ncnt : BitVec 2
  wcnt : BitVec 3
  tlo : BitVec 32
  done : Bool

/-- The state machine after reset. -/
def Fsm.reset : Fsm where
  fsm := .idle
  permRet := .idle
  steps := 0
  kidx := 0
  ncnt := 0
  wcnt := 0
  tlo := 0
  done := false

/-- `wcnt == words - 1` in the 32-bit arithmetic of the comparison. -/
def isLast (wcnt words : BitVec 3) : Bool :=
  wcnt.setWidth 32 == words.setWidth 32 - 1#32

/-- Load the permutation counter and go to `S_PERM`, to return to `ret`. -/
def Fsm.permute (f : Fsm) (steps : BitVec 6) (ret : FsmState) : Fsm :=
  { f with fsm := .perm, permRet := ret, steps := steps, kidx := 0 }

/-- The registers of the machine after an edge. -/
def Fsm.step (ena : Bool) (d : Datapath) (w2 : BitVec 32) (f : Fsm) : Fsm :=
  let f := { f with done := false }
  match f.fsm with
  | .idle => if ena then { f with ncnt := 0, wcnt := 0, tlo := 0, fsm := .latchAd } else f
  | .latchAd => { f with fsm := .latchDat }
  | .latchDat => f.permute stpP1024 .nFrame
  | .perm =>
      { f with
        kidx := f.kidx + 1
        steps := f.steps - 1
        fsm := if f.steps = 1 then f.permRet else .perm }
  | .nFrame => f.permute stpP640 .nXor
  | .nXor =>
      let g := { f with ncnt := f.ncnt + 1 }
      if f.ncnt < 2 then { g with fsm := .nFrame }
      else if 0 < d.adWordsR then { g with wcnt := 0, fsm := .adFrame }
      else if 0 < d.dataWordsR then { g with wcnt := 0, fsm := .msgFrame }
      else { g with wcnt := 0 }.permute stpP1024 .fin1
  | .adFrame => f.permute stpP640 .adXor
  | .adXor =>
      if isLast f.wcnt d.adWordsR then
        if 0 < d.dataWordsR then { f with wcnt := 0, fsm := .msgFrame }
        else { f with wcnt := 0 }.permute stpP1024 .fin1
      else { f with wcnt := f.wcnt + 1, fsm := .adFrame }
  | .msgFrame => f.permute stpP1024 .msgXor
  | .msgXor =>
      let g := { f with wcnt := f.wcnt + 1 }
      if isLast f.wcnt d.dataWordsR then g.permute stpP1024 .fin1 else { g with fsm := .msgFrame }
  | .fin1 => { f with tlo := w2 }.permute stpP640 .fin2
  | .fin2 => { f with fsm := .done }
  | .done => { f with done := true, fsm := .idle }

/-! ## `tinyjambu_core`: the three modules together -/

/-- `tinyjambu_core`. -/
structure Core where
  fsm : Fsm
  nlfsr : Nlfsr
  dp : Datapath

/-- The core after reset. -/
def Core.reset : Core := ⟨.reset, .zero, .reset⟩

/-- The words that the counters select. -/
def Core.keyWord (s : Core) : BitVec 32 := getWord s.dp.keyR (s.fsm.kidx.extractLsb' 0 2)

/-- The word of the nonce whose turn it is. -/
def Core.nonceWord (s : Core) : BitVec 32 := getNonceWord s.dp.nonceR s.fsm.ncnt

/-- The word of the associated data whose turn it is. -/
def Core.adWord (s : Core) : BitVec 32 := getWord s.dp.adR (s.fsm.wcnt.extractLsb' 0 2)

/-- The word of the message whose turn it is. -/
def Core.dataWord (s : Core) : BitVec 32 := getWord s.dp.dataR (s.fsm.wcnt.extractLsb' 0 2)

/-- The bytes of associated data in its last word, or 0 for a full one. -/
def Core.adPartial (s : Core) : BitVec 2 := s.dp.adLenR.extractLsb' 0 2

/-- The bytes of the message in its last word, or 0 for a full one. -/
def Core.dataPartial (s : Core) : BitVec 2 := s.dp.dataLenR.extractLsb' 0 2

/-- The outputs of the machine to the permutation engine. -/
def Core.nlfsrIn (i : CoreIn) (s : Core) : NlfsrIn :=
  match s.fsm.fsm with
  | .idle => { keyWord := s.keyWord, init := i.ena }
  | .perm => { keyWord := s.keyWord, run := true }
  | .nFrame => { keyWord := s.keyWord, wrW1 := true, w1Xor := frN }
  | .nXor =>
      let finish := decide (2 ≤ s.fsm.ncnt) && s.dp.adWordsR == 0 && s.dp.dataWordsR == 0
      { keyWord := s.keyWord, wrW3 := true, w3Xor := s.nonceWord
        wrW1 := finish, w1Xor := if finish then frF else 0 }
  | .adFrame => { keyWord := s.keyWord, wrW1 := true, w1Xor := frA }
  | .adXor =>
      let last := isLast s.fsm.wcnt s.dp.adWordsR
      let partialWord := decide (s.adPartial ≠ 0)
      { keyWord := s.keyWord
        wrW3 := true
        w3Xor :=
          if last && partialWord then s.adWord &&& byteMask s.adPartial else s.adWord
        wrW1 := last && (decide (s.dp.dataWordsR = 0) || partialWord)
        w1Xor :=
          if last then
            if 0 < s.dp.dataWordsR then (if partialWord then s.adPartial.setWidth 32 else 0)
            else if partialWord then s.adPartial.setWidth 32 ^^^ frF else frF
          else 0 }
  | .msgFrame => { keyWord := s.keyWord, wrW1 := true, w1Xor := frM }
  | .msgXor =>
      let last := isLast s.fsm.wcnt s.dp.dataWordsR
      let partialWord := decide (s.dataPartial ≠ 0)
      { keyWord := s.keyWord
        wrW3 := true
        w3Xor :=
          if last && partialWord then
            if s.dp.modeR = modeEnc then s.dataWord &&& byteMask s.dataPartial
            else (s.nlfsr.w2 ^^^ s.dataWord) &&& byteMask s.dataPartial
          else if s.dp.modeR = modeEnc then s.dataWord
          else s.nlfsr.w2 ^^^ s.dataWord
        wrW1 := last
        w1Xor :=
          if last then (if partialWord then s.dataPartial.setWidth 32 ^^^ frF else frF) else 0 }
  | .fin1 => { keyWord := s.keyWord, wrW1 := true, w1Xor := frF }
  | _ => { keyWord := s.keyWord }

/-- The outputs of the machine to the data path. -/
def Core.datapathCtl (i : CoreIn) (s : Core) : DatapathCtl :=
  match s.fsm.fsm with
  | .idle => { latch := i.ena }
  | .latchAd => { latchAd := true }
  | .latchDat => { latchDat := true }
  | .msgXor =>
      let last := isLast s.fsm.wcnt s.dp.dataWordsR
      { outWr := true
        outIdx := s.fsm.wcnt.extractLsb' 0 2
        outWord :=
          if last && decide (s.dataPartial ≠ 0) then
            (s.nlfsr.w2 ^^^ s.dataWord) &&& byteMask s.dataPartial
          else s.nlfsr.w2 ^^^ s.dataWord }
  | .fin2 => { tagWr := true, tagLo := s.fsm.tlo, tagHi := s.nlfsr.w2, finalize := true }
  | _ => {}

/-- The clock edge of the core. -/
def Core.step (i : CoreIn) (s : Core) : Core where
  fsm := s.fsm.step i.ena s.dp s.nlfsr.w2
  nlfsr := s.nlfsr.step (s.nlfsrIn i)
  dp := s.dp.step i (s.datapathCtl i)

/-- The pulse at the end of an operation. -/
def Core.done (s : Core) : Bool := s.fsm.done

end PicoSoc.TinyJambu
