import PicoSoc.Library.Clocked
import PicoSoc.Library.Bytes
import PicoSoc.Xoodyak.Xoodoo

set_option autoImplicit false

/-! # The Xoodyak core (`xoodyakcore.v`)

One definition for each always block; `Core.step` puts them together. `rst_n` enters only through
`Core.reset`, the registers it leaves behind. -/

namespace PicoSoc.Xoodyak

/-! ## Constants -/

/-- `sel_type` of an encryption. -/
def modeAeadEnc : BitVec 3 := 0b001

/-- `sel_type` of a decryption. -/
def modeAeadDec : BitVec 3 := 0b010

/-- `sel_type` of a hash. -/
def modeHash : BitVec 3 := 0b011

/-- The domain of the first block of a hash. -/
def domainAbsorbHash : BitVec 32 := 0x01000000

/-- The domain of the key and the nonce. -/
def domainAbsorbKey : BitVec 32 := 0x02000000

/-- The domain of the associated data. -/
def domainAbsorb : BitVec 32 := 0x03000000

/-- The domain of every other block. -/
def domainZero : BitVec 32 := 0x00000000

/-- The domain of the tag. -/
def domainSqueeze : BitVec 32 := 0x40000000

/-- The domain of the message. -/
def domainCrypt : BitVec 32 := 0x80000000

/-- The padding of a block that ends with a word. -/
def padd01 : BitVec 32 := 0x00000001

/-- The padding of the block with the key and the nonce, with their lengths. -/
def padd01KeyNonce : BitVec 32 := 0#7 ++ (0#16 ++ 1#1 ++ 0#3 ++ 1#1 ++ 0#4)

/-- The states of the machine; the codes 21 to 31 of the 5-bit register do not occur. -/
inductive FsmState
  | idle | loadKey | loadNonce | padNonce | permNonce
  | loadAd | padAd | permAd
  | loadData | padData | permData | extractTag | verifyTag | done
  | hashLoad | hashPad | hashPerm1 | hashSqueeze1 | hashPad2 | hashPerm2 | hashSqueeze2
  deriving DecidableEq

/-! ## Inputs and registers -/

/-- The inputs of `xoodyakcore`. -/
structure CoreIn where
  ena : Bool
  restart : Bool
  selType : BitVec 3
  key : BitVec 128
  nonce : BitVec 128
  ad : BitVec 128
  adLength : BitVec 5
  dataLength : BitVec 5
  dataIn : BitVec 128
  tagIn : BitVec 128

/-- The registers of `xoodyakcore`. -/
structure Core where
  stateR : FsmState
  wordCntR : BitVec 4
  keyR : BitVec 128
  nonceR : BitVec 128
  adR : BitVec 128
  dataInR : BitVec 128
  tagInR : BitVec 128
  adLengthR : BitVec 5
  dataLengthR : BitVec 5
  selTypeR : BitVec 3
  dataOutR : BitVec 128
  tagR : BitVec 128
  validR : Bool
  domainR : BitVec 32
  xoodooStartR : Bool
  xoodoo : Xoodoo
  valid : Bool
  tag : BitVec 128
  dataOut : BitVec 128
  done : Bool

/-- The core after reset. -/
def Core.reset : Core where
  stateR := .idle
  wordCntR := 0
  keyR := 0
  nonceR := 0
  adR := 0
  dataInR := 0
  tagInR := 0
  adLengthR := 0
  dataLengthR := 0
  selTypeR := 0
  dataOutR := 0
  tagR := 0
  validR := true
  domainR := 0
  xoodooStartR := false
  xoodoo := .reset
  valid := false
  tag := 0
  dataOut := 0
  done := false

/-! ## Byte order -/

/-- `byte_swap`. -/
def byteSwap (word : BitVec 32) : BitVec 32 :=
  word.extractLsb' 0 8 ++ word.extractLsb' 8 8 ++ word.extractLsb' 16 8 ++ word.extractLsb' 24 8

/-- Word `idx` of an operand, bytes swapped. -/
def getWord (data : BitVec 128) (idx : BitVec 2) : BitVec 32 :=
  if idx = 0 then byteSwap (data.extractLsb' 96 32)
  else if idx = 1 then byteSwap (data.extractLsb' 64 32)
  else if idx = 2 then byteSwap (data.extractLsb' 32 32)
  else byteSwap (data.extractLsb' 0 32)

/-- The slice of a 128-bit register that word `idx` of the output goes to. -/
def putWord (data : BitVec 128) (idx : BitVec 2) (word : BitVec 32) : BitVec 128 :=
  if idx = 0 then word ++ data.extractLsb' 0 96
  else if idx = 1 then data.extractLsb' 96 32 ++ word ++ data.extractLsb' 0 64
  else if idx = 2 then data.extractLsb' 64 64 ++ word ++ data.extractLsb' 0 32
  else data.extractLsb' 32 96 ++ word

/-- `word_cnt_r[1:0]`. -/
def Core.wordSel (s : Core) : BitVec 2 := s.wordCntR.extractLsb' 0 2

/-- `(len + 3) >> 2` in the 32-bit arithmetic of the comparisons. -/
def lengthWords (len : BitVec 5) : BitVec 32 := (len.setWidth 32 + 3) >>> 2

/-- `32'h01 << {len[1:0], 3'b000}`. -/
def padWord (len : BitVec 5) : BitVec 32 := 1#32 <<< (len.extractLsb' 0 2 ++ 0#3)

/-- `word_cnt_r >= ((len + 3) >> 2) - 1 || word_cnt_r == 3`. -/
def Core.lastWord (s : Core) (len : BitVec 5) : Bool :=
  decide (lengthWords len - 1 ≤ s.wordCntR.setWidth 32) || s.wordCntR == 3

/-! ## State machine -/

/-- `xoodoo_valid && !xoodoo_start_r`. -/
def Core.permDone (s : Core) : Bool := s.xoodoo.stateValidO && !s.xoodooStartR

/-- The next state of the machine. -/
def Core.stateNext (i : CoreIn) (s : Core) : FsmState :=
  match s.stateR with
  | .idle =>
      if i.ena then (if i.selType = modeHash then .hashLoad else .loadKey) else .idle
  | .loadKey => if s.wordCntR = 3 then .loadNonce else .loadKey
  | .loadNonce => if s.wordCntR = 7 then .padNonce else .loadNonce
  | .padNonce => .permNonce
  | .permNonce =>
      if s.permDone then (if 0 < s.adLengthR then .loadAd else .padAd) else .permNonce
  | .loadAd => if s.lastWord s.adLengthR then .padAd else .loadAd
  | .padAd => .permAd
  | .permAd =>
      if s.permDone then (if 0 < s.dataLengthR then .loadData else .padData) else .permAd
  | .loadData => if s.lastWord s.dataLengthR then .padData else .loadData
  | .padData => .permData
  | .permData =>
      if s.permDone then (if s.selTypeR = modeAeadEnc then .extractTag else .verifyTag)
      else .permData
  | .extractTag => if s.wordCntR = 3 then .done else .extractTag
  | .verifyTag => if s.wordCntR = 3 then .done else .verifyTag
  | .hashLoad => if s.dataLengthR = 0 ∨ 3 ≤ s.wordCntR then .hashPad else .hashLoad
  | .hashPad => .hashPerm1
  | .hashPerm1 => if s.permDone then .hashSqueeze1 else .hashPerm1
  | .hashSqueeze1 => if s.wordCntR = 3 then .hashPad2 else .hashSqueeze1
  | .hashPad2 => .hashPerm2
  | .hashPerm2 => if s.permDone then .hashSqueeze2 else .hashPerm2
  | .hashSqueeze2 => if s.wordCntR = 3 then .done else .hashSqueeze2
  | .done => .idle

/-- The next value of the word counter. -/
def Core.wordCntNext (s : Core) : BitVec 4 :=
  match s.stateR with
  | .idle | .padNonce | .padAd | .padData | .hashPad | .hashPad2
  | .permNonce | .permAd | .permData | .hashPerm1 | .hashPerm2 | .done => 0
  | .loadKey | .loadNonce | .loadAd | .loadData
  | .extractTag | .verifyTag | .hashLoad | .hashSqueeze1 | .hashSqueeze2 => s.wordCntR + 1

/-! ## Xoodoo control -/

/-- The request to start a permutation, registered into `xoodoo_start_r`, and the engine inputs. -/
structure XoodooCtl where
  startNext : Bool := false
  init : Bool := false
  wordIn : BitVec 32 := 0
  wordIdx : BitVec 4
  wordEn : Bool := false
  domain : BitVec 32 := 0
  domainEn : Bool := false

/-- `xoodoo_word_out` while a word counter state reads it. -/
def Core.xoodooWordOut (s : Core) : BitVec 32 := wordOut s.xoodoo.regValue s.wordCntR

/-- What the state machine asks of the permutation unit. -/
def Core.xoodooCtl (i : CoreIn) (s : Core) : XoodooCtl :=
  match s.stateR with
  | .idle => { wordIdx := s.wordCntR, init := i.ena }
  | .loadKey => { wordIn := getWord s.keyR s.wordSel, wordIdx := s.wordCntR, wordEn := true }
  | .loadNonce => { wordIn := getWord s.nonceR s.wordSel, wordIdx := s.wordCntR, wordEn := true }
  | .padNonce =>
      { wordIn := padd01KeyNonce, wordIdx := 8, wordEn := true, domain := s.domainR,
        domainEn := true, startNext := true }
  | .loadAd => { wordIn := getWord s.adR s.wordSel, wordIdx := s.wordCntR, wordEn := true }
  | .padAd =>
      { wordIn := padWord s.adLengthR, wordIdx := (s.adLengthR >>> 2).setWidth 4, wordEn := true,
        domain := s.domainR ^^^ domainCrypt, domainEn := true, startNext := true }
  | .loadData =>
      { wordIn :=
          if s.selTypeR = modeAeadDec then s.xoodooWordOut ^^^ getWord s.dataInR s.wordSel
          else getWord s.dataInR s.wordSel
        wordIdx := s.wordCntR, wordEn := true }
  | .padData =>
      { wordIn := padWord s.dataLengthR, wordIdx := (s.dataLengthR >>> 2).setWidth 4,
        wordEn := true, domain := domainSqueeze, domainEn := true, startNext := true }
  | .hashLoad =>
      { wordIn := getWord s.dataInR s.wordSel, wordIdx := s.wordCntR,
        wordEn := s.wordCntR.setWidth 32 < lengthWords s.dataLengthR }
  | .hashPad =>
      { wordIn := padWord s.dataLengthR, wordIdx := (s.dataLengthR >>> 2).setWidth 4,
        wordEn := true, domain := s.domainR, domainEn := true, startNext := true }
  | .hashPad2 => { wordIn := padd01, wordIdx := 0, wordEn := true, startNext := true }
  | _ => { wordIdx := s.wordCntR }

/-- The inputs of the permutation unit. -/
def Core.xoodooIn (i : CoreIn) (s : Core) : XoodooIn :=
  let ctl := s.xoodooCtl i
  { startI := s.xoodooStartR, initReg := ctl.init, wordIn := ctl.wordIn, wordIndexIn := ctl.wordIdx,
    wordEnableIn := ctl.wordEn, domainI := ctl.domain, domainEnableI := ctl.domainEn }

/-! ## Collected outputs -/

/-- The next value of the output register. -/
def Core.dataOutNext (s : Core) : BitVec 128 :=
  match s.stateR with
  | .loadData =>
      putWord s.dataOutR s.wordSel (byteSwap (s.xoodooWordOut ^^^ getWord s.dataInR s.wordSel))
  | .hashSqueeze2 => putWord s.dataOutR s.wordSel (byteSwap s.xoodooWordOut)
  | _ => s.dataOutR

/-- The next value of the tag register. -/
def Core.tagNext (s : Core) : BitVec 128 :=
  match s.stateR with
  | .extractTag | .verifyTag | .hashSqueeze1 =>
      putWord s.tagR s.wordSel (byteSwap s.xoodooWordOut)
  | _ => s.tagR

/-- The slice of `tag_in_r` that word `word_cnt_r[1:0]` is compared with. -/
def tagSlice (tagIn : BitVec 128) (idx : BitVec 2) : BitVec 32 :=
  if idx = 0 then tagIn.extractLsb' 96 32
  else if idx = 1 then tagIn.extractLsb' 64 32
  else if idx = 2 then tagIn.extractLsb' 32 32
  else tagIn.extractLsb' 0 32

/-- The next value of `valid_r`: a wrong word of the tag clears it. -/
def Core.validNext (i : CoreIn) (s : Core) : Bool :=
  match s.stateR with
  | .idle => if i.ena then true else s.validR
  | .verifyTag =>
      if byteSwap s.xoodooWordOut ≠ tagSlice s.tagInR s.wordSel then false else s.validR
  | _ => s.validR

/-! ## The clock edge -/

/-- The edge while `restart` is low. -/
def Core.advance (roundsPerCycle : ℕ) (i : CoreIn) (s : Core) : Core :=
  let latch := s.stateR = .idle ∧ i.ena = true
  { stateR := s.stateNext i
    wordCntR := s.wordCntNext
    keyR := if latch then i.key else s.keyR
    nonceR := if latch then i.nonce else s.nonceR
    adR := if latch then i.ad else s.adR
    dataInR := if latch then i.dataIn else s.dataInR
    tagInR := if latch then i.tagIn else s.tagInR
    adLengthR := if latch then i.adLength else s.adLengthR
    dataLengthR := if latch then i.dataLength else s.dataLengthR
    selTypeR := if latch then i.selType else s.selTypeR
    domainR :=
      if latch then (if i.selType = modeHash then domainAbsorbHash else domainAbsorbKey)
      else if s.stateR = .padNonce then domainAbsorb
      else if s.stateR = .padAd then domainZero
      else s.domainR
    dataOutR := s.dataOutNext
    tagR := s.tagNext
    validR := s.validNext i
    xoodooStartR := (s.xoodooCtl i).startNext
    xoodoo := s.xoodoo.step roundsPerCycle (s.xoodooIn i)
    done := if s.stateR = .done then true else if s.stateR = .idle then false else s.done
    valid :=
      if s.stateR = .done then (if s.selTypeR = modeAeadDec then s.validR else true) else s.valid
    dataOut := if s.stateR = .done then s.dataOutR else s.dataOut
    tag := if s.stateR = .done then s.tagR else s.tag }

/-- `restart` clears every register of the core but not those of the engine. -/
def Core.step (roundsPerCycle : ℕ) (i : CoreIn) (s : Core) : Core :=
  if i.restart then
    { Core.reset with xoodoo := s.xoodoo.step roundsPerCycle (s.xoodooIn i) }
  else s.advance roundsPerCycle i

end PicoSoc.Xoodyak
