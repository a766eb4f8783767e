import PicoSoc.GiftCofb.Gift

set_option autoImplicit false

/-! # The GIFT-COFB core (`cofb_core.v`)

The block functions of the mode, and the state machine that runs them behind the engine. -/

namespace PicoSoc.GiftCofb

/-! ## Block functions -/

/-- `double_half_block`: the product with 2 in the field. -/
def doubleHalfBlock (s : BitVec 64) : BitVec 64 :=
  let shifted := s <<< 1
  let reduction : BitVec 8 := if s.getLsbD 63 then 0x1B else 0x00
  shifted.extractLsb' 8 56 ++ (shifted.extractLsb' 0 8 ^^^ reduction)

/-- `triple_half_block`: the product with 3. -/
def tripleHalfBlock (s : BitVec 64) : BitVec 64 := s ^^^ doubleHalfBlock s

/-- The feedback function: the halves swapped, one of them rotated. -/
def feedbackG (y : BitVec 128) : BitVec 128 :=
  y.extractLsb' 0 64 ++ (y.extractLsb' 64 63 ++ y.extractLsb' 127 1)

/-- The first `num_bytes` bytes, a one bit and zeros; a full block stays. -/
def padding (dataIn : BitVec 128) (numBytes : BitVec 5) : BitVec 128 :=
  if numBytes < 16 then
    Bytes.keepLeft 16 numBytes.toNat dataIn ||| 1#128 <<< (127 - 8 * numBytes.toNat)
  else if numBytes = 16 then dataIn
  else 0

/-- The first `no_of_bytes` bytes of `s1 ^ s2`. -/
def xorBlock (s1 s2 : BitVec 128) (noOfBytes : BitVec 5) : BitVec 128 :=
  if noOfBytes ≤ 16 then Bytes.keepLeft 16 noOfBytes.toNat (s1 ^^^ s2) else 0

/-- `xor_topbar_block`: the mask on the upper half. -/
def xorTopbarBlock (s1 : BitVec 128) (s2 : BitVec 64) : BitVec 128 :=
  (s1.extractLsb' 64 64 ^^^ s2) ++ s1.extractLsb' 0 64

/-- `pho1`: the feedback and the padded block. -/
def pho1 (y m : BitVec 128) (noOfBytes : BitVec 5) : BitVec 128 :=
  xorBlock (feedbackG y) (padding m noOfBytes) 16

/-- `C` and `X` of `pho`. -/
def pho (y m : BitVec 128) (noOfBytes : BitVec 5) : BitVec 128 × BitVec 128 :=
  (xorBlock y m noOfBytes, pho1 y m noOfBytes)

/-- `M` and `X` of `phoprime`. -/
def phoprime (y c : BitVec 128) (noOfBytes : BitVec 5) : BitVec 128 × BitVec 128 :=
  let m := xorBlock y c noOfBytes
  (m, pho1 y m noOfBytes)

/-! ## The state machine -/

/-- The states of the machine; the codes 9 to 15 of the 4-bit register do not occur. -/
inductive FsmState
  | idle | waitNonce | procAd | waitAd | reqAd | procMsg | waitMsg | reqMsg | done
  deriving DecidableEq, Inhabited

/-- The inputs of `cofb_core`. -/
structure CoreIn where
  start : Bool
  decryptMode : Bool
  key : BitVec 128
  nonce : BitVec 128
  adData : BitVec 128
  adTotalLen : BitVec 8
  adAck : Bool
  msgData : BitVec 128
  msgTotalLen : BitVec 8
  msgAck : Bool
  tagIn : BitVec 128

/-- The registers of `cofb_core`. -/
structure Core where
  state : FsmState
  l : BitVec 64
  yPrev : BitVec 128
  remainingAd : BitVec 8
  remainingMsg : BitVec 8
  isLastAd : Bool
  isLastMsg : Bool
  giftIn : BitVec 128
  giftStart : Bool
  adReq : Bool
  msgReq : Bool
  dataOut : BitVec 128
  dataOutValid : Bool
  tagOut : BitVec 128
  valid : Bool
  done : Bool
  gift : Gift
  deriving Inhabited

/-- The registers while `rst_n` is active. -/
def Core.reset (s : Core) : Core where
  state := .idle
  l := 0
  yPrev := 0
  remainingAd := 0
  remainingMsg := 0
  isLastAd := false
  isLastMsg := false
  giftIn := 0
  giftStart := false
  adReq := false
  msgReq := false
  dataOut := 0
  dataOutValid := false
  tagOut := 0
  valid := false
  done := false
  gift := s.gift.reset

/-- `ad_bytes` and `msg_bytes`. -/
def blockBytes (remaining : BitVec 8) : BitVec 5 :=
  if 16 < remaining then 16 else remaining.extractLsb' 0 5

/-- `last_ad_now` and `last_msg_now`. -/
def lastNow (remaining : BitVec 8) : Bool := decide (remaining ≤ 16)

/-- `(alen%16 != 0) || emptyA` -/
def partialOrEmptyAd (remaining : BitVec 8) : Bool :=
  remaining == 0 || remaining.extractLsb' 0 4 != 0

/-- `inlen%16 != 0` -/
def partialMsg (remaining : BitVec 8) : Bool :=
  remaining != 0 && remaining.extractLsb' 0 4 != 0

/-- `emptyM`: the message is empty, as the input tells it now. -/
def CoreIn.emptyM (i : CoreIn) : Bool := i.msgTotalLen == 0

/-- The mask before the block cipher call of an AD block. -/
def adMask (remaining : BitVec 8) (emptyM : Bool) (l : BitVec 64) : BitVec 64 :=
  if !lastNow remaining then doubleHalfBlock l
  else if !partialOrEmptyAd remaining && !emptyM then tripleHalfBlock l
  else if partialOrEmptyAd remaining && !emptyM then tripleHalfBlock (tripleHalfBlock l)
  else if !partialOrEmptyAd remaining && emptyM then
    tripleHalfBlock (tripleHalfBlock (tripleHalfBlock l))
  else tripleHalfBlock (tripleHalfBlock (tripleHalfBlock (tripleHalfBlock l)))

/-- The mask before the block cipher call of a message block. -/
def msgMask (remaining : BitVec 8) (l : BitVec 64) : BitVec 64 :=
  if !lastNow remaining then doubleHalfBlock l
  else if !partialMsg remaining then tripleHalfBlock l
  else tripleHalfBlock (tripleHalfBlock l)

/-- Output block and next input of the cipher, in either mode. -/
def phoMsg (decryptMode : Bool) (y m : BitVec 128) (noOfBytes : BitVec 5) :
    BitVec 128 × BitVec 128 :=
  if !decryptMode then pho y m noOfBytes else phoprime y m noOfBytes

/-- The registers at the edge before the `case`. -/
def Core.clear (s : Core) : Core :=
  { s with giftStart := false, dataOutValid := false, adReq := false, msgReq := false }

/-- What the block cipher engine sees. -/
def Core.giftInputs (i : CoreIn) (s : Core) : GiftIn :=
  { start := s.giftStart, plaintext := xorTopbarBlock s.giftIn s.l, key := i.key }

/-- The registers of the machine; those of the engine stay. -/
def Core.fsmStep (i : CoreIn) (s : Core) : Core :=
  let t := s.clear
  match s.state with
  | .idle =>
      let t := { t with done := false, valid := false }
      if i.start then
        { t with
          giftIn := i.nonce
          l := 0
          giftStart := true
          remainingAd := i.adTotalLen
          remainingMsg := i.msgTotalLen
          state := .waitNonce }
      else t
  | .waitNonce =>
      if s.gift.done then
        { t with
          yPrev := s.gift.ciphertext
          l := s.gift.ciphertext.extractLsb' 64 64
          state := .procAd }
      else t
  | .procAd =>
      { t with
        isLastAd := lastNow s.remainingAd
        l := adMask s.remainingAd i.emptyM s.l
        giftIn := pho1 s.yPrev i.adData (blockBytes s.remainingAd)
        giftStart := true
        state := .waitAd }
  | .waitAd =>
      if s.gift.done then
        let t := { t with yPrev := s.gift.ciphertext }
        if s.isLastAd then
          if !i.emptyM then { t with state := .procMsg }
          else { t with tagOut := s.gift.ciphertext, state := .done }
        else { t with remainingAd := s.remainingAd - 16, state := .reqAd }
      else t
  | .reqAd =>
      let t := { t with adReq := true }
      if i.adAck then { t with state := .procAd } else t
  | .procMsg =>
      let p := phoMsg i.decryptMode s.yPrev i.msgData (blockBytes s.remainingMsg)
      { t with
        isLastMsg := lastNow s.remainingMsg
        l := msgMask s.remainingMsg s.l
        dataOut := p.1
        dataOutValid := true
        giftIn := p.2
        giftStart := true
        state := .waitMsg }
  | .waitMsg =>
      if s.gift.done then
        let t := { t with yPrev := s.gift.ciphertext }
        if s.isLastMsg then { t with tagOut := s.gift.ciphertext, state := .done }
        else { t with remainingMsg := s.remainingMsg - 16, state := .reqMsg }
      else t
  | .reqMsg =>
      let t := { t with msgReq := true }
      if i.msgAck then { t with state := .procMsg } else t
  | .done =>
      let t := { t with
        done := true
        valid := if i.decryptMode then s.tagOut == i.tagIn else true }
      if !i.start then { t with state := .idle } else t

/-- The clock edge while `rst_n` is high. -/
def Core.step (i : CoreIn) (s : Core) : Core :=
  { s.fsmStep i with gift := s.gift.step (s.giftInputs i) }

/-! ## The requests -/

theorem Core.adReq_step (i : CoreIn) (s : Core) : (Core.step i s).adReq = true ↔ s.state = .reqAd := by
  show (s.fsmStep i).adReq = true ↔ s.state = .reqAd
  unfold Core.fsmStep Core.clear
  cases h : s.state
  all_goals
    dsimp only
    try repeat' split
    all_goals simp

theorem Core.msgReq_step (i : CoreIn) (s : Core) :
    (Core.step i s).msgReq = true ↔ s.state = .reqMsg := by
  show (s.fsmStep i).msgReq = true ↔ s.state = .reqMsg
  unfold Core.fsmStep Core.clear
  cases h : s.state
  all_goals
    dsimp only
    try repeat' split
    all_goals simp

theorem Core.reqAd_step (i : CoreIn) {s : Core} (h : s.state = .reqAd) :
    (Core.step i s).state = if i.adAck then .procAd else .reqAd := by
  show (s.fsmStep i).state = _
  rw [Core.fsmStep, h]
  dsimp only
  split
  · rfl
  · exact h

theorem Core.reqMsg_step (i : CoreIn) {s : Core} (h : s.state = .reqMsg) :
    (Core.step i s).state = if i.msgAck then .procMsg else .reqMsg := by
  show (s.fsmStep i).state = _
  rw [Core.fsmStep, h]
  dsimp only
  split
  · rfl
  · exact h

end PicoSoc.GiftCofb
