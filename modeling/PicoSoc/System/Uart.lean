import Mathlib.Tactic

set_option autoImplicit false

/-! # The serial port (`simpleuart.v`) -/

namespace PicoSoc.System

/-- The registers of `simpleuart`. -/
structure SimpleUart where
  cfgDivider : BitVec 32
  recvState : BitVec 4
  recvDivcnt : BitVec 32
  recvPattern : BitVec 8
  recvBufData : BitVec 8
  recvBufValid : Bool
  sendPattern : BitVec 10
  sendBitcnt : BitVec 4
  sendDivcnt : BitVec 32
  sendDummy : Bool
  deriving Inhabited

/-- The inputs of a cycle; `reset` stands for `!resetn`. -/
structure UartIn where
  serRx : Bool
  regDivWe : BitVec 4
  regDivDi : BitVec 32
  regDatWe : Bool
  regDatRe : Bool
  regDatDi : BitVec 32

namespace SimpleUart

variable (i : UartIn) (u : SimpleUart)

/-- What a read of the divider register returns. -/
def regDivDo : BitVec 32 := u.cfgDivider

/-- What a read of the data register returns: the buffered byte, or all ones. -/
def regDatDo : BitVec 32 := if u.recvBufValid then u.recvBufData.setWidth 32 else 0xFFFFFFFF

/-- The transmitter has something to send, a frame or a dummy frame. -/
def sending : Bool := u.sendBitcnt != 0 || u.sendDummy

/-- `reg_dat_wait`: a byte is offered while the transmitter is busy. -/
def regDatWait : Bool := i.regDatWe && u.sending

/-- The line. -/
def serTx : Bool := u.sendPattern.getLsbD 0

/-- The divider after a clock edge, written byte by byte. -/
def cfgDividerNext : BitVec 32 :=
  let byte (k : ℕ) : BitVec 8 :=
    if i.regDivWe.getLsbD k then i.regDivDi.extractLsb' (8 * k) 8
    else u.cfgDivider.extractLsb' (8 * k) 8
  byte 3 ++ byte 2 ++ byte 1 ++ byte 0

/-- The receiver is about to put a byte into the buffer. -/
def completes : Bool := u.recvState == 10 && u.cfgDivider.ult u.recvDivcnt

/-- The receiver after a clock edge. -/
def recvStep : SimpleUart :=
  let t := { u with recvDivcnt := u.recvDivcnt + 1 }
  let t := if i.regDatRe then { t with recvBufValid := false } else t
  if u.recvState = 0 then
    { t with recvState := if !i.serRx then 1 else t.recvState, recvDivcnt := 0 }
  else if u.recvState = 1 then
    if u.cfgDivider.ult (2 * u.recvDivcnt) then { t with recvState := 2, recvDivcnt := 0 } else t
  else if u.recvState = 10 then
    if u.cfgDivider.ult u.recvDivcnt then
      { t with recvBufData := u.recvPattern, recvBufValid := true, recvState := 0 }
    else t
  else if u.cfgDivider.ult u.recvDivcnt then
    { t with
      recvPattern := BitVec.ofBool i.serRx ++ u.recvPattern.extractLsb' 1 7
      recvState := u.recvState + 1
      recvDivcnt := 0 }
  else t

/-- A bit has been on the line for its time. -/
def shifts : Bool := u.cfgDivider.ult u.sendDivcnt && u.sendBitcnt != 0

/-- The transmitter after a clock edge. -/
def sendStep : SimpleUart :=
  let t := if i.regDivWe != 0 then { u with sendDummy := true } else u
  let t := { t with sendDivcnt := u.sendDivcnt + 1 }
  if u.sendDummy && u.sendBitcnt == 0 then
    { t with sendPattern := ~~~0#10, sendBitcnt := 15, sendDivcnt := 0, sendDummy := false }
  else if i.regDatWe && u.sendBitcnt == 0 then
    { t with
      sendPattern := 1#1 ++ i.regDatDi.extractLsb' 0 8 ++ 0#1
      sendBitcnt := 10
      sendDivcnt := 0 }
  else if u.shifts then
    { t with
      sendPattern := 1#1 ++ u.sendPattern.extractLsb' 1 9
      sendBitcnt := u.sendBitcnt - 1
      sendDivcnt := 0 }
  else t

/-- The clock edge; `default_div` is the parameter `DEFAULT_DIV`. -/
def step (defaultDiv : BitVec 32) (resetn : Bool) : SimpleUart :=
  if resetn then
    let r := u.recvStep i
    let s := u.sendStep i
    { r with
      cfgDivider := u.cfgDividerNext i
      sendPattern := s.sendPattern
      sendBitcnt := s.sendBitcnt
      sendDivcnt := s.sendDivcnt
      sendDummy := s.sendDummy }
  else
    { cfgDivider := defaultDiv
      recvState := 0
      recvDivcnt := 0
      recvPattern := 0
      recvBufData := 0
      recvBufValid := false
      sendPattern := ~~~0#10
      sendBitcnt := 0
      sendDivcnt := 0
      sendDummy := true }

end SimpleUart

end PicoSoc.System
