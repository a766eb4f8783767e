import PicoSoc.Library.Clocked
import PicoSoc.System.Bus
import PicoSoc.System.Uart
import PicoSoc.Xoodyak.Core
import PicoSoc.TinyJambu.Core
import PicoSoc.GiftCofb.Core

set_option autoImplicit false

/-! # The system on the fast path (`system.v`, `FAST_MEMORY = 1`)

The bus registers, the serial port and the three accelerators with their completion flags. The
look-ahead signals of the processor, the switches and the SD SPI master are inputs. -/

namespace PicoSoc.System

open Bytes Clocked

/-- `*_done_sticky` and `*_valid_sticky` -/
structure Sticky where
  done : Bool
  valid : Bool
  deriving DecidableEq

/-- Cleared by the start pulse, set by the `done` of the core. -/
def Sticky.step (start done valid : Bool) (s : Sticky) : Sticky :=
  if start then ⟨false, false⟩ else if done then ⟨true, valid⟩ else s

/-- The registers of the system without its processor. -/
structure Soc where
  bus : Bus
  uart : SimpleUart
  jb : TinyJambu.Core
  jbSticky : Sticky
  xd : Xoodyak.Core
  xdSticky : Sticky
  gc : GiftCofb.Core
  gcSticky : Sticky

/-- What comes from outside in a cycle. -/
structure SocIn where
  la : LookAhead
  uartRx : Bool
  swSync2 : BitVec 4
  btnSync2 : BitVec 4
  sdspiRxDataReg : BitVec 8
  sdspiBusy : Bool
  sdspiDoneSticky : Bool

/-- An access of the CPU in a cycle. -/
def SocIn.access (i : SocIn) : Bool := i.la.access

/-- No access. -/
def noAccess : SocIn where
  la := { addr := 0, wdata := 0, wstrb := 0, laRead := false, laWrite := false }
  uartRx := true
  swSync2 := 0
  btnSync2 := 0
  sdspiRxDataReg := 0xFF
  sdspiBusy := false
  sdspiDoneSticky := false

/-- The inputs of `tinyjambu_core` from its registers. -/
def jbCoreIn (r : JambuRegs) : TinyJambu.CoreIn where
  ena := r.ena
  selType := r.selType
  key := r.key
  nonce := r.nonce
  ad := r.ad
  adLength := r.adLength
  dataLength := r.dataLength
  dataIn := r.dataIn
  tagIn := r.tagIn

/-- The inputs of `xoodyakcore` from its registers; `restart` is tied to 0. -/
def xdCoreIn (r : XoodyakRegs) : Xoodyak.CoreIn where
  ena := r.ena
  restart := false
  selType := r.selType
  key := r.key
  nonce := r.nonce
  ad := r.ad
  adLength := r.adLength
  dataLength := r.dataLength
  dataIn := r.dataIn
  tagIn := r.tagIn

/-- The inputs of `cofb_core` from its registers. -/
def gcCoreIn (r : CofbRegs) : GiftCofb.CoreIn where
  start := r.start
  decryptMode := r.decryptMode
  key := r.key
  nonce := r.nonce
  adData := r.ad
  adTotalLen := r.adLength
  adAck := r.adAck
  msgData := r.dataIn
  msgTotalLen := r.dataLength
  msgAck := r.msgAck
  tagIn := r.tagIn

namespace Soc

variable (boot : Ram bootSize) (i : SocIn) (s : Soc)

/-- `xd_valid` and `xd_done` and so on, as the bus reads them. -/
def periph : Periph where
  uartDatDo := s.uart.regDatDo
  uartDivDo := s.uart.regDivDo
  swSync2 := i.swSync2
  btnSync2 := i.btnSync2
  sdspiRxDataReg := i.sdspiRxDataReg
  sdspiBusy := i.sdspiBusy
  sdspiDoneSticky := i.sdspiDoneSticky
  jbDoneSticky := s.jbSticky.done
  jbValidSticky := s.jbSticky.valid
  jbDataOut := s.jb.dp.dataOut
  jbTagOut := s.jb.dp.tag
  xdDoneSticky := s.xdSticky.done
  xdValidSticky := s.xdSticky.valid
  xdDataOut := s.xd.dataOut
  xdTagOut := s.xd.tag
  gcAdReq := s.gc.adReq
  gcMsgReq := s.gc.msgReq
  gcDoneSticky := s.gcSticky.done
  gcValidSticky := s.gcSticky.valid
  gcDataOut := s.gc.dataOut
  gcTagOut := s.gc.tagOut

/-- The inputs of the UART from the registers. -/
def uartIn : UartIn where
  serRx := i.uartRx
  regDivWe := s.bus.regs.uart.divWe
  regDivDi := s.bus.regs.uart.divDi
  regDatWe := s.bus.regs.uart.we
  regDatRe := s.bus.regs.uart.rxRd
  regDatDi := 0#24 ++ s.bus.regs.uart.txData

/-- The inputs of TinyJAMBU in this cycle. -/
def jbIn : TinyJambu.CoreIn := jbCoreIn s.bus.regs.jb

/-- The inputs of Xoodyak in this cycle. -/
def xdIn : Xoodyak.CoreIn := xdCoreIn s.bus.regs.xd

/-- The inputs of GIFT-COFB in this cycle. -/
def gcIn : GiftCofb.CoreIn := gcCoreIn s.bus.regs.gc

/-- The clock edge with `resetn` high. -/
def step : Soc where
  bus := s.bus.fastStep boot true (s.periph i) i.la
  uart := s.uart.step (s.uartIn i) 868 true
  jb := s.jb.step s.jbIn
  jbSticky := s.jbSticky.step s.bus.regs.jb.ena s.jb.done s.jb.dp.valid
  xd := s.xd.step 1 s.xdIn
  xdSticky := s.xdSticky.step s.bus.regs.xd.ena s.xd.done s.xd.valid
  gc := s.gc.step s.gcIn
  gcSticky := s.gcSticky.step s.bus.regs.gc.start s.gc.done s.gc.valid

/-- The clock edge with `resetn` low. -/
def reset : Soc where
  bus := s.bus.fastStep boot false (s.periph i) i.la
  uart := s.uart.step (s.uartIn i) 868 false
  jb := .reset
  jbSticky := ⟨false, false⟩
  xd := .reset
  xdSticky := ⟨false, false⟩
  gc := s.gc.reset
  gcSticky := ⟨false, false⟩

/-- The state in cycle `n` of a run from reset, whatever the registers held before. -/
def run (env : ℕ → SocIn) (n : ℕ) : Soc :=
  Clocked.run (fun i s => s.step boot i) env (s.reset boot (env 0)) n

theorem run_zero (env : ℕ → SocIn) : s.run boot env 0 = s.reset boot (env 0) := rfl

theorem run_succ (env : ℕ → SocIn) (n : ℕ) :
    s.run boot env (n + 1) = (s.run boot env n).step boot (env n) :=
  Clocked.run_succ _ _ _ n

end Soc

/-- A state before reset, with empty memories. -/
def sampleSoc : Soc where
  bus := .initial
  uart := default
  jb := .reset
  jbSticky := ⟨false, false⟩
  xd := .reset
  xdSticky := ⟨false, false⟩
  gc := default
  gcSticky := ⟨false, false⟩

/-- A boot memory of zeros. -/
def emptyBoot : Ram bootSize := Vector.replicate bootSize 0

end PicoSoc.System
