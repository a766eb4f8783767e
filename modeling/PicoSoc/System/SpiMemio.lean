import PicoSoc.System.SpiFlash

set_option autoImplicit false

/-! # The flash controller (`spimemio.v`)

The transfer engine `spimemio_xfer`, the controller over it, and both together with the flash. The
registers `xfer_io*_90`, which shift the outputs by half a cycle when `config_ddr` is set, are left
out: the outputs are those with `config_ddr` low. -/

namespace PicoSoc.System

/-! ## `spimemio_xfer` -/

/-- The inputs of `spimemio_xfer` that its state does not hold. -/
structure XferIn where
  resetn : Bool
  dinValid : Bool
  dinData : BitVec 8
  dinTag : BitVec 4
  dinCont : Bool
  dinDspi : Bool
  dinQspi : Bool
  dinDdr : Bool
  dinRd : Bool
  io0 : Bool
  io1 : Bool
  io2 : Bool
  io3 : Bool

/-- The registers of `spimemio_xfer`. -/
structure Xfer where
  obuffer : BitVec 8
  ibuffer : BitVec 8
  count : BitVec 4
  dummyCount : BitVec 4
  xferCont : Bool
  xferDspi : Bool
  xferQspi : Bool
  xferDdr : Bool
  xferDdrQ : Bool
  xferRd : Bool
  xferTag : BitVec 4
  xferTagQ : BitVec 4
  fetch : Bool
  lastFetch : Bool
  flashCsb : Bool
  flashClk : Bool
  deriving Inhabited

namespace Xfer

/-- `next_obuffer`, `next_ibuffer`, `next_count` and `next_fetch`. -/
structure Next where
  obuffer : BitVec 8
  ibuffer : BitVec 8
  count : BitVec 4
  fetch : Bool

/-- `count - {|count, ...}` -/
def countDown (count step : BitVec 4) : BitVec 4 := count - if count = 0 then 0 else step

/-- `next_obuffer`, `next_ibuffer`, `next_count` and `next_fetch`. -/
def next (i : XferIn) (x : Xfer) : Next :=
  let n : Next := ⟨x.obuffer, x.ibuffer, x.count, false⟩
  if x.dummyCount = 0 then
    if !x.xferDdr && !x.xferQspi && !x.xferDspi then
      let n :=
        if x.flashClk then
          { n with obuffer := x.obuffer.extractLsb' 0 7 ++ 0#1, count := countDown x.count 1 }
        else { n with ibuffer := x.ibuffer.extractLsb' 0 7 ++ BitVec.ofBool i.io1 }
      { n with fetch := n.count == 0 }
    else if !x.xferDdr && x.xferQspi then
      let n :=
        if x.flashClk then
          { n with obuffer := x.obuffer.extractLsb' 0 4 ++ 0#4, count := countDown x.count 4 }
        else
          { n with
            ibuffer := x.ibuffer.extractLsb' 0 4 ++ BitVec.ofBool i.io3 ++ BitVec.ofBool i.io2
              ++ BitVec.ofBool i.io1 ++ BitVec.ofBool i.io0 }
      { n with fetch := n.count == 0 }
    else if x.xferDdr && x.xferQspi then
      let n : Next :=
        { obuffer := x.obuffer.extractLsb' 0 4 ++ 0#4
          ibuffer := x.ibuffer.extractLsb' 0 4 ++ BitVec.ofBool i.io3 ++ BitVec.ofBool i.io2
            ++ BitVec.ofBool i.io1 ++ BitVec.ofBool i.io0
          count := countDown x.count 4
          fetch := false }
      { n with fetch := n.count == 0 }
    else if x.xferDspi then
      let n :=
        if x.flashClk then
          { n with obuffer := x.obuffer.extractLsb' 0 6 ++ 0#2, count := countDown x.count 2 }
        else
          { n with
            ibuffer := x.ibuffer.extractLsb' 0 6 ++ BitVec.ofBool i.io1 ++ BitVec.ofBool i.io0 }
      { n with fetch := n.count == 0 }
    else n
  else n

/-- `din_ready`: the next byte to send is taken. -/
def dinReady (i : XferIn) (x : Xfer) : Bool := i.dinValid && i.resetn && (x.next i).fetch

/-- `dout_valid`: a byte has been received. -/
def doutValid (i : XferIn) (x : Xfer) : Bool :=
  (if x.xferDdrQ then x.fetch && !x.lastFetch else (x.next i).fetch && !x.fetch) && i.resetn

/-- One data line: `io0` is driven, and carries the highest bit of the output buffer. -/
def single (x : Xfer) : Bool := !x.xferDdr && !x.xferQspi && !x.xferDspi

/-- The output enable of `flash_io0`. -/
def io0Oe (x : Xfer) : Bool :=
  x.dummyCount == 0 && (if x.single then true else (x.xferQspi || x.xferDspi) && !x.xferRd)

/-- The bit on `flash_io0`. -/
def io0Do (x : Xfer) : Bool :=
  x.dummyCount == 0
    && (if x.single then x.obuffer.getLsbD 7
      else if x.xferQspi then x.obuffer.getLsbD 4
      else x.xferDspi && x.obuffer.getLsbD 6)

/-- The clock edge. -/
def step (i : XferIn) (x : Xfer) : Xfer :=
  let x' := { x with xferDdrQ := x.xferDdr, xferTagQ := x.xferTag }
  if !i.resetn then
    { x' with
      fetch := true, lastFetch := true, flashCsb := true, flashClk := false, count := 0
      dummyCount := 0, xferTag := 0, xferCont := false, xferDspi := false, xferQspi := false
      xferDdr := false, xferRd := false }
  else
    let n := x.next i
    let x' := { x' with fetch := n.fetch, lastFetch := if x.xferDdr then x.fetch else true }
    let x' :=
      if x.dummyCount ≠ 0 then
        { x' with
          flashClk := !x.flashClk && !x.flashCsb
          dummyCount := x.dummyCount - if x.flashClk then 1 else 0 }
      else if x.count ≠ 0 then
        { x' with
          flashClk := !x.flashClk && !x.flashCsb
          obuffer := n.obuffer, ibuffer := n.ibuffer, count := n.count }
      else x'
    if i.dinValid && x.dinReady i then
      { x' with
        flashCsb := false, flashClk := false, count := 8
        dummyCount := if i.dinRd then i.dinData.extractLsb' 0 4 else 0
        obuffer := i.dinData, xferTag := i.dinTag, xferCont := i.dinCont, xferDspi := i.dinDspi
        xferQspi := i.dinQspi, xferDdr := i.dinDdr, xferRd := i.dinRd }
    else x'

end Xfer

/-! ## `spimemio` -/

/-- The fields of `cfgreg`. -/
structure MemioConfig where
  en : Bool
  ddr : Bool
  qspi : Bool
  cont : Bool
  dummy : BitVec 4
  oe : BitVec 4
  csb : Bool
  clk : Bool
  out : BitVec 4
  deriving Inhabited

/-- The states 0 to 12 of the 4-bit register; the others do not occur. -/
inductive MemioState
  | s0 | s1 | s2 | s3 | s4 | s5 | s6 | s7 | s8 | s9 | s10 | s11 | s12
  deriving DecidableEq, Inhabited

/-- The inputs of `spimemio` from the bus. -/
structure MemioIn where
  resetn : Bool
  valid : Bool
  addr : BitVec 24
  cfgregWe : BitVec 4
  cfgregDi : BitVec 32
  deriving Inhabited

/-- The registers of `spimemio`. -/
structure Memio where
  xferResetn : Bool
  dinValid : Bool
  dinData : BitVec 8
  dinTag : BitVec 4
  dinCont : Bool
  dinQspi : Bool
  dinDdr : Bool
  dinRd : Bool
  buffer : BitVec 24
  rdata : BitVec 32
  rdAddr : BitVec 24
  rdValid : Bool
  rdWait : Bool
  rdInc : Bool
  softreset : Bool
  config : MemioConfig
  state : MemioState
  deriving Inhabited

/-- What the controller sees of the engine. -/
structure XferOut where
  dinReady : Bool
  doutValid : Bool
  doutData : BitVec 8
  doutTag : BitVec 4

namespace Memio

/-- `ready`: the word read is the one the bus asks for. -/
def ready (i : MemioIn) (s : Memio) : Bool := i.valid && i.addr == s.rdAddr && s.rdValid

/-- `rd_addr+4` is compared in 32 bits. -/
def jump (i : MemioIn) (s : Memio) : Bool :=
  i.valid && !s.ready i && i.addr.setWidth 32 != s.rdAddr.setWidth 32 + 4 && s.rdValid

/-- The configuration register after a clock edge. -/
def configStep (i : MemioIn) (c : MemioConfig) : MemioConfig :=
  if !i.resetn then
    { en := true, ddr := false, qspi := false, cont := false, dummy := 8, oe := 0, csb := false
      clk := false, out := 0 }
  else
    let c :=
      if i.cfgregWe.getLsbD 0 then
        { c with
          csb := i.cfgregDi.getLsbD 5, clk := i.cfgregDi.getLsbD 4
          out := i.cfgregDi.extractLsb' 0 4 }
      else c
    let c := if i.cfgregWe.getLsbD 1 then { c with oe := i.cfgregDi.extractLsb' 8 4 } else c
    let c :=
      if i.cfgregWe.getLsbD 2 then
        { c with
          ddr := i.cfgregDi.getLsbD 22, qspi := i.cfgregDi.getLsbD 21
          cont := i.cfgregDi.getLsbD 20, dummy := i.cfgregDi.extractLsb' 16 4 }
      else c
    if i.cfgregWe.getLsbD 3 then { c with en := i.cfgregDi.getLsbD 31 } else c

/-- `softreset` after a clock edge: the configuration changes. -/
def softresetStep (i : MemioIn) (s : Memio) : Bool :=
  !i.resetn || (!s.config.en || i.cfgregWe != 0)

/-- The bytes the engine has received. -/
def capture (i : MemioIn) (o : XferOut) (s : Memio) : Memio :=
  let t :=
    if o.doutValid && o.doutTag == 1 then
      { s with buffer := s.buffer.extractLsb' 8 16 ++ o.doutData }
    else s
  let t :=
    if o.doutValid && o.doutTag == 2 then
      { t with buffer := s.buffer.extractLsb' 16 8 ++ o.doutData ++ s.buffer.extractLsb' 0 8 }
    else t
  let t :=
    if o.doutValid && o.doutTag == 3 then
      { t with buffer := o.doutData ++ s.buffer.extractLsb' 0 16 }
    else t
  let t :=
    if o.doutValid && o.doutTag == 4 then
      { t with
        rdata := o.doutData ++ s.buffer
        rdAddr := if s.rdInc then s.rdAddr + 4 else i.addr
        rdValid := true
        rdWait := s.rdInc
        rdInc := true }
    else t
  if i.valid then { t with rdWait := false } else t

/-- Offer a byte, and go on when it is taken. -/
def offer (o : XferOut) (data : BitVec 8) (tag : BitVec 4) (next : MemioState) (t : Memio) :
    Memio :=
  let t := { t with dinValid := true, dinData := data, dinTag := tag }
  if o.dinReady then { t with dinValid := false, state := next } else t

/-- The command of the mode. -/
def readCommand (c : MemioConfig) : BitVec 8 :=
  match c.ddr, c.qspi with
  | true, true => 0xED
  | false, true => 0xEB
  | true, false => 0xBB
  | false, false => 0x03

/-- The `case` on `state`; `t` holds what the cycle has assigned before. -/
def stateCase (i : MemioIn) (o : XferOut) (s t : Memio) : Memio :=
  match s.state with
  | .s0 => offer o 0xFF 0 .s1 t
  | .s1 => if o.doutValid then { t with xferResetn := false, state := .s2 } else t
  | .s2 => offer o 0xAB 0 .s3 t
  | .s3 => if o.doutValid then { t with xferResetn := false, state := .s4 } else t
  | .s4 => offer o (readCommand s.config) 0 .s5 { t with rdInc := false }
  | .s5 =>
      if i.valid && !s.ready i then
        offer o (i.addr.extractLsb' 16 8) 0 .s6
          { t with dinQspi := s.config.qspi, dinDdr := s.config.ddr }
      else t
  | .s6 => offer o (i.addr.extractLsb' 8 8) 0 .s7 t
  | .s7 =>
      let t := offer o (i.addr.extractLsb' 0 8) 0 (if s.config.qspi || s.config.ddr then .s8 else .s9) t
      if o.dinReady then { t with dinData := 0 } else t
  | .s8 =>
      let t := offer o (if s.config.cont then 0xA5 else 0xFF) 0 .s9 t
      if o.dinReady then { t with dinRd := true, dinData := s.config.dummy.setWidth 8 } else t
  | .s9 => offer o s.dinData 1 .s10 t
  | .s10 => offer o 0x00 2 .s11 t
  | .s11 => offer o s.dinData 3 .s12 t
  | .s12 => if !s.rdWait || i.valid then offer o s.dinData 4 .s9 t else t

/-- Abandon the transfer. -/
def jumpCase (i : MemioIn) (s t : Memio) : Memio :=
  if s.jump i then
    let t := { t with rdInc := false, rdValid := false, xferResetn := false, dinRd := false }
    if s.config.cont then { t with state := .s5 }
    else { t with state := .s4, dinQspi := false, dinDdr := false }
  else t

/-- The clock edge. -/
def step (i : MemioIn) (o : XferOut) (s : Memio) : Memio :=
  let t := { s with xferResetn := true, dinValid := false }
  let t :=
    if !i.resetn || s.softreset then
      { t with
        state := .s0, xferResetn := false, rdValid := false, dinTag := 0, dinCont := false
        dinQspi := false, dinDdr := false, dinRd := false }
    else jumpCase i s (stateCase i o s (capture i o t))
  { t with softreset := softresetStep i s, config := configStep i s.config }

end Memio

/-! ## The controller with the flash -/

/-- The inputs of a cycle; `io` is what the flash pins show where nothing drives them. -/
structure FlashIn extends MemioIn where
  io : BitVec 4
  deriving Inhabited

/-- The controller, its shifter and the flash. -/
structure FlashSystem where
  memio : Memio
  xfer : Xfer
  flash : SpiFlash
  deriving Inhabited

namespace FlashSystem

variable (memory : BitVec 24 → BitVec 8) (i : FlashIn) (s : FlashSystem)

/-- Chip select at the flash. -/
def flashCsb : Bool := if s.memio.config.en then s.xfer.flashCsb else s.memio.config.csb

/-- The clock at the flash. -/
def flashClk : Bool := if s.memio.config.en then s.xfer.flashClk else s.memio.config.clk

/-- The pin `io0`. -/
def flashIo0 : Bool :=
  if s.memio.config.en then (if s.xfer.io0Oe then s.xfer.io0Do else i.io.getLsbD 0)
  else if s.memio.config.oe.getLsbD 0 then s.memio.config.out.getLsbD 0 else i.io.getLsbD 0

/-- What the controller gives to its shifter. -/
def xferIn : XferIn where
  resetn := s.memio.xferResetn
  dinValid := s.memio.dinValid
  dinData := s.memio.dinData
  dinTag := s.memio.dinTag
  dinCont := s.memio.dinCont
  dinDspi := s.memio.dinDdr && !s.memio.dinQspi
  dinQspi := s.memio.dinQspi
  dinDdr := s.memio.dinDdr && s.memio.dinQspi
  dinRd := s.memio.dinRd
  io0 := flashIo0 i s
  io1 := if s.flashCsb || s.flashClk then i.io.getLsbD 1 else s.flash.io1
  io2 := i.io.getLsbD 2
  io3 := i.io.getLsbD 3

/-- What the shifter gives to its controller. -/
def xferOut : XferOut where
  dinReady := s.xfer.dinReady (xferIn i s)
  doutValid := s.xfer.doutValid (xferIn i s)
  doutData := s.xfer.ibuffer
  doutTag := s.xfer.xferTagQ

/-- `ready`: the word read is the one the bus asks for. -/
def ready : Bool := s.memio.ready i.toMemioIn

/-- The clock edge; the flash sees the new levels of `csb` and `clk`, and at a rising edge of `clk`
    the level `io0` had before. -/
def step : FlashSystem :=
  let t : FlashSystem :=
    { s with
      memio := s.memio.step i.toMemioIn (xferOut i s)
      xfer := s.xfer.step (xferIn i s) }
  { t with
    flash :=
      if t.flashCsb then s.flash.deselect
      else if !s.flashClk && t.flashClk then s.flash.posedge memory (flashIo0 i s)
      else s.flash }

end FlashSystem

end PicoSoc.System
