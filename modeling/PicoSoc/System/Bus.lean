import PicoSoc.Library.Ram

set_option autoImplicit false

/-! # The two bus paths of `system.v`

`gen_fast_mem` decodes the look-ahead signals of the CPU and is always ready; `gen_slow_mem` decodes
the registered ones and adds wait states. Both write the same registers. A `case` over addresses is
the list of its labels with what each one does. -/

namespace PicoSoc.System

open Bytes

/-- Words of the boot memory (`BOOT_SIZE`). -/
def bootSize : ℕ := 1024

/-- Words of the application memory (`APP_SIZE`). -/
def appSize : ℕ := 4096

/-! ## Registers -/

/-- `reg[32*j +: 32] <= d`. -/
def putWord {w : ℕ} (j : ℕ) (d : BitVec 32) (reg : BitVec w) : BitVec w :=
  (reg &&& ~~~((0xFFFFFFFF#32).setWidth w <<< (32 * j))) ||| (d.setWidth w <<< (32 * j))

/-- `jb_*` -/
structure JambuRegs where
  key : BitVec 128
  nonce : BitVec 96
  ad : BitVec 128
  dataIn : BitVec 128
  tagIn : BitVec 64
  adLength : BitVec 5
  dataLength : BitVec 5
  selType : BitVec 3
  ena : Bool

/-- `xd_*` -/
structure XoodyakRegs where
  key : BitVec 128
  nonce : BitVec 128
  ad : BitVec 128
  dataIn : BitVec 128
  tagIn : BitVec 128
  adLength : BitVec 5
  dataLength : BitVec 5
  selType : BitVec 3
  ena : Bool

/-- `gc_*` -/
structure CofbRegs where
  key : BitVec 128
  nonce : BitVec 128
  ad : BitVec 128
  dataIn : BitVec 128
  tagIn : BitVec 128
  adLength : BitVec 8
  dataLength : BitVec 8
  decryptMode : Bool
  start : Bool
  adAck : Bool
  msgAck : Bool

/-- `uart_*` and the transmit timer -/
structure UartRegs where
  we : Bool
  rxRd : Bool
  txData : BitVec 8
  divWe : BitVec 4
  divDi : BitVec 32
  txBusy : Bool
  txCountdown : BitVec 16

/-- `sdspi_*` -/
structure SpiRegs where
  txData : BitVec 8
  clkdiv : BitVec 16
  start : Bool
  csN : Bool

/-- What an access can change: the peripheral registers and the application memory. -/
structure Regs where
  outByteEn : Bool
  outByte : BitVec 8
  uart : UartRegs
  spi : SpiRegs
  jb : JambuRegs
  xd : XoodyakRegs
  gc : CofbRegs
  appMem : Ram appSize

/-- The registers of the memory path and those it decodes. -/
structure Bus where
  memReady : Bool
  /-- Undefined when the last word read lies outside its array. -/
  memRdata : Option (BitVec 32)
  mReadData : Option (BitVec 32)
  mReadEn : Bool
  regs : Regs

/-- The outputs of the peripherals that the bus reads. -/
structure Periph where
  uartDatDo : BitVec 32
  uartDivDo : BitVec 32
  swSync2 : BitVec 4
  btnSync2 : BitVec 4
  sdspiRxDataReg : BitVec 8
  sdspiBusy : Bool
  sdspiDoneSticky : Bool
  jbDoneSticky : Bool
  jbValidSticky : Bool
  jbDataOut : BitVec 128
  jbTagOut : BitVec 64
  xdDoneSticky : Bool
  xdValidSticky : Bool
  xdDataOut : BitVec 128
  xdTagOut : BitVec 128
  gcAdReq : Bool
  gcMsgReq : Bool
  gcDoneSticky : Bool
  gcValidSticky : Bool
  gcDataOut : BitVec 128
  gcTagOut : BitVec 128

/-- The peripherals after reset. -/
def Periph.initial : Periph where
  uartDatDo := 0xFFFFFFFF
  uartDivDo := 868
  swSync2 := 0
  btnSync2 := 0
  sdspiRxDataReg := 0xFF
  sdspiBusy := false
  sdspiDoneSticky := false
  jbDoneSticky := false
  jbValidSticky := false
  jbDataOut := 0
  jbTagOut := 0
  xdDoneSticky := false
  xdValidSticky := false
  xdDataOut := 0
  xdTagOut := 0
  gcAdReq := false
  gcMsgReq := false
  gcDoneSticky := false
  gcValidSticky := false
  gcDataOut := 0
  gcTagOut := 0

/-- The receiver holds a byte. -/
def Periph.uartRxValid (p : Periph) : Bool := p.uartDatDo != 0xFFFFFFFF

/-- The flag in STATUS: the timer of the last byte has run out. -/
def UartRegs.txReady (r : UartRegs) : Bool := !r.txBusy

/-! ## Reset and the single-cycle pulses -/

/-- The TinyJAMBU registers after reset; `seltype` is that of an encryption. -/
def JambuRegs.reset : JambuRegs := ⟨0, 0, 0, 0, 0, 0, 0, 0b001, false⟩

/-- The Xoodyak registers after reset. -/
def XoodyakRegs.reset : XoodyakRegs := ⟨0, 0, 0, 0, 0, 0, 0, 0, false⟩

/-- The GIFT-COFB registers after reset. -/
def CofbRegs.reset : CofbRegs := ⟨0, 0, 0, 0, 0, 0, 0, false, false, false, false⟩

/-- The SD registers after reset: chip select high, and a slow clock. -/
def SpiRegs.reset : SpiRegs := ⟨0xFF, 199, false, true⟩

/-- The UART registers after reset. -/
def UartRegs.reset (r : UartRegs) : UartRegs :=
  { r with we := false, rxRd := false, divWe := 0, divDi := 0, txBusy := false, txCountdown := 0 }

/-- `out_byte`, `uart_tx_data` and the memory keep what they hold. -/
def Regs.reset (r : Regs) : Regs :=
  { r with
    outByteEn := false
    uart := r.uart.reset
    spi := .reset
    jb := .reset
    xd := .reset
    gc := .reset }

/-- The UART TX busy countdown. -/
def UartRegs.count (r : UartRegs) : UartRegs :=
  { r with
    we := false
    rxRd := false
    divWe := 0
    divDi := 0
    txBusy := if r.txBusy && r.txCountdown == 0 then false else r.txBusy
    txCountdown :=
      if r.txBusy && r.txCountdown != 0 then r.txCountdown - 1 else r.txCountdown }

/-- The registers in a cycle without an access. -/
def Regs.idle (r : Regs) : Regs :=
  { r with
    outByteEn := false
    uart := r.uart.count
    spi := { r.spi with start := false }
    jb := { r.jb with ena := false }
    xd := { r.xd with ena := false }
    gc := { r.gc with start := false, adAck := false, msgAck := false } }

/-- The registers at power-on. -/
def Regs.initial : Regs where
  outByteEn := false
  outByte := 0
  uart := ⟨false, false, 0, 0, 0, false, 0⟩
  spi := .reset
  jb := .reset
  xd := .reset
  gc := .reset
  appMem := Vector.replicate appSize 0

/-- The registers after reset, with everything that reset leaves alone at zero. -/
def Bus.initial : Bus := ⟨false, some 0, some 0, false, .initial⟩

/-! ## Reads -/

/-- `addr[31:16] == 16'h0001` -/
def InApp (addr : BitVec 32) : Prop := addr.extractLsb' 16 16 = 0x0001

instance (addr : BitVec 32) : Decidable (InApp addr) :=
  inferInstanceAs (Decidable (addr.extractLsb' 16 16 = 0x0001))

/-- `(addr - 32'h0001_0000) >> 2` -/
def appIndex (addr : BitVec 32) : ℕ := ((addr - 0x00010000) >>> 2).toNat

/-- The default read: boot memory, application memory, or zero. -/
def bramRead (boot : Ram bootSize) (app : Ram appSize) (addr : BitVec 32) : Option (BitVec 32) :=
  if addr < 0x00010000 then boot.read (addr >>> 2).toNat
  else if InApp addr then app.read (appIndex addr)
  else some 0

/-- `case (mem_la_addr)` of the reads of `gen_fast_mem`. -/
def fastReads (p : Periph) (r : Regs) : List (BitVec 32 × BitVec 32) :=
  [(0x10000008, p.uartDatDo),
    (0x1000000C, 0#30 ++ BitVec.ofBool p.uartRxValid ++ BitVec.ofBool r.uart.txReady),
    (0x10000010, p.uartDivDo),
    (0x20000000, 0#28 ++ p.swSync2),
    (0x20000004, 0#28 ++ p.btnSync2),
    -- SD SPI
    (0x60000000, 0#24 ++ p.sdspiRxDataReg),
    (0x60000004, 0#29 ++ BitVec.ofBool r.spi.csN ++ BitVec.ofBool p.sdspiBusy ++
      BitVec.ofBool p.sdspiDoneSticky),
    (0x60000008, 0#31 ++ BitVec.ofBool r.spi.csN),
    (0x6000000C, 0#16 ++ r.spi.clkdiv),
    -- TinyJAMBU
    (0x30000048, 0#30 ++ BitVec.ofBool p.jbDoneSticky ++ BitVec.ofBool p.jbValidSticky),
    (0x3000004C, p.jbDataOut.extractLsb' 0 32),
    (0x30000050, p.jbDataOut.extractLsb' 32 32),
    (0x30000054, p.jbDataOut.extractLsb' 64 32),
    (0x30000058, p.jbDataOut.extractLsb' 96 32),
    (0x3000005C, p.jbTagOut.extractLsb' 0 32),
    (0x30000060, p.jbTagOut.extractLsb' 32 32),
    -- Xoodyak
    (0x40000054, 0#30 ++ BitVec.ofBool p.xdDoneSticky ++ BitVec.ofBool p.xdValidSticky),
    (0x40000058, p.xdDataOut.extractLsb' 0 32),
    (0x4000005C, p.xdDataOut.extractLsb' 32 32),
    (0x40000060, p.xdDataOut.extractLsb' 64 32),
    (0x40000064, p.xdDataOut.extractLsb' 96 32),
    (0x40000068, p.xdTagOut.extractLsb' 0 32),
    (0x4000006C, p.xdTagOut.extractLsb' 32 32),
    (0x40000070, p.xdTagOut.extractLsb' 64 32),
    (0x40000074, p.xdTagOut.extractLsb' 96 32),
    -- GIFT-COFB
    (0x50000054, 0#28 ++ BitVec.ofBool p.gcAdReq ++ BitVec.ofBool p.gcMsgReq ++
      BitVec.ofBool p.gcDoneSticky ++ BitVec.ofBool p.gcValidSticky),
    (0x50000058, p.gcDataOut.extractLsb' 0 32),
    (0x5000005C, p.gcDataOut.extractLsb' 32 32),
    (0x50000060, p.gcDataOut.extractLsb' 64 32),
    (0x50000064, p.gcDataOut.extractLsb' 96 32),
    (0x50000068, p.gcTagOut.extractLsb' 0 32),
    (0x5000006C, p.gcTagOut.extractLsb' 32 32),
    (0x50000070, p.gcTagOut.extractLsb' 64 32),
    (0x50000074, p.gcTagOut.extractLsb' 96 32)]

/-- The peripheral reads of `gen_slow_mem`, in their order. -/
def slowReads (p : Periph) (r : Regs) : List (BitVec 32 × BitVec 32) :=
  [(0x10000008, p.uartDatDo),
    (0x1000000C, 0#30 ++ BitVec.ofBool p.uartRxValid ++ BitVec.ofBool r.uart.txReady),
    (0x10000010, p.uartDivDo),
    (0x20000000, 0#28 ++ p.swSync2),
    (0x20000004, 0#28 ++ p.btnSync2),
    -- SD SPI
    (0x60000000, 0#24 ++ p.sdspiRxDataReg),
    (0x60000004, 0#29 ++ BitVec.ofBool r.spi.csN ++ BitVec.ofBool p.sdspiBusy ++
      BitVec.ofBool p.sdspiDoneSticky),
    (0x60000008, 0#31 ++ BitVec.ofBool r.spi.csN),
    (0x6000000C, 0#16 ++ r.spi.clkdiv),
    -- TinyJAMBU
    (0x30000048, 0#30 ++ BitVec.ofBool p.jbDoneSticky ++ BitVec.ofBool p.jbValidSticky),
    (0x3000004C, p.jbDataOut.extractLsb' 0 32),
    (0x30000050, p.jbDataOut.extractLsb' 32 32),
    (0x30000054, p.jbDataOut.extractLsb' 64 32),
    (0x30000058, p.jbDataOut.extractLsb' 96 32),
    (0x3000005C, p.jbTagOut.extractLsb' 0 32),
    (0x30000060, p.jbTagOut.extractLsb' 32 32),
    -- Xoodyak
    (0x40000054, 0#30 ++ BitVec.ofBool p.xdDoneSticky ++ BitVec.ofBool p.xdValidSticky),
    (0x40000058, p.xdDataOut.extractLsb' 0 32),
    (0x4000005C, p.xdDataOut.extractLsb' 32 32),
    (0x40000060, p.xdDataOut.extractLsb' 64 32),
    (0x40000064, p.xdDataOut.extractLsb' 96 32),
    (0x40000068, p.xdTagOut.extractLsb' 0 32),
    (0x4000006C, p.xdTagOut.extractLsb' 32 32),
    (0x40000070, p.xdTagOut.extractLsb' 64 32),
    (0x40000074, p.xdTagOut.extractLsb' 96 32),
    -- GIFT-COFB
    (0x50000054, 0#28 ++ BitVec.ofBool p.gcAdReq ++ BitVec.ofBool p.gcMsgReq ++
      BitVec.ofBool p.gcDoneSticky ++ BitVec.ofBool p.gcValidSticky),
    (0x50000058, p.gcDataOut.extractLsb' 0 32),
    (0x5000005C, p.gcDataOut.extractLsb' 32 32),
    (0x50000060, p.gcDataOut.extractLsb' 64 32),
    (0x50000064, p.gcDataOut.extractLsb' 96 32),
    (0x50000068, p.gcTagOut.extractLsb' 0 32),
    (0x5000006C, p.gcTagOut.extractLsb' 32 32),
    (0x50000070, p.gcTagOut.extractLsb' 64 32),
    (0x50000074, p.gcTagOut.extractLsb' 96 32)]

/-! ## Writes -/

/-- The byte writes to `app_mem`. -/
def Regs.writeApp (addr data : BitVec 32) (strb : BitVec 4) (r : Regs) : Regs :=
  { r with appMem := r.appMem.write ⟨appIndex addr, strb, data⟩ }

/-- CTRL of TinyJAMBU: mode, both lengths, and the start. -/
def JambuRegs.ctrl (d : BitVec 32) (r : JambuRegs) : JambuRegs :=
  { r with
    selType := d.extractLsb' 16 3
    adLength := d.extractLsb' 8 5
    dataLength := d.extractLsb' 0 5
    ena := true }

/-- CTRL of Xoodyak: mode, both lengths, and the start. -/
def XoodyakRegs.ctrl (d : BitVec 32) (r : XoodyakRegs) : XoodyakRegs :=
  { r with
    selType := d.extractLsb' 16 3
    adLength := d.extractLsb' 8 5
    dataLength := d.extractLsb' 0 5
    ena := true }

/-- CTRL of GIFT-COFB: direction, both lengths, and the start. -/
def CofbRegs.ctrl (d : BitVec 32) (r : CofbRegs) : CofbRegs :=
  { r with
    decryptMode := d.getLsbD 16
    adLength := d.extractLsb' 8 8
    dataLength := d.extractLsb' 0 8
    start := true }

/-- ACK of GIFT-COFB: the two acknowledges. -/
def CofbRegs.ack (d : BitVec 32) (r : CofbRegs) : CofbRegs :=
  { r with adAck := d.getLsbD 1, msgAck := d.getLsbD 0 }

/-- Word `j` of the key. -/
def JambuRegs.putKey (j : ℕ) (d : BitVec 32) (r : JambuRegs) : JambuRegs :=
  { r with key := putWord j d r.key }

/-- Word `j` of the nonce. -/
def JambuRegs.putNonce (j : ℕ) (d : BitVec 32) (r : JambuRegs) : JambuRegs :=
  { r with nonce := putWord j d r.nonce }

/-- Word `j` of the associated data. -/
def JambuRegs.putAd (j : ℕ) (d : BitVec 32) (r : JambuRegs) : JambuRegs :=
  { r with ad := putWord j d r.ad }

/-- Word `j` of the message. -/
def JambuRegs.putDataIn (j : ℕ) (d : BitVec 32) (r : JambuRegs) : JambuRegs :=
  { r with dataIn := putWord j d r.dataIn }

/-- Word `j` of the tag to compare with. -/
def JambuRegs.putTagIn (j : ℕ) (d : BitVec 32) (r : JambuRegs) : JambuRegs :=
  { r with tagIn := putWord j d r.tagIn }

/-- Word `j` of the key. -/
def XoodyakRegs.putKey (j : ℕ) (d : BitVec 32) (r : XoodyakRegs) : XoodyakRegs :=
  { r with key := putWord j d r.key }

/-- Word `j` of the nonce. -/
def XoodyakRegs.putNonce (j : ℕ) (d : BitVec 32) (r : XoodyakRegs) : XoodyakRegs :=
  { r with nonce := putWord j d r.nonce }

/-- Word `j` of the associated data. -/
def XoodyakRegs.putAd (j : ℕ) (d : BitVec 32) (r : XoodyakRegs) : XoodyakRegs :=
  { r with ad := putWord j d r.ad }

/-- Word `j` of the message. -/
def XoodyakRegs.putDataIn (j : ℕ) (d : BitVec 32) (r : XoodyakRegs) : XoodyakRegs :=
  { r with dataIn := putWord j d r.dataIn }

/-- Word `j` of the tag to compare with. -/
def XoodyakRegs.putTagIn (j : ℕ) (d : BitVec 32) (r : XoodyakRegs) : XoodyakRegs :=
  { r with tagIn := putWord j d r.tagIn }

/-- Word `j` of the key. -/
def CofbRegs.putKey (j : ℕ) (d : BitVec 32) (r : CofbRegs) : CofbRegs :=
  { r with key := putWord j d r.key }

/-- Word `j` of the nonce. -/
def CofbRegs.putNonce (j : ℕ) (d : BitVec 32) (r : CofbRegs) : CofbRegs :=
  { r with nonce := putWord j d r.nonce }

/-- Word `j` of the block of associated data. -/
def CofbRegs.putAd (j : ℕ) (d : BitVec 32) (r : CofbRegs) : CofbRegs :=
  { r with ad := putWord j d r.ad }

/-- Word `j` of the message block. -/
def CofbRegs.putDataIn (j : ℕ) (d : BitVec 32) (r : CofbRegs) : CofbRegs :=
  { r with dataIn := putWord j d r.dataIn }

/-- Word `j` of the tag to compare with. -/
def CofbRegs.putTagIn (j : ℕ) (d : BitVec 32) (r : CofbRegs) : CofbRegs :=
  { r with tagIn := putWord j d r.tagIn }

/-- TinyJAMBU, by address. -/
def fastJambuWrites : List (BitVec 32 × (BitVec 32 → JambuRegs → JambuRegs)) :=
  [(0x30000000, JambuRegs.putKey 0),
    (0x30000004, JambuRegs.putKey 1),
    (0x30000008, JambuRegs.putKey 2),
    (0x3000000C, JambuRegs.putKey 3),
    (0x30000010, JambuRegs.putNonce 0),
    (0x30000014, JambuRegs.putNonce 1),
    (0x30000018, JambuRegs.putNonce 2),
    (0x3000001C, JambuRegs.putAd 0),
    (0x30000020, JambuRegs.putAd 1),
    (0x30000024, JambuRegs.putAd 2),
    (0x30000028, JambuRegs.putAd 3),
    (0x3000002C, JambuRegs.putDataIn 0),
    (0x30000030, JambuRegs.putDataIn 1),
    (0x30000034, JambuRegs.putDataIn 2),
    (0x30000038, JambuRegs.putDataIn 3),
    (0x3000003C, JambuRegs.putTagIn 0),
    (0x30000040, JambuRegs.putTagIn 1),
    (0x30000044, JambuRegs.ctrl)]

/-- Xoodyak, by address. -/
def fastXoodyakWrites : List (BitVec 32 × (BitVec 32 → XoodyakRegs → XoodyakRegs)) :=
  [(0x40000000, XoodyakRegs.putKey 0),
    (0x40000004, XoodyakRegs.putKey 1),
    (0x40000008, XoodyakRegs.putKey 2),
    (0x4000000C, XoodyakRegs.putKey 3),
    (0x40000010, XoodyakRegs.putNonce 0),
    (0x40000014, XoodyakRegs.putNonce 1),
    (0x40000018, XoodyakRegs.putNonce 2),
    (0x4000001C, XoodyakRegs.putNonce 3),
    (0x40000020, XoodyakRegs.putAd 0),
    (0x40000024, XoodyakRegs.putAd 1),
    (0x40000028, XoodyakRegs.putAd 2),
    (0x4000002C, XoodyakRegs.putAd 3),
    (0x40000030, XoodyakRegs.putDataIn 0),
    (0x40000034, XoodyakRegs.putDataIn 1),
    (0x40000038, XoodyakRegs.putDataIn 2),
    (0x4000003C, XoodyakRegs.putDataIn 3),
    (0x40000040, XoodyakRegs.putTagIn 0),
    (0x40000044, XoodyakRegs.putTagIn 1),
    (0x40000048, XoodyakRegs.putTagIn 2),
    (0x4000004C, XoodyakRegs.putTagIn 3),
    (0x40000050, XoodyakRegs.ctrl)]

/-- GIFT-COFB, by address. -/
def fastCofbWrites : List (BitVec 32 × (BitVec 32 → CofbRegs → CofbRegs)) :=
  [(0x50000000, CofbRegs.putKey 0),
    (0x50000004, CofbRegs.putKey 1),
    (0x50000008, CofbRegs.putKey 2),
    (0x5000000C, CofbRegs.putKey 3),
    (0x50000010, CofbRegs.putNonce 0),
    (0x50000014, CofbRegs.putNonce 1),
    (0x50000018, CofbRegs.putNonce 2),
    (0x5000001C, CofbRegs.putNonce 3),
    (0x50000020, CofbRegs.putAd 0),
    (0x50000024, CofbRegs.putAd 1),
    (0x50000028, CofbRegs.putAd 2),
    (0x5000002C, CofbRegs.putAd 3),
    (0x50000030, CofbRegs.putDataIn 0),
    (0x50000034, CofbRegs.putDataIn 1),
    (0x50000038, CofbRegs.putDataIn 2),
    (0x5000003C, CofbRegs.putDataIn 3),
    (0x50000040, CofbRegs.putTagIn 0),
    (0x50000044, CofbRegs.putTagIn 1),
    (0x50000048, CofbRegs.putTagIn 2),
    (0x5000004C, CofbRegs.putTagIn 3),
    (0x50000050, CofbRegs.ctrl),
    (0x50000078, CofbRegs.ack)]

/-- `case (mem_addr[7:0])` of the TinyJAMBU page. -/
def slowJambuWrites : List (BitVec 8 × (BitVec 32 → JambuRegs → JambuRegs)) :=
  [(0x00, JambuRegs.putKey 0),
    (0x04, JambuRegs.putKey 1),
    (0x08, JambuRegs.putKey 2),
    (0x0C, JambuRegs.putKey 3),
    (0x10, JambuRegs.putNonce 0),
    (0x14, JambuRegs.putNonce 1),
    (0x18, JambuRegs.putNonce 2),
    (0x1C, JambuRegs.putAd 0),
    (0x20, JambuRegs.putAd 1),
    (0x24, JambuRegs.putAd 2),
    (0x28, JambuRegs.putAd 3),
    (0x2C, JambuRegs.putDataIn 0),
    (0x30, JambuRegs.putDataIn 1),
    (0x34, JambuRegs.putDataIn 2),
    (0x38, JambuRegs.putDataIn 3),
    (0x3C, JambuRegs.putTagIn 0),
    (0x40, JambuRegs.putTagIn 1),
    (0x44, JambuRegs.ctrl)]

/-- `case (mem_addr[7:0])` of the Xoodyak page. -/
def slowXoodyakWrites : List (BitVec 8 × (BitVec 32 → XoodyakRegs → XoodyakRegs)) :=
  [(0x00, XoodyakRegs.putKey 0),
    (0x04, XoodyakRegs.putKey 1),
    (0x08, XoodyakRegs.putKey 2),
    (0x0C, XoodyakRegs.putKey 3),
    (0x10, XoodyakRegs.putNonce 0),
    (0x14, XoodyakRegs.putNonce 1),
    (0x18, XoodyakRegs.putNonce 2),
    (0x1C, XoodyakRegs.putNonce 3),
    (0x20, XoodyakRegs.putAd 0),
    (0x24, XoodyakRegs.putAd 1),
    (0x28, XoodyakRegs.putAd 2),
    (0x2C, XoodyakRegs.putAd 3),
    (0x30, XoodyakRegs.putDataIn 0),
    (0x34, XoodyakRegs.putDataIn 1),
    (0x38, XoodyakRegs.putDataIn 2),
    (0x3C, XoodyakRegs.putDataIn 3),
    (0x40, XoodyakRegs.putTagIn 0),
    (0x44, XoodyakRegs.putTagIn 1),
    (0x48, XoodyakRegs.putTagIn 2),
    (0x4C, XoodyakRegs.putTagIn 3),
    (0x50, XoodyakRegs.ctrl)]

/-- `case (mem_addr[7:0])` of the GIFT-COFB page. -/
def slowCofbWrites : List (BitVec 8 × (BitVec 32 → CofbRegs → CofbRegs)) :=
  [(0x00, CofbRegs.putKey 0),
    (0x04, CofbRegs.putKey 1),
    (0x08, CofbRegs.putKey 2),
    (0x0C, CofbRegs.putKey 3),
    (0x10, CofbRegs.putNonce 0),
    (0x14, CofbRegs.putNonce 1),
    (0x18, CofbRegs.putNonce 2),
    (0x1C, CofbRegs.putNonce 3),
    (0x20, CofbRegs.putAd 0),
    (0x24, CofbRegs.putAd 1),
    (0x28, CofbRegs.putAd 2),
    (0x2C, CofbRegs.putAd 3),
    (0x30, CofbRegs.putDataIn 0),
    (0x34, CofbRegs.putDataIn 1),
    (0x38, CofbRegs.putDataIn 2),
    (0x3C, CofbRegs.putDataIn 3),
    (0x40, CofbRegs.putTagIn 0),
    (0x44, CofbRegs.putTagIn 1),
    (0x48, CofbRegs.putTagIn 2),
    (0x4C, CofbRegs.putTagIn 3),
    (0x50, CofbRegs.ctrl),
    (0x78, CofbRegs.ack)]

/-- Hand a byte to the transmitter and start the timer. -/
def UartRegs.transmit (timer : BitVec 16) (d : BitVec 32) (r : UartRegs) : UartRegs :=
  { r with txData := d.extractLsb' 0 8, we := true, txBusy := true, txCountdown := timer }

/-- A byte for the UART (guard: not re-entrant while busy). -/
def uartTxWrite (timer : BitVec 16) (old : Regs) (d : BitVec 32) (r : Regs) : Regs :=
  if old.uart.txBusy then r else { r with uart := r.uart.transmit timer d }

/-- What the entry of a table under `a` does, if there is one. -/
def onLabel {w : ℕ} {α : Type} (table : List (BitVec w × (BitVec 32 → α → α))) (a : BitVec w)
    (d : BitVec 32) (x : α) : α :=
  match table.lookup a with
  | some f => f d x
  | none => x

/-- LED, UART and SD SPI; `old` has the registers before the edge. -/
def fastIoWrites (p : Periph) (old : Regs) (strb : BitVec 4) :
    List (BitVec 32 × (BitVec 32 → Regs → Regs)) :=
  [(0x10000000, fun d r => { r with outByteEn := true, outByte := d.extractLsb' 0 8 }),
    (0x10000004, uartTxWrite 9000 old),
    (0x10000010, fun d r => { r with uart := { r.uart with divWe := strb, divDi := d } }),
    (0x60000000, fun d r =>
      if p.sdspiBusy then r
      else { r with spi := { r.spi with txData := d.extractLsb' 0 8, start := true } }),
    (0x60000008, fun d r => { r with spi := { r.spi with csN := d.getLsbD 0 } }),
    (0x6000000C, fun d r => { r with spi := { r.spi with clkdiv := d.extractLsb' 0 16 } })]

/-- As `fastIoWrites`, with the longer UART timer. -/
def slowIoWrites (p : Periph) (old : Regs) (strb : BitVec 4) :
    List (BitVec 32 × (BitVec 32 → Regs → Regs)) :=
  [(0x10000000, fun d r => { r with outByteEn := true, outByte := d.extractLsb' 0 8 }),
    (0x10000004, uartTxWrite 10500 old),
    (0x10000010, fun d r => { r with uart := { r.uart with divWe := strb, divDi := d } }),
    (0x60000000, fun d r =>
      if p.sdspiBusy then r
      else { r with spi := { r.spi with txData := d.extractLsb' 0 8, start := true } }),
    (0x60000008, fun d r => { r with spi := { r.spi with csN := d.getLsbD 0 } }),
    (0x6000000C, fun d r => { r with spi := { r.spi with clkdiv := d.extractLsb' 0 16 } })]

/-! ## `gen_fast_mem` -/

/-- Address, data and strobes of an access: `mem_addr`, `mem_wdata`, `mem_wstrb`. -/
structure Access where
  addr : BitVec 32
  wdata : BitVec 32
  wstrb : BitVec 4

/-- The look-ahead signals of the CPU. -/
structure LookAhead extends Access where
  laRead : Bool
  laWrite : Bool

/-- An access of the CPU in this cycle. -/
def LookAhead.access (la : LookAhead) : Bool := la.laRead || la.laWrite

/-- A write to `addr` in this cycle. -/
def LookAhead.writes (la : LookAhead) (addr : BitVec 32) : Prop := la.laWrite = true ∧ la.addr = addr

/-- A read from `addr` in this cycle. -/
def LookAhead.reads (la : LookAhead) (addr : BitVec 32) : Prop := la.laRead = true ∧ la.addr = addr

/-- The registers after a look-ahead write. -/
def fastWrite (p : Periph) (old : Regs) (a : Access) (r : Regs) : Regs :=
  if InApp a.addr then r.writeApp a.addr a.wdata a.wstrb
  else
    let r := onLabel (fastIoWrites p old a.wstrb) a.addr a.wdata r
    { r with
      jb := onLabel fastJambuWrites a.addr a.wdata r.jb
      xd := onLabel fastXoodyakWrites a.addr a.wdata r.xd
      gc := onLabel fastCofbWrites a.addr a.wdata r.gc }

/-- The receive register has been read. -/
def Regs.rxRead (r : Regs) : Regs := { r with uart := { r.uart with rxRd := true } }

/-- The clock edge of `gen_fast_mem`: `mem_ready` is always high. -/
def Bus.fastStep (boot : Ram bootSize) (resetn : Bool) (p : Periph) (la : LookAhead) (s : Bus) :
    Bus :=
  if resetn then
    let r := s.regs.idle
    let r := if la.laRead && la.addr == 0x10000008 then r.rxRead else r
    { s with
      memReady := true
      -- a peripheral read overrides the default one
      memRdata :=
        (if la.laRead then (fastReads p s.regs).lookup la.addr else none).or
          (bramRead boot s.regs.appMem la.addr)
      regs := if la.laWrite then fastWrite p s.regs la.toAccess r else r }
  else { s with memReady := false, regs := s.regs.reset }

/-! ## `gen_slow_mem` -/

/-- `mem_addr[31:8]` and `mem_addr[7:0]` -/
def page (addr : BitVec 32) : BitVec 24 := addr.extractLsb' 8 24

/-- The register within a page. -/
def offset (addr : BitVec 32) : BitVec 8 := addr.extractLsb' 0 8

/-- The page of TinyJAMBU. -/
def jambuPage : BitVec 24 := 0x300000

/-- The page of Xoodyak. -/
def xoodyakPage : BitVec 24 := 0x400000

/-- The page of GIFT-COFB. -/
def cofbPage : BitVec 24 := 0x500000

/-- The registers with those of TinyJAMBU replaced. -/
def Regs.withJambu (r : Regs) (jb : JambuRegs) : Regs := { r with jb := jb }

/-- The registers with those of Xoodyak replaced. -/
def Regs.withXoodyak (r : Regs) (xd : XoodyakRegs) : Regs := { r with xd := xd }

/-- The registers with those of GIFT-COFB replaced. -/
def Regs.withCofb (r : Regs) (gc : CofbRegs) : Regs := { r with gc := gc }

/-- The registers and `mem_ready` after the edge, without the `case` below. -/
def Bus.slowIdle (boot : Ram bootSize) (resetn valid : Bool) (m : Access) (s : Bus) : Bus :=
  if resetn then
    { memReady := valid && !s.memReady && s.mReadEn
      memRdata := s.mReadData
      mReadData := bramRead boot s.regs.appMem m.addr
      mReadEn := false
      regs := s.regs.idle }
  else { s with mReadEn := false, memReady := false, regs := s.regs.reset }

/-- The access is answered, with registers `r`. -/
def Bus.acknowledge (s : Bus) (r : Regs) : Bus := { s with memReady := true, regs := r }

/-- The answer to a read is `d`. -/
def Bus.answer (s : Bus) (d : BitVec 32) : Bus := { s with memRdata := some d }

/-- `case (1)`: the first condition that holds. -/
def Bus.slowStep (boot : Ram bootSize) (resetn : Bool) (p : Periph) (valid : Bool) (m : Access)
    (s : Bus) : Bus :=
  let t := s.slowIdle boot resetn valid m
  if valid && !s.memReady then
    if m.wstrb = 0 then
      if m.addr < 0x00020000 then { t with mReadEn := true }
      else
        match (slowReads p s.regs).lookup m.addr with
        | some d =>
            (t.acknowledge (if m.addr = 0x10000008 then t.regs.rxRead else t.regs)).answer d
        | none => t
    else if InApp m.addr then
      t.acknowledge (t.regs.writeApp m.addr m.wdata m.wstrb)
    else
      match (slowIoWrites p s.regs m.wstrb).lookup m.addr with
      | some f => t.acknowledge (f m.wdata t.regs)
      | none =>
          if page m.addr = jambuPage then
            t.acknowledge (t.regs.withJambu (onLabel slowJambuWrites (offset m.addr) m.wdata t.regs.jb))
          else if page m.addr = xoodyakPage then
            t.acknowledge (t.regs.withXoodyak (onLabel slowXoodyakWrites (offset m.addr) m.wdata t.regs.xd))
          else if page m.addr = cofbPage then
            t.acknowledge (t.regs.withCofb (onLabel slowCofbWrites (offset m.addr) m.wdata t.regs.gc))
          else t
  else t

/-! ## Tables -/

theorem lookup_eq_none_iff {w : ℕ} {α : Type} {table : List (BitVec w × α)} {a : BitVec w} :
    table.lookup a = none ↔ a ∉ table.map Prod.fst := by
  rw [List.lookup_eq_none_iff]
  constructor
  · intro h ha
    obtain ⟨e, he, rfl⟩ := List.mem_map.1 ha
    simpa using h e he
  · intro h e he
    have hne : a ≠ e.1 := by
      rintro rfl
      exact h (List.mem_map_of_mem he)
    simpa using hne

theorem onLabel_of_some {w : ℕ} {α : Type} {table : List (BitVec w × (BitVec 32 → α → α))}
    {a : BitVec w} {f : BitVec 32 → α → α} (h : table.lookup a = some f) (d : BitVec 32) (x : α) :
    onLabel table a d x = f d x := by
  rw [onLabel, h]

theorem onLabel_of_none {w : ℕ} {α : Type} {table : List (BitVec w × (BitVec 32 → α → α))}
    {a : BitVec w} (h : table.lookup a = none) (d : BitVec 32) (x : α) :
    onLabel table a d x = x := by
  rw [onLabel, h]

/-- What every entry of a table preserves is preserved. -/
theorem onLabel_preserves {w : ℕ} {α β : Type} {table : List (BitVec w × (BitVec 32 → α → α))}
    (g : α → β) (x : α) (d : BitVec 32) (h : ∀ e ∈ table, g (e.2 d x) = g x) (a : BitVec w) :
    g (onLabel table a d x) = g x := by
  unfold onLabel
  induction table with
  | nil => rfl
  | cons e table ih =>
      rw [List.lookup_cons]
      cases a == e.1 with
      | true => exact h e (List.mem_cons_self ..)
      | false => exact ih fun e' he' => h e' (List.mem_cons_of_mem _ he')

/-- The addresses of the peripheral reads. -/
def readLabels : List (BitVec 32) :=
  [0x10000008, 0x1000000C, 0x10000010, 0x20000000, 0x20000004, 0x60000000, 0x60000004,
    0x60000008, 0x6000000C, 0x30000048, 0x3000004C, 0x30000050, 0x30000054, 0x30000058,
    0x3000005C, 0x30000060, 0x40000054, 0x40000058, 0x4000005C, 0x40000060, 0x40000064,
    0x40000068, 0x4000006C, 0x40000070, 0x40000074, 0x50000054, 0x50000058, 0x5000005C,
    0x50000060, 0x50000064, 0x50000068, 0x5000006C, 0x50000070, 0x50000074]

theorem fastReads_labels (p : Periph) (r : Regs) : (fastReads p r).map Prod.fst = readLabels := rfl

end PicoSoc.System
