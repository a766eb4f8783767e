import Mathlib.Tactic

set_option autoImplicit false

/-! # The SPI flash (`spiflash.v`)

The flash on one data line (`mode_spi`) with the commands `FF`, `AB`, `B9` and `03`. The commands on
two and four lines are left out, and with them `xip_cmd`, which only they set; the counters, 32-bit
integers in the source, do not overflow here. -/

namespace PicoSoc.System

structure SpiFlash where
  buffer : BitVec 8
  bitcount : ℕ
  bytecount : ℕ
  spiCmd : BitVec 8
  spiAddr : BitVec 24
  poweredUp : Bool
  deriving Inhabited

namespace SpiFlash

variable (memory : BitVec 24 → BitVec 8)

/-- `spi_action`, after a byte. -/
def spiAction (f : SpiFlash) : SpiFlash :=
  let f :=
    if f.bytecount = 1 then
      let f := { f with spiCmd := f.buffer }
      if f.spiCmd = 0xAB then { f with poweredUp := true }
      else if f.spiCmd = 0xB9 then { f with poweredUp := false }
      else f
    else f
  if f.poweredUp ∧ f.spiCmd = 0x03 then
    let f :=
      if f.bytecount = 2 then { f with spiAddr := f.buffer ++ f.spiAddr.extractLsb' 0 16 }
      else if f.bytecount = 3 then
        { f with spiAddr := f.spiAddr.extractLsb' 16 8 ++ f.buffer ++ f.spiAddr.extractLsb' 0 8 }
      else if f.bytecount = 4 then { f with spiAddr := f.spiAddr.extractLsb' 8 16 ++ f.buffer }
      else f
    if 4 ≤ f.bytecount then
      { f with buffer := memory f.spiAddr, spiAddr := f.spiAddr + 1 }
    else f
  else f

/-- `csb` is high. -/
def deselect (f : SpiFlash) : SpiFlash := { f with buffer := 0, bitcount := 0, bytecount := 0 }

/-- A rising edge of `clk` with `csb` low. -/
def posedge (io0 : Bool) (f : SpiFlash) : SpiFlash :=
  let f := { f with
    buffer := f.buffer.extractLsb' 0 7 ++ BitVec.ofBool io0
    bitcount := f.bitcount + 1 }
  if f.bitcount = 8 then
    spiAction memory { f with bitcount := 0, bytecount := f.bytecount + 1 }
  else f

/-- `io1` while `csb` and `clk` are low. -/
def io1 (f : SpiFlash) : Bool := f.buffer.getLsbD 7

end SpiFlash

end PicoSoc.System
