import PicoSoc.Boot.Bootloader

set_option autoImplicit false

/-! # The SD card driver (`bootloader.c`)

The card is the stream of the bytes that it returns, one for each SPI transfer. Everything the driver
does to it is a transfer, a change of the chip select or a change of the clock. -/

namespace PicoSoc.Boot

open Bytes

/-- The machine, `g_sdhc`, and what the SPI master has seen. -/
structure Driver where
  machine : Machine
  gSdhc : Bool
  /-- the transfers so far -/
  count : ℕ
  /-- their bytes, with the level of `sdspi_cs_n` -/
  sent : List (Bool × Byte)
  csN : Bool
  clkdiv : BitVec 16

/-- `uart_puts(s)` -/
def Driver.puts (s : String) (d : Driver) : Driver := { d with machine := uartPuts s d.machine }

/-- `uart_puth(v)` -/
def Driver.puth (v : Byte) (d : Driver) : Driver := { d with machine := uartPuth v d.machine }

/-! ## Transfers -/

variable (miso : ℕ → Byte)

/-- `spi_xfer(tx)`: the next byte of the card for the byte sent. -/
def spiXfer (tx : Byte) (d : Driver) : Byte × Driver :=
  (miso d.count, { d with count := d.count + 1, sent := d.sent ++ [(d.csN, tx)] })

/-- `sd_dummy()` -/
def sdDummy (d : Driver) : Byte × Driver := spiXfer miso 0xFF d

/-- `cs_lo()` -/
def csLo (d : Driver) : Driver := { d with csN := false }

/-- `cs_hi()` -/
def csHi (d : Driver) : Driver := { d with csN := true }

/-- `sd_end()`: a byte, then chip select high. -/
def sdEnd (d : Driver) : Driver := csHi (sdDummy miso d).2

/-- Transfers of `0xFF` whose answers are dropped. -/
def sdDummies : ℕ → Driver → Driver
  | 0, d => d
  | n + 1, d => sdDummies n (sdDummy miso d).2

/-! ## Commands -/

/-- `for (n = 1000; n; n--)` -/
def waitR1 : ℕ → Driver → Byte × Driver
  | 0, d => (0xFF, d.puts "  [WARN] sd_cmd timeout\r\n")
  | n + 1, d =>
      let r := sdDummy miso d
      if r.1 &&& 0x80 = 0 then r else waitR1 n r.2

/-- `sd_cmd(cmd, arg, crc)`: the six bytes of a command, and the poll for its response. -/
def sdCmd (cmd : Byte) (arg : BitVec 32) (crc : Byte) (d : Driver) : Byte × Driver :=
  let d := (sdDummy miso (csLo d)).2
  let d := (spiXfer miso cmd d).2
  let d := (spiXfer miso ((arg >>> 24 &&& 0xFF).setWidth 8) d).2
  let d := (spiXfer miso ((arg >>> 16 &&& 0xFF).setWidth 8) d).2
  let d := (spiXfer miso ((arg >>> 8 &&& 0xFF).setWidth 8) d).2
  let d := (spiXfer miso ((arg &&& 0xFF).setWidth 8) d).2
  let d := (spiXfer miso crc d).2
  waitR1 miso 1000 d

/-! ## `sd_read_sector` -/

/-- `do … while (r != 0xFE)`; false after the last transfer that the timeout allows. -/
def waitToken : ℕ → Driver → Bool × Driver
  | 0, d => (false, d)
  | timeout + 1, d =>
      let r := spiXfer miso 0xFF d
      if timeout = 0 then (false, r.2)
      else if r.1 = 0xFE then (true, r.2)
      else waitToken timeout r.2

/-- `for (int i = 0; i < 512; i++) buf[i] = spi_xfer(0xFF);`, up to `i = n`. -/
def readBytes (buf : Addr) : ℕ → Driver → Driver
  | 0, d => d
  | n + 1, d =>
      let d := readBytes buf n d
      let r := spiXfer miso 0xFF d
      { r.2 with
        machine := r.2.machine.withMem (r.2.machine.mem.store (buf + BitVec.ofNat 32 n) r.1) }

/-- `sd_read_sector(sector, buf)` -/
def readSector (sector : BitVec 32) (buf : Addr) (d : Driver) : Int × Driver :=
  let arg := if d.gSdhc then sector else sector * 512
  let r := sdCmd miso 0x51 arg 0x01 d
  if r.1 ≠ 0x00 then (-1, (sdDummy miso (csHi r.2)).2)
  else
    let t := waitToken miso 100000 r.2
    if t.1 then
      let d := readBytes miso buf 512 t.2
      let d := (spiXfer miso 0xFF (spiXfer miso 0xFF d).2).2
      (0, (sdDummy miso (csHi d)).2)
    else (-2, (sdDummy miso (csHi t.2)).2)

/-! ## `sd_init` -/

/-- `sd_poweron()`: twenty bytes with chip select high. -/
def sdPoweron (d : Driver) : Driver := sdDummies miso 20 (csHi { d with clkdiv := 199 })

/-- `uart_puts("FAIL R1=0x"); uart_puth(r); uart_puts("\r\n");` -/
def Driver.failR1 (r : Byte) (d : Driver) : Driver := ((d.puts "FAIL R1=0x").puth r).puts "\r\n"

/-- CMD0 of `sd_init`: the card goes to the idle state. -/
def sdCmd0 (d : Driver) : Int × Driver :=
  let r := sdCmd miso 0x40 0 0x95 (d.puts "  CMD0  ... ")
  let d := sdEnd miso r.2
  if r.1 ≠ 0x01 then (-1, d.failR1 r.1) else (0, d.puts "OK\r\n")

/-- CMD8 of `sd_init`: voltage and check pattern. -/
def sdCmd8 (d : Driver) : Int × Driver :=
  let r := sdCmd miso 0x48 0x000001AA 0x87 (d.puts "  CMD8  ... ")
  if r.1 ≠ 0x01 then (-1, (sdEnd miso r.2).failR1 r.1)
  else
    let volt := sdDummy miso (sdDummies miso 2 r.2)
    let echo := sdDummy miso volt.2
    let d := sdEnd miso echo.2
    if volt.1 &&& 0xF ≠ 0x1 ∨ echo.1 ≠ 0xAA then (-1, d.puts "FAIL\r\n") else (0, d.puts "OK\r\n")

/-- One pass of the loop of `sd_acmd41`, with the answer it looks at. -/
def acmd41Pass (d : Driver) : Byte × Driver :=
  let d := sdEnd miso (sdCmd miso 0x77 0 0x65 d).2
  let r := sdCmd miso 0x69 0x40000000 0x77 d
  (r.1, sdEnd miso r.2)

/-- `do … while (r == 0x01)`; nothing when the fuel does not last to its end. -/
def acmd41Loop : ℕ → Driver → Option (Byte × Driver)
  | 0, _ => none
  | fuel + 1, d =>
      let r := acmd41Pass miso d
      if r.1 = 0x01 then acmd41Loop fuel r.2 else some r

/-- ACMD41 of `sd_init`, repeated until the card leaves the idle state. -/
def sdAcmd41 (fuel : ℕ) (d : Driver) : Option (Int × Driver) :=
  (acmd41Loop miso fuel (d.puts "  ACMD41... ")).map fun r =>
    if r.1 ≠ 0x00 then (-1, r.2.failR1 r.1) else (0, r.2.puts "OK\r\n")

/-- CMD58 of `sd_init`: the capacity bit of the OCR. -/
def sdCmd58 (d : Driver) : Int × Driver :=
  let r := sdCmd miso 0x7A 0 0xFD (d.puts "  CMD58 ... ")
  if r.1 ≠ 0x00 then (-1, (sdEnd miso (sdDummies miso 4 r.2)).failR1 r.1)
  else
    let ocr0 := sdDummy miso r.2
    let d := sdEnd miso (sdDummies miso 3 ocr0.2)
    if ocr0.1 &&& 0x80 = 0 then (-1, d.puts "FAIL\r\n")
    else
      let sdhc := ocr0.1 &&& 0x40 != 0
      let d := (({ d with gSdhc := sdhc } : Driver).puts "OCR=0x").puth ocr0.1
      (0, d.puts (if sdhc then " SDHC\r\n" else " SDSC\r\n"))

/-- CMD16 of `sd_init`: the block length, whose answer is only printed. -/
def sdCmd16 (d : Driver) : Driver :=
  let r := sdCmd miso 0x50 0x200 0x15 (d.puts "  CMD16 ... ")
  let d := ((sdEnd miso r.2).puts "R1=0x").puth r.1
  d.puts (if r.1 = 0x00 then " OK\r\n" else " (ignored)\r\n")

/-- What `sd_init` does after `sd_acmd41`. -/
def sdInitRest (r : Int × Driver) : Int × Driver :=
  if r.1 ≠ 0 then (-3, r.2)
  else
    let r := sdCmd58 miso r.2
    if r.1 ≠ 0 then (-4, r.2)
    else
      let d := sdCmd16 miso r.2
      (0, ({ d with clkdiv := 3 } : Driver).puts "  SPI 12.5MHz\r\n")

/-- `sd_init()`, with `fuel` rounds of ACMD41. -/
def sdInit (fuel : ℕ) (d : Driver) : Option (Int × Driver) :=
  let r := sdCmd0 miso (sdPoweron miso d)
  if r.1 ≠ 0 then some (-1, r.2)
  else
    let r := sdCmd8 miso r.2
    if r.1 ≠ 0 then some (-2, r.2)
    else (sdAcmd41 miso fuel r.2).map (sdInitRest miso)

end PicoSoc.Boot
