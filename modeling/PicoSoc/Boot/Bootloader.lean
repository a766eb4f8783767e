import PicoSoc.Library.ByteMemory

set_option autoImplicit false

/-! # The bootloader (`bootloader.c`)

`load_fw` and `bootloader_main` over a byte memory. The SD driver below `sd_read_sector` and
`sd_init` is a parameter: each call either fails or delivers the sector asked for. -/

namespace PicoSoc.Boot

open Bytes

/-- `APP_BASE` -/
def appBase : Addr := 0x00010000

/-- `APP_START_SECTOR` -/
def appStartSector : BitVec 32 := 2048

/-- `MAX_FW_BYTES` -/
def maxFwBytes : BitVec 32 := 60 * 1024

/-- Where the linker script puts `sbuf`: in `BL_RAM`, at `0x0001_F000` or above. -/
structure Layout where
  sbuf : Addr
  lower : 0x1F000 ≤ sbuf.toNat
  upper : sbuf.toNat + 512 ≤ 0x20000

/-- The card and its driver. -/
structure Sd where
  /-- what `sd_init` returns -/
  initStatus : Int
  /-- what each call of `sd_read_sector` returns -/
  readStatus : ℕ → Int
  /-- the bytes of each sector -/
  content : BitVec 32 → ℕ → Byte

/-- What leaves the processor: a character, the LEDs, or the jump to the application. -/
inductive Event
  | tx (c : Char)
  | led (v : BitVec 8)
  | jump (a : Addr)
  deriving DecidableEq

/-- The memory, the number of sector reads so far, and what the devices have seen. -/
structure Machine where
  mem : Memory
  reads : ℕ
  out : List Event

/-- One more event. -/
def Machine.emit (m : Machine) (e : Event) : Machine := { m with out := m.out ++ [e] }

/-- The machine with another memory. -/
def Machine.withMem (m : Machine) (mem : Memory) : Machine := { m with mem := mem }

/-! ## UART helpers -/

/-- `uart_putc(c)` -/
def uartPutc (c : Char) (m : Machine) : Machine := m.emit (.tx c)

/-- `uart_puts(s)` -/
def uartPuts (s : String) (m : Machine) : Machine := s.toList.foldl (fun m c => uartPutc c m) m

/-- `"0123456789ABCDEF"[v]` -/
def hexDigit (v : BitVec 4) : Char := "0123456789ABCDEF".toList.getD v.toNat '0'

/-- Two hex digits. -/
def uartPuth (v : Byte) (m : Machine) : Machine :=
  uartPutc (hexDigit (v.extractLsb' 0 4)) (uartPutc (hexDigit (v.extractLsb' 4 4)) m)

/-- Eight hex digits. -/
def uartPuthw (v : BitVec 32) (m : Machine) : Machine :=
  uartPuth (byteLE v 0) (uartPuth (byteLE v 1) (uartPuth (byteLE v 2) (uartPuth (byteLE v 3) m)))

/-! ## Printing leaves memory and card alone -/

@[simp] theorem mem_uartPuts (s : String) (m : Machine) : (uartPuts s m).mem = m.mem := by
  unfold uartPuts
  induction s.toList generalizing m with
  | nil => rfl
  | cons c cs ih => exact ih (uartPutc c m)

@[simp] theorem reads_uartPuts (s : String) (m : Machine) : (uartPuts s m).reads = m.reads := by
  unfold uartPuts
  induction s.toList generalizing m with
  | nil => rfl
  | cons c cs ih => exact ih (uartPutc c m)

@[simp] theorem mem_uartPuthw (v : BitVec 32) (m : Machine) : (uartPuthw v m).mem = m.mem := rfl
@[simp] theorem reads_uartPuthw (v : BitVec 32) (m : Machine) : (uartPuthw v m).reads = m.reads := rfl
@[simp] theorem mem_emit (m : Machine) (e : Event) : (m.emit e).mem = m.mem := rfl
@[simp] theorem reads_emit (m : Machine) (e : Event) : (m.emit e).reads = m.reads := rfl
@[simp] theorem mem_withMem (m : Machine) (mem : Memory) : (m.withMem mem).mem = mem := rfl
@[simp] theorem reads_withMem (m : Machine) (mem : Memory) : (m.withMem mem).reads = m.reads := rfl

/-! ## `load_fw` -/

variable (L : Layout) (sd : Sd)

/-- `sd_read_sector`: status `0` fills the buffer, every other one leaves it. -/
def sdReadSector (sector : BitVec 32) (buf : Addr) (m : Machine) : Int × Machine :=
  let status := sd.readStatus m.reads
  let mem := if status = 0 then m.mem.fill buf (sd.content sector) 512 else m.mem
  (status, { m with mem := mem, reads := m.reads + 1 })

/-- The little-endian word at a place of the memory. -/
def le32 (b : ℕ → Byte) : BitVec 32 :=
  (b 0).setWidth 32 ||| (b 1).setWidth 32 <<< 8 ||| (b 2).setWidth 32 <<< 16 |||
    (b 3).setWidth 32 <<< 24

/-- The size in the header. -/
def headerSize (m : Machine) : BitVec 32 := le32 fun i => m.mem.byte (L.sbuf + BitVec.ofNat 32 i)

/-- `if (chunk > 512) chunk = 512;` -/
def chunkSize (sz written : BitVec 32) : BitVec 32 :=
  if 512 < sz - written then 512 else sz - written

theorem chunk_decreases {sz written : BitVec 32} (h : written < sz) :
    (sz - (written + chunkSize sz written)).toNat < (sz - written).toNat := by
  unfold chunkSize
  split <;> bv_omega

/-- `while (written < sz)` -/
def loadRest (sz written sector : BitVec 32) (m : Machine) : Int × Machine :=
  if written < sz then
    let r := sdReadSector sd sector L.sbuf m
    if r.1 ≠ 0 then (-3, r.2)
    else
      let chunk := chunkSize sz written
      loadRest sz (written + chunk) (sector + 1)
        (r.2.withMem (r.2.mem.copy (appBase + written) L.sbuf chunk.toNat))
  else (0, uartPuts " bytes OK\r\n" (uartPuthw written (uartPuts "  Loaded 0x" m)))
termination_by (sz - written).toNat
decreasing_by exact chunk_decreases (by assumption)

/-- `load_fw()`: the header, its checks, and the sectors of the image. -/
def loadFw (m : Machine) : Int × Machine :=
  let m := uartPuts "... " (uartPuthw appStartSector (uartPuts "  Sector 0x" m))
  let r := sdReadSector sd appStartSector L.sbuf m
  if r.1 ≠ 0 then (-1, r.2)
  else
    let m := uartPuts "OK\r\n" r.2
    let sz := headerSize L m
    let m := uartPuts "\r\n" (uartPuthw sz (uartPuts "  FW size=0x" m))
    if sz = 0 ∨ maxFwBytes < sz then (-2, uartPuts "  Bad size!\r\n" m)
    else
      let written := if sz < 508 then sz else 508
      loadRest L sd sz written (appStartSector + 1)
        (m.withMem (m.mem.copy appBase (L.sbuf + 4) written.toNat))

/-! ## `bootloader_main` -/

/-- What `bootloader_main` prints first. -/
def banner (m : Machine) : Machine :=
  let m := uartPuts "\r\n====================\r\n" (m.emit (.led 0x01))
  let m := uartPuts "====================\r\n" (uartPuts "[BOOT] SD Bootloader\r\n" m)
  uartPuts "[1] SD Init\r\n" m

/-- The state in which `load_fw` is called. -/
def atLoad (m : Machine) : Machine :=
  uartPuts "[2] Load FW\r\n" ((uartPuts "[1] SD Init OK\r\n" (banner m)).emit (.led 0x03))

/-- Up to the jump, or to the endless loop after a failure. -/
def bootloaderMain (m : Machine) : Machine :=
  if sd.initStatus ≠ 0 then (uartPuts "[FAIL] SD Init\r\n" (banner m)).emit (.led 0xE1)
  else
    let r := loadFw L sd (atLoad m)
    if r.1 ≠ 0 then (uartPuts "[FAIL] Load FW\r\n" r.2).emit (.led 0xFE)
    else
      let m := (uartPuts "[2] Load FW OK\r\n" r.2).emit (.led 0x07)
      (uartPuts "[3] Jump 0x00010000\r\n" m).emit (.jump appBase)

end PicoSoc.Boot
