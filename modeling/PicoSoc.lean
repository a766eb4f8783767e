import PicoSoc.Xoodyak.Refinement
import PicoSoc.Xoodyak.RoundTrip
import PicoSoc.Xoodyak.Restart
import PicoSoc.Xoodyak.StatedLengths
import PicoSoc.TinyJambu.FailClosed
import PicoSoc.TinyJambu.Refinement
import PicoSoc.TinyJambu.RoundTrip
import PicoSoc.GiftCofb.Masks
import PicoSoc.GiftCofb.RoundTrip
import PicoSoc.System.AppMemory
import PicoSoc.System.SlowPath
import PicoSoc.System.Leftover
import PicoSoc.System.SpiXfer
import PicoSoc.System.ControlWrites
import PicoSoc.System.UartTx
import PicoSoc.System.UartRx
import PicoSoc.System.UartLoop
import PicoSoc.System.ButtonReset
import PicoSoc.System.CoreTiming
import PicoSoc.System.FlashReads
import PicoSoc.Boot.LoadFw
import PicoSoc.Boot.ReadSector
import PicoSoc.Boot.SdInit
import PicoSoc.Boot.Wrap
import PicoSoc.Cpu.AxiAdapter
import PicoSoc.Cpu.TrappedStore
import PicoSoc.Cpu.DataAccess
import PicoSoc.Cpu.PcpiFastMul
import PicoSoc.Cpu.CompressedFetch
import PicoSoc.Cpu.Progress
import PicoSoc.Cpu.Refinement
import PicoSoc.Cpu.TimingOptions
import PicoSoc.Cpu.Wishbone
import PicoSoc.Cpu.AxiSystem
import PicoSoc.System.Program
import PicoSoc.GiftCofb.Requests
import PicoSoc.Library.Mmio
import PicoSoc.System.CofbServe
import PicoSoc.System.CofbTest
import PicoSoc.System.JambuTest
import PicoSoc.System.XoodyakTest
import PicoSoc.System.SelfTest
import PicoSoc.Xoodyak.ReadBack
