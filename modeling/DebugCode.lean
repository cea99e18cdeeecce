import DebugCode.CpuLoad.Hog
import DebugCode.CpuLoad.LifeCycle
import DebugCode.ParseOutput.Escapes
import DebugCode.ProcessWatcher.Malloc
import DebugCode.Uefivar.Listing
import DebugCode.Uefivar.Removal
import DebugCode.Lib.Script
import DebugCode.Loopy.Create
import DebugCode.Loopy.CleanUp
import DebugCode.Benchmark.Functions
import DebugCode.Benchmark.ColdCache
import DebugCode.Benchmark.Rates
import DebugCode.Benchmark.Release
import DebugCode.Lib.LastWrite
import DebugCode.Iotest.Device
import DebugCode.Iotest.Aliasing
import DebugCode.Kmesg.Poll
import DebugCode.LatencyTest.Sqrt
import DebugCode.ParseOutput.Streaming
import DebugCode.Lib.ScanHex
import DebugCode.Uefivar.Guid
import DebugCode.Uefivar.Names
import DebugCode.ProcessWatcher.StatLine
import DebugCode.Fiemap.Extents
import DebugCode.RdrandBenchmark.StopFlag
import DebugCode.ProcessWatcher.Charges
import DebugCode.ProcessWatcher.Order
import DebugCode.ProcessWatcher.Divisors
import DebugCode.Lib.Lines
import DebugCode.Lib.Numbers
import DebugCode.Lib.Words
import DebugCode.SysStats.Interrupts
import DebugCode.SysStats.Buffer
import DebugCode.SysStats.Growth
import DebugCode.Lib.Reads
import DebugCode.UefiCsmVideo.RomScan
import DebugCode.UefiCsmVideo.FarPointer
import DebugCode.UefiCsmVideo.Mapping
import DebugCode.Lib.Handshake
import DebugCode.Lib.X86
import DebugCode.LedFlash.Flashers
import DebugCode.Beep.Beepers
import DebugCode.LatencyTest.Clock
import DebugCode.Fibmap.BlockMap
import DebugCode.BiosMap.E820
import DebugCode.Cmos.Chip
import DebugCode.Cmos.Report
import DebugCode.Keyboard.Controller
import DebugCode.Keyboard.Hosts
import DebugCode.Lib.Flow
import DebugCode.VgaPalette.Assembler
import DebugCode.Uefivar.Session
import DebugCode.Uefivar.CommandLine
import DebugCode.CpuLoad.Spin
import DebugCode.VideoModes.Modes
import DebugCode.Smistat.Heading
import DebugCode.Halt.Pm1
import DebugCode.Rdrand.Retry
import DebugCode.Benchmark.Main
import DebugCode.CpuCStates.States
