import SysproKernel.Console
import SysproKernel.Lib.ByteMem
import SysproKernel.Lib.CStr
import SysproKernel.Lib.Loop
import SysproKernel.Lib.RoundRobin
import SysproKernel.Lib.Program
import SysproKernel.Lib.Driver
import SysproKernel.Lib.Windows
import SysproKernel.Lib.Handlers
import SysproKernel.Lib.X86
import SysproKernel.Lib.Reading
import SysproKernel.Lib.Observe
import SysproKernel.Lib.Logged
import SysproKernel.Memory.PageWalk
import SysproKernel.Memory.Tables
import SysproKernel.Memory.Forest
import SysproKernel.Memory.InitTables
import SysproKernel.Memory.Slots
import SysproKernel.Memory.Pages
import SysproKernel.Memory.Regions
import SysproKernel.Memory.AddressSpaces
import SysproKernel.Memory.LayoutConsts
import SysproKernel.Memory.PageFault
import SysproKernel.Terminal.Font
import SysproKernel.Terminal.Screen
import SysproKernel.Terminal.Buffer
import SysproKernel.Terminal.Invariant
import SysproKernel.Terminal.Scrolling
import SysproKernel.Terminal.Drawing
import SysproKernel.Terminal.Mapped
import SysproKernel.Terminal.Hex
import SysproKernel.Terminal.Glyph
import SysproKernel.Virtio.Layout
import SysproKernel.Virtio.Init
import SysproKernel.Virtio.Send
import SysproKernel.Virtio.Transmission
import SysproKernel.Virtio.Receive
import SysproKernel.Virtio.Reception
import SysproKernel.Sched.Handler
import SysproKernel.Sched.Switch
import SysproKernel.Sched.Tasks
import SysproKernel.Sched.Startup
import SysproKernel.Sched.Preemption
import SysproKernel.Lib.HalfPeriod
import SysproKernel.Timer.PmTimer
import SysproKernel.Timer.Acpi
import SysproKernel.Timer.LapicTimer
import SysproKernel.Boot.HardwareInfo
import SysproKernel.Lib.Trace
import SysproKernel.Virtio.Exposure
import SysproKernel.Virtio.Handshake
import SysproKernel.Virtio.Ring
import SysproKernel.Virtio.Wire
import SysproKernel.Virtio.Placement
import SysproKernel.Virtio.QueueSize
import SysproKernel.Virtio.Report
import SysproKernel.Virtio.Probe
import SysproKernel.Interrupt.Stubs
import SysproKernel.Sched.RedZone
import SysproKernel.Boot.Elf
import SysproKernel.Boot.Load
import SysproKernel.Boot.Sections
import SysproKernel.Boot.Segments
import SysproKernel.Boot.Hex
import SysproKernel.Boot.Volumes
import SysproKernel.Boot.Chosen
import SysproKernel.Kernel.Code
import SysproKernel.Kernel.Finish
import SysproKernel.Interrupt.Gate
import SysproKernel.Interrupt.Resume
import SysproKernel.Kernel.Calls
import SysproKernel.Kernel.Apps
import SysproKernel.Kernel.Multitasking
import SysproKernel.Kernel.Loaded
import SysproKernel.Lib.Beside
import SysproKernel.Virtio.Duplex
import SysproKernel.Lib.Links
import SysproKernel.Virtio.Network
import SysproKernel.Kernel.Gates
import SysproKernel.Boot.Processors
