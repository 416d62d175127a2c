import LinuxDrivers.Basic
import LinuxDrivers.Lib.Machine
import LinuxDrivers.Lib.Interleave
import LinuxDrivers.Lib.Stack
import LinuxDrivers.Kernel.SpinLock
import LinuxDrivers.Kernel.IrqFlags
import LinuxDrivers.Kernel.Sched
import LinuxDrivers.Kernel.WaitQueue
import LinuxDrivers.Kernel.Softirq
import LinuxDrivers.Kernel.SoftirqPending
import LinuxDrivers.Kernel.Tasklet
import LinuxDrivers.Kernel.DelayedWork
import LinuxDrivers.Usb.Request
import LinuxDrivers.Usb.BlockSession
import LinuxDrivers.Kernel.Irq
import LinuxDrivers.Kernel.TimerField
import LinuxDrivers.AudioOut.Playback
import LinuxDrivers.Kernel.PageCache
import LinuxDrivers.Kernel.WakeUp
import LinuxDrivers.Kernel.Completion
import LinuxDrivers.Kernel.WorkQueue
import LinuxDrivers.Kernel.Worker
import LinuxDrivers.Kernel.Kthread
import LinuxDrivers.Kernel.KthreadCreate
import LinuxDrivers.Gpu.GemHandle
import LinuxDrivers.Input.EvdevSlots
import LinuxDrivers.Input.Motion
import LinuxDrivers.Kernel.WorkerStop
import LinuxDrivers.Net.Device
import LinuxDrivers.Net.WifiSession
import LinuxDrivers.Usb.PluginLock
import LinuxDrivers.Usb.Vhcd
import LinuxDrivers.Kernel.WorkerResult
import LinuxDrivers.AudioOut.Flush
import LinuxDrivers.Kernel.Resource
import LinuxDrivers.Kernel.SoftirqTokens
import LinuxDrivers.Usb.RequestSize
import LinuxDrivers.Usb.ScsiCommand
import LinuxDrivers.AudioOut.DeviceTable
import LinuxDrivers.Gpu.Bit17Copy
import LinuxDrivers.Gpu.Bitmap
import LinuxDrivers.Kernel.Iomap
import LinuxDrivers.Kernel.Kmalloc
import LinuxDrivers.Kernel.SystemHash
import LinuxDrivers.Net.Receive
import LinuxDrivers.Gpu.GttSpace
import LinuxDrivers.Gpu.LargeAlloc
import LinuxDrivers.Gpu.PciCapability
import LinuxDrivers.Kernel.IrqRace
import LinuxDrivers.Usb.ControlUrb
import LinuxDrivers.Hid.Input
import LinuxDrivers.Kernel.Mutex
import LinuxDrivers.Kernel.Semaphore
import LinuxDrivers.Hid.Queue
import LinuxDrivers.Kernel.Flush
import LinuxDrivers.Net.Qdisc
import LinuxDrivers.Net.Xmit
import LinuxDrivers.Gpu.Domains
import LinuxDrivers.Gpu.Execbuffer
import LinuxDrivers.Gpu.Gem
import LinuxDrivers.Kernel.WaitEvent
