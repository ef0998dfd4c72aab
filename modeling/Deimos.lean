import Deimos.Kalloc.Safety
import Deimos.Kalloc.Defrag
import Deimos.Kalloc.Progress
import Deimos.Kalloc.Answer
import Deimos.Kalloc.Preempt
import Deimos.Kalloc.FirstFit
import Deimos.Kalloc.Alignment
import Deimos.Kalloc.Calloc
import Deimos.Paging.Contiguous
import Deimos.Tty.Page
import Deimos.Irq.Registry
import Deimos.Rtl.Lifecycle
import Deimos.Rtl.InStep
import Deimos.Ata.Lifecycle
import Deimos.Task.Stack
import Deimos.Frame.Available
import Deimos.Sched.Idle
import Deimos.Sched.Doomed
import Deimos.Sched.OnTime
import Deimos.Sched.Creation
import Deimos.Sched.Sleepers
import Deimos.Sched.Requests
import Deimos.Frame.Counters
import Deimos.Rtl.Bounds
import Deimos.Rtl.Capr
import Deimos.Ata.Read
import Deimos.Kbd.Model
import Deimos.Kbd.Table
import Deimos.Kbd.Modifiers
import Deimos.Lib.Fields
import Deimos.Pci.Config
import Deimos.Pci.Enumerate
import Deimos.Paging.Translate
import Deimos.Irq.Dispatch
import Deimos.Irq.Bounds
import Deimos.Disk.Model
import Deimos.Disk.Volumes
import Deimos.Disk.Drives
import Deimos.Disk.Register
import Deimos.Disk.Registry
import Deimos.Lib.Bytes
import Deimos.Str.Move
import Deimos.Str.Compare
import Deimos.Str.Bounded
import Deimos.Lib.Numerals
import Deimos.Str.Itoa
import Deimos.Str.Atoi
import Deimos.Kbd.Typing
import Deimos.Ps2.Handshake
import Deimos.Tty.Colour
import Deimos.Sched.Pids
import Deimos.Kalloc.Release
import Deimos.Task.Failed
import Deimos.Task.Undo
import Deimos.Arch.Descriptors
import Deimos.Arch.Vectors
import Deimos.Kalloc.Clients
import Deimos.Sched.Contexts
import Deimos.Sched.Turns
import Deimos.Arch.Wrappers
import Deimos.Irq.Delivery
import Deimos.Lib.Comp
import Deimos.Stdio.Printf
import Deimos.Kalloc.Borrow
import Deimos.Net.Packets
import Deimos.Rtl.Neutral
import Deimos.Rtl.Traffic
import Deimos.Dsh.Shell
import Deimos.Arch.Spinlock
import Deimos.Ata.Buses
import Deimos.Mm.Isolation
import Deimos.Dsh.Typed
import Deimos.Kalloc.Sanity
import Deimos.Net.Devices
import Deimos.Disk.Listing
import Deimos.Irq.Listing
import Deimos.Pci.Listing
import Deimos.Sched.Listing
import Deimos.Str.Copy
