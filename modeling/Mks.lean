import Mks.Lib.Linked
import Mks.Lib.RefCount
import Mks.Lib.CopyOnWrite
import Mks.Lib.Run
import Mks.Lib.Rendezvous
import Mks.Lib.X86
import Mks.Lib.Loops
import Mks.Lib.Descriptor
import Mks.Lib.Calendar
import Mks.Lib.Decimal
import Mks.Lib.Trail
import Mks.Process.Sched
import Mks.Process.Ready
import Mks.Process.Segment
import Mks.Memory.Paging
import Mks.Memory.Tables
import Mks.Memory.Paged
import Mks.Memory.Quiet
import Mks.Memory.Faults
import Mks.Memory.Sharing
import Mks.Memory.Accesses
import Mks.Memory.Returns
import Mks.Memory.Boot
import Mks.Memory.Private
import Mks.Memory.Counts
import Mks.Memory.Range
import Mks.Memory.MemoryMap
import Mks.Memory.Exact
import Mks.Memory.Retry
import Mks.Memory.ShareRange
import Mks.Message.Blocked
import Mks.Message.Exchanges
import Mks.Message.Delivery
import Mks.Message.Scheduling
import Mks.Message.Waiting
import Mks.Memory.Footprint
import Mks.Message.Windows
import Mks.Message.BigMessage
import Mks.Message.ReadyQueues
import Mks.Message.Slices
import Mks.Message.Atomic
import Mks.Message.Slots
import Mks.Driver.Tables
import Mks.Driver.Typing
import Mks.Interrupt.Transparent
import Mks.Interrupt.Descriptors
import Mks.Interrupt.Controller
import Mks.Startup.Time
import Mks.Startup.Snapshot
import Mks.Startup.BootSector
import Mks.Startup.Image
import Mks.Startup.Setup32
import Mks.Console.Visible
import Mks.Message.Turns
import Mks.Message.Accounting
import Mks.Message.Processors
import Mks.Memory.TranslatedRun
import Mks.Message.Isolation
import Mks.Message.BigDelivery
import Mks.Message.Library
import Mks.Message.Gate
