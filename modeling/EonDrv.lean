import EonDrv.Support.StepSystem
import EonDrv.Support.Sticky
import EonDrv.Support.Doorbell
import EonDrv.Support.Locks
import EonDrv.Support.Cpus
import EonDrv.Support.Pages
import EonDrv.Support.RegisterFile
import EonDrv.Support.Along
import EonDrv.Support.BitField
import EonDrv.Support.Streaming
import EonDrv.Support.Traced
import EonDrv.Support.Ledger
import EonDrv.Support.Pipeline
import EonDrv.Support.Overwrite
import EonDrv.Support.Trajectory
import EonDrv.Driver.Types
import EonDrv.Driver.Registers
import EonDrv.Completion.System
import EonDrv.Completion.Fires
import EonDrv.Completion.Base
import EonDrv.Completion.Channel
import EonDrv.Completion.Waits
import EonDrv.Completion.Credit
import EonDrv.Completion.Release
import EonDrv.Completion.Table
import EonDrv.Completion.Wakeup
import EonDrv.Completion.Result
import EonDrv.Completion.Drain
import EonDrv.Window.Iatu
import EonDrv.Window.Access
import EonDrv.Window.Coherence
import EonDrv.Window.Written
import EonDrv.Window.Width
import EonDrv.Machine.System
import EonDrv.Machine.Doorbell
import EonDrv.Machine.Alone
import EonDrv.Machine.Batch
import EonDrv.Machine.Smp
import EonDrv.Descriptor.Elements
import EonDrv.Descriptor.Engine
import EonDrv.Descriptor.Fill
import EonDrv.Descriptor.Meaning
import EonDrv.Descriptor.Reserved
import EonDrv.Ioctl.Kernel
import EonDrv.Ioctl.Stages
import EonDrv.Ioctl.Outcomes
import EonDrv.Ioctl.Hdma
import EonDrv.Ioctl.Codes
import EonDrv.Ioctl.Pinning
import EonDrv.Ioctl.PinCount
import EonDrv.Ioctl.Neutral
import EonDrv.Ioctl.Leak
import EonDrv.Ioctl.Splitting
import EonDrv.Ioctl.SgList
import EonDrv.Ioctl.Mapping
import EonDrv.Ioctl.Segments
import EonDrv.Ioctl.Request
import EonDrv.Lifecycle.Probe
import EonDrv.Lifecycle.Paths
import EonDrv.Lifecycle.AllOrNothing
import EonDrv.Lifecycle.Minors
import EonDrv.Lifecycle.Lifetimes
import EonDrv.Lifecycle.Order
import EonDrv.Lifecycle.Alive
import EonDrv.Lifecycle.Stop
import EonDrv.Lifecycle.Module
import EonDrv.Support.LittleEndian
import EonDrv.Support.ScatterGather
import EonDrv.Support.StructLayout
import EonDrv.Support.AtomicObject
import EonDrv.Window.Atomic
import EonDrv.Driver.Msi
import EonDrv.Driver.ContextFlag
import EonDrv.Ioctl.Wire
import EonDrv.Transfer.Memory
import EonDrv.Transfer.Engine
import EonDrv.Transfer.Block
import EonDrv.Transfer.Delivery
import EonDrv.Transfer.Concurrent
import EonDrv.Support.Schedule
import EonDrv.Machine.Progress
import EonDrv.Machine.Probed
import EonDrv.Support.DoorbellTally
import EonDrv.Completion.Tally
import EonDrv.Transfer.ReadBack
import EonDrv.Completion.Passes
