import SeKernel.Fault
import SeKernel.Lib.Doubly
import SeKernel.Lib.Machine
import SeKernel.LinkedList.Basic
import SeKernel.LinkedList.Sequence
import SeKernel.LinkedList.Spec
import SeKernel.LinkedList.Refinement
import SeKernel.Lib.Buckets
import SeKernel.RunQueue.Basic
import SeKernel.RunQueue.Prio
import SeKernel.RunQueue.PrioRuns
import SeKernel.Clock.Basic
import SeKernel.Lib.Counting
import SeKernel.Lib.Lts
import SeKernel.Clock.Barrier
import SeKernel.Memory.Alloc
import SeKernel.Lib.Masks
import SeKernel.Lib.Regions
import SeKernel.Memory.AllocSafe
import SeKernel.Memory.PageTable
import SeKernel.Memory.Frame
import SeKernel.Cpu.Executor
import SeKernel.Memory.Translation
import SeKernel.Cpu.Steps
import SeKernel.Cpu.NonInterference
import SeKernel.Process.Pcb
import SeKernel.Process.Isolation
import SeKernel.Scheduler.Interface
import SeKernel.Scheduler.Basic
import SeKernel.Lib.Pass
import SeKernel.Scheduler.Frame
import SeKernel.Scheduler.Dispatcher
import SeKernel.Scheduler.WellFormed
import SeKernel.Scheduler.Ownership
import SeKernel.Scheduler.WorkConservation
import SeKernel.Clock.Stop
import SeKernel.Process.Transparency
import SeKernel.Loader.Basic
import SeKernel.Loader.Image
import SeKernel.Loader.Failure
import SeKernel.Scheduler.BackEnds
import SeKernel.RunQueue.PrioOrder
import SeKernel.Scheduler.NullReads
import SeKernel.Scheduler.NullPass
import SeKernel.Lib.Chain
import SeKernel.LinkedList.MergeSort
import SeKernel.LinkedList.Consume
import SeKernel.Lib.Cache
import SeKernel.Memory.Walk
import SeKernel.Cpu.FlatStore
import SeKernel.Cpu.Effects
import SeKernel.Process.CompareBranch
import SeKernel.Cpu.Arithmetic
import SeKernel.Memory.Room
import SeKernel.Memory.Consumption
import SeKernel.Lib.Owned
import SeKernel.Memory.Carve
import SeKernel.Memory.FrameFree
import SeKernel.LinkedList.Stable
import SeKernel.Memory.TableFree
import SeKernel.Clock.Reschedule
import SeKernel.Loader.Hex
import SeKernel.Memory.Bulk
import SeKernel.Memory.Optimize
import SeKernel.Memory.StoreLaws
import SeKernel.RunQueue.PrioCount
import SeKernel.Scheduler.ControlArray
import SeKernel.Scheduler.Slice
import SeKernel.LinkedList.PopMatch
import SeKernel.Memory.PopBlock
import SeKernel.Cpu.Instruction
import SeKernel.Lib.Iterate
import SeKernel.Virtual.Machine
import SeKernel.Virtual.Simulation
import SeKernel.Lib.Product
import SeKernel.Virtual.ExecuteAll
import SeKernel.Virtual.Multiprogramming
import SeKernel.LinkedList.Family
import SeKernel.RunQueue.Nodes
import SeKernel.RunQueue.Refinement
import SeKernel.Memory.Nodes
import SeKernel.Loader.Runs
import SeKernel.Virtual.Loaded
import SeKernel.Scheduler.Lifecycle
import SeKernel.Cpu.Init
import SeKernel.Kernel.Idle
import SeKernel.Loader.Init
import SeKernel.Clock.Actions
import SeKernel.Kernel.Clocked
import SeKernel.Lib.Ledger
import SeKernel.Scheduler.Identity
import SeKernel.Kernel.Identity
import SeKernel.Process.Generator
import SeKernel.Scheduler.Empty
