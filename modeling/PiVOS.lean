import PiVOS.Lib.Loop
import PiVOS.Lib.Word
import PiVOS.Lib.Circular
import PiVOS.Lib.Nesting
import PiVOS.Utils
import PiVOS.Log
import PiVOS.Lib.Simulation
import PiVOS.Buffer.Ring
import PiVOS.Buffer.RingQueue
import PiVOS.Buffer.Stack
import PiVOS.Dev.Uart
import PiVOS.Dev.UartBytes
import PiVOS.Lib.Merge
import PiVOS.Dev.UartMixed
import PiVOS.Lib.Packed
import PiVOS.Dev.Gicv2
import PiVOS.Memory.Allocator
import PiVOS.Memory.AllocatorBits
import PiVOS.Memory.AllocatorClaims
import PiVOS.Memory.AllocatorSearch
import PiVOS.Memory.AllocatorPages
import PiVOS.Memory.AllocatorOwners
import PiVOS.Memory.AllocatorRuns
import PiVOS.Memory
import PiVOS.Proc
import PiVOS.ProcNesting
import PiVOS.Lib.Table
import PiVOS.Dev
import PiVOS.Call
import PiVOS.Registry
import PiVOS.Main
import PiVOS.CallTables
import PiVOS.Lib.Radix
import PiVOS.Memory.Mmu
import PiVOS.Memory.Mmu.Reg
import PiVOS.Memory.Mmu.Descriptors
import PiVOS.Memory.Mmu.Walk
import PiVOS.Memory.Mmu.Tree
import PiVOS.Memory.Mmu.Descend
import PiVOS.Memory.Mmu.MapUnits
import PiVOS.Memory.Contexts
import PiVOS.Memory.Mmu.Insert
import PiVOS.Boot.Mmu
import PiVOS.Memory.Mmu.Find
import PiVOS.Memory.Mmu.Split
import PiVOS.Memory.Mmu.Traverse
import PiVOS.Memory.Mmu.MapOver
import PiVOS.Memory.Mmu.Destroy
import PiVOS.Memory.Mmu.Calls
import PiVOS.Memory.Init
import PiVOS.Memory.Mmu.Keeps
import PiVOS.Memory.Mmu.Confined
import PiVOS.Memory.Exhaustion
import PiVOS.Int
import PiVOS.Memory.Space
import PiVOS.Memory.InitHeap
import PiVOS.Memory.KernelMap
import PiVOS.Memory.SpaceHeap
import PiVOS.Memory.UserAccess
import PiVOS.ProcSpaces
import PiVOS.ProcFresh
import PiVOS.ProcHalves
import PiVOS.ProcIsolation
import PiVOS.Int.Trap
import PiVOS.Lib.Lens
import PiVOS.Dev.GenericTimer
import PiVOS.Dev.Gicv2Irq
import PiVOS.System
import PiVOS.SystemRuns
import PiVOS.SystemTimer
import PiVOS.SystemCore
import PiVOS.SystemTraffic
import PiVOS.Lib.Interleave
import PiVOS.Boot.Start
import PiVOS.Boot.StartRuns
import PiVOS.Lib.Interrupts
import PiVOS.ProcInterrupts
import PiVOS.Buffer.StackBytes
import PiVOS.Libc
import PiVOS.Assert
import PiVOS.FromReset
