import SlabKernel.Hw
import SlabKernel.Lib.Deadlines
import SlabKernel.Lib.Dyadic
import SlabKernel.Lib.Lifecycle
import SlabKernel.Lib.PtrList
import SlabKernel.Lib.Queues
import SlabKernel.Lib.Radix
import SlabKernel.Lib.Ring
import SlabKernel.Lib.RoundRobin
import SlabKernel.Lib.Run
import SlabKernel.Lib.Rv64
import SlabKernel.Lib.Shelves
import SlabKernel.Lib.Tiles
import SlabKernel.Buddy.Model
import SlabKernel.Buddy.Rep
import SlabKernel.Buddy.Steps
import SlabKernel.Buddy.Tiling
import SlabKernel.Buddy.Geometry
import SlabKernel.Buddy.Teardown
import SlabKernel.Buddy.Canonical
import SlabKernel.Heap.Model
import SlabKernel.Heap.Pool
import SlabKernel.Heap.Refine
import SlabKernel.Heap.Runs
import SlabKernel.Heap.MemAlloc
import SlabKernel.Heap.Undo
import SlabKernel.Heap.Payloads
import SlabKernel.Mmu.Model
import SlabKernel.Mmu.Tables
import SlabKernel.Mmu.Ops
import SlabKernel.Mmu.Runs
import SlabKernel.Mmu.FlatMap
import SlabKernel.Mmu.Init
import SlabKernel.Mmu.Faults
import SlabKernel.Mmu.Ownership
import SlabKernel.Mmu.Shortage
import SlabKernel.Mmu.UserHeap
import SlabKernel.Slab.Model
import SlabKernel.Slab.Lists
import SlabKernel.Slab.Objects
import SlabKernel.Slab.Alloc
import SlabKernel.Slab.Inv
import SlabKernel.Slab.Calls
import SlabKernel.Slab.Create
import SlabKernel.Slab.Destroy
import SlabKernel.Slab.Buffers
import SlabKernel.Slab.Retire
import SlabKernel.Slab.Client
import SlabKernel.Slab.Boot
import SlabKernel.Slab.CachePool
import SlabKernel.Slab.Requests
import SlabKernel.Slab.Cells
import SlabKernel.Slab.Returning
import SlabKernel.Slab.Sharing
import SlabKernel.Slab.Descriptors
import SlabKernel.Slab.Exhaustion
import SlabKernel.Slab.Shrinking
import SlabKernel.Slab.Sizing
import SlabKernel.Slab.Small
import SlabKernel.Slab.Finalize
import SlabKernel.Slab.Lifetimes
import SlabKernel.Slab.Straddling
import SlabKernel.Slab.Alignment
import SlabKernel.Slab.Usage
import SlabKernel.Memory
import SlabKernel.Threads.Model
import SlabKernel.Threads.Spec
import SlabKernel.Threads.Inv
import SlabKernel.Threads.Refine
import SlabKernel.Threads.Runs
import SlabKernel.Threads.Closing
import SlabKernel.Threads.Counting
import SlabKernel.Threads.Destroying
import SlabKernel.Threads.Fairness
import SlabKernel.Threads.Objects
import SlabKernel.Threads.Leaks
import SlabKernel.Threads.Nodes
import SlabKernel.Threads.Placement
import SlabKernel.Threads.Range
import SlabKernel.Threads.Reporting
import SlabKernel.Threads.Sleeping
import SlabKernel.Threads.Switches
import SlabKernel.Console.Model
import SlabKernel.Console.Rings
import SlabKernel.Console.Flush
import SlabKernel.Console.Numbers
import SlabKernel.Asm.Model
import SlabKernel.Asm.Virtual
import SlabKernel.Asm.Traps
import SlabKernel.Asm.Lock
import SlabKernel.System.Region
import SlabKernel.System.Model
import SlabKernel.System.Owns
import SlabKernel.System.Runs
import SlabKernel.System.Boot
import SlabKernel.System.Stacks
import SlabKernel.System.Computer
import SlabKernel.System.Layout
import SlabKernel.System.Execution
import SlabKernel.System.Start
