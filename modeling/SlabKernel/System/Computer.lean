import SlabKernel.Heap.Payloads
import SlabKernel.System.Boot
import SlabKernel.System.Stacks
import SlabKernel.Threads.Switches

/-!
# The hart, the kernel and the heap

`Computer` joins the hart, whose memory holds the contexts and the frames, with the kernel, its slab
allocator and the heap. A kernel entry that calls `TCB::dispatch` ends with the context switch to the
thread that the scheduler has chosen, `createThread` sets the context of its TCB, and the destructor
of a TCB gives its stack back to the heap. Between the entries the hart runs code, traps and returns
from traps.

What `Computer.Ok` asks of the hart is about the running thread alone: its stack pointer. The threads
that `thread_create` makes have their stacks from `mem_alloc`; those of the console, which have them
from `kmalloc`, are not destroyed.
-/

namespace SlabKernel

open Function (update)
open Rv64 Runs

/-- The address as a word. -/
def word (n : Nat) : Word := BitVec.ofNat 64 n

/-- `DEFAULT_STACK_SIZE`. -/
abbrev stackSize : Nat := 4096

structure Computer where
  hart : Hart
  system : System
  heap : HeapClient
  /-- The address of `TCB::wrapper`. -/
  wrapper : Nat
  /-- The stack on which `main` runs. -/
  mainStack : Nat × Nat

inductive ComputerEvent
  | hart (e : HartEvent)
  | entry (r : Request)
  | other (op : SharedCall)
  | heap (op : HeapCall)

namespace Computer

abbrev kernel (x : Computer) : Kernel := x.system.kernel

/-- The stack of a thread, an address and a size. -/
def stackOf (x : Computer) (t : Nat) : Nat × Nat :=
  match (x.kernel.tcb t).stack with
  | some p => (p, stackSize)
  | none => x.mainStack

def stack (x : Computer) (w : Word) : Nat × Nat := x.stackOf w.toNat

/-- What the destructor of a TCB gives back to the heap: the stack of a user thread, by `delete[]`,
and the argument, by `mem_free`. -/
def releases (x : Computer) : Request → List Nat
  | .threadDestroy t => (x.kernel.tcb t).tcbDtor.filterMap fun r =>
    match r with
    | .deleteArray p => p
    | .memFree p => some p
    | .kfree _ => none
  | _ => []

/-- What an entry, which leads to the kernel `k'`, does to the contexts. -/
def effect (x : Computer) (p : Ptr) (k' : Kernel) : Request → Option HartEvent
  | .createThread startRoutine _ stackSpace _ _ => p.map fun t =>
    if startRoutine.isSome then .create (word t) (word x.wrapper) (word (stackSpace.getD 0 + stackSize))
    else .create (word t) 0 0
  | .threadDestroy t => some (.destroy (word t))
  | r => if x.kernel.Switches (r.entry p) then k'.running.map fun t => .contextSwitch (word t)
    else none

/-- One kernel entry. -/
def enter (x : Computer) (r : Request) : Option Computer := do
  let (p, _) ← x.system.give r
  let heap ← (x.releases r).foldlM (fun heap p => heap.step (.free p)) x.heap
  let system ← x.system.enter r
  let hart ← (x.effect p system.kernel r).toList.foldlM Hart.step x.hart
  return { x with hart, system, heap }

def step (x : Computer) : ComputerEvent → Option Computer
  | .hart e => (x.hart.step e).map fun hart => { x with hart }
  | .entry r => x.enter r
  | .other op => (x.system.call op).map fun system => { x with system }
  | .heap op => (x.heap.step op).map fun heap => { x with heap }

/-! ## The environment -/

/-- The events of the hart between kernel entries. The running thread has room for a frame on its own
stack. -/
def OkHart (x : Computer) : HartEvent → Prop
  | .contextSwitch _ | .create .. | .destroy _ => False
  | .trap _ | .push => x.hart.Fits (x.stack x.hart.running)
  | e => x.hart.Ok e

/-- No live thread but `t` has its stack at `p`. -/
def Unused (x : Computer) (t : Ptr) (p : Nat) : Prop :=
  ∀ u ∈ x.kernel.tcbs, some u ≠ t → (x.kernel.tcb u).stack ≠ some p

/-- `thread_create` hands over the stack that it has allocated. A thread that is destroyed is a user
thread, with its stack from the heap, and so its argument if the destructor gives that back. -/
def OkStack (x : Computer) : Request → Prop
  | .createThread _ _ stackSpace _ _ => ∃ p, stackSpace = some p ∧
    (p, MemoryAllocator.memAllocUnits stackSize) ∈ x.heap.live ∧ x.Unused none p
  | .threadDestroy t => (x.kernel.tcb t).privilege = 0 ∧ (x.releases (.threadDestroy t)).Nodup ∧
    ∀ p ∈ x.releases (.threadDestroy t), x.heap.OkAny (.free p) ∧ x.Unused (some t) p
  | _ => True

/-- The events of the environment. Stacks are not freed behind the kernel's back. -/
def Ok (x : Computer) : ComputerEvent → Prop
  | .hart e => x.OkHart e
  | .entry r => x.kernel.Admits r ∧ x.OkStack r
  | .other op => x.system.Ok (.other op) ∧ ∀ p, op = .call (.kfree p) → x.Unused none p
  | .heap op => x.heap.OkAny op ∧ ∀ p, op = .free p → x.Unused none p

/-! ## Boot -/

/-- The threads that `main` has created have their contexts. -/
def created (system : System) (wrapper : Nat) : List HartEvent :=
  (system.kernel.tcbs.reverse.filter fun t => some t ≠ system.kernel.running).map fun t =>
    .create (word t) (word wrapper) (word ((system.kernel.tcb t).stack.getD 0 + stackSize))

/-- The computer when `main` has set `TCB::running`; `system` is what `System.main` has made. -/
def boot (core : Core) (control : Control) (stvec : Word) (system : System) (heap : HeapClient)
    (wrapper : Nat) (mainStack : Nat × Nat) : Option Computer := do
  let mainThread ← system.kernel.running
  let hart ← (created system wrapper).foldlM Hart.step (.boot core control stvec (word mainThread))
  return { hart, system, heap, wrapper, mainStack }

end Computer

end SlabKernel
