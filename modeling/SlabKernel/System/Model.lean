import SlabKernel.Threads.Leaks
import SlabKernel.System.Region

/-!
# The kernel and its allocator

`System` joins the thread part of the kernel with the slab allocator: each entry takes its object from
the cache of its kind and gives objects back to their caches. The environment makes no address up any
more: an entry of the system (`Request`) names no new object. Between the entries other parts of the
kernel call the allocators.

Not part of it are the stacks and the heap: a stack is an address, and what the destructor of a TCB
gives back to the heap is left out. The destructor of a semaphore gives its nodes back before
`kmem_cache_free` and not in the middle of it; the nodes are objects of another cache.
-/

namespace SlabKernel

open Function (update)
open CachePool Runs

/-- `sizeof(TCB)`, `sizeof(KernelSem)` and `sizeof(KernelConsole)`. -/
abbrev sizeofTCB : Nat := 96

abbrev sizeofKernelSem : Nat := 24

abbrev sizeofKernelConsole : Nat := 80

/-- `CachePool::powerOfTwoSize`. -/
def CachePool.powerOfTwoSize (x : Nat) : Nat := 2 ^ orderLoop x 64 1 0

namespace ObjectKind

def size : ObjectKind → Nat
  | .tcb => sizeofTCB
  | .sem => sizeofKernelSem
  | .blocked => sizeofBlockedQueue
  | .sleep => sizeofSleepQueue

/-- The caches that `createNode` and `getNode` create with the first node. -/
def isNode : ObjectKind → Bool
  | .tcb | .sem => false
  | .blocked | .sleep => true

end ObjectKind

/-! ## Requests -/

/-- A kernel entry, as its caller makes it. -/
inductive Request
  | createThread (startRoutine arg stackSpace : Ptr) (id : Int) (start : Bool)
  | startThread (handle : Ptr)
  | dispatch
  | exit
  | timer
  | sleep (time : Nat)
  | semOpen (init : Nat)
  | wait (s : Nat)
  | signal (s : Nat)
  | semClose (s : Nat)
  | threadDestroy (t : Nat)

/-- The entry with the object `p` that the allocator gives. -/
def Request.entry (p : Ptr) : Request → Entry
  | .createThread startRoutine arg stackSpace id start =>
    .createThread p startRoutine arg stackSpace id start
  | .startThread handle => .startThread handle
  | .dispatch => .dispatch
  | .exit => .exit
  | .timer => .timer
  | .sleep time => .sleep time p
  | .semOpen init => .semOpen p init
  | .wait s => .wait s p
  | .signal s => .signal s
  | .semClose s => .semClose s
  | .threadDestroy t => .threadDestroy t

namespace Kernel

/-- The kind of the object that the entry allocates. -/
def needs (k : Kernel) : Request → Option ObjectKind
  | .createThread .. => some .tcb
  | .sleep _ => some .sleep
  | .semOpen _ => some .sem
  | .wait s => if k.Blocks s then some .blocked else none
  | _ => none

/-- The objects that an entry gives back, with their kinds. -/
def released (k : Kernel) (e : Entry) : List (ObjectKind × Nat) :=
  [.blocked, .sleep, .sem, .tcb].flatMap fun c => (k.freed e c).map (c, ·)

/-- The entries of the environment, which gives no objects: handles are live, the idle thread does
nothing but dispatch, and the counts stay below `INT_MAX`. -/
def Admits (k : Kernel) : Request → Prop
  | .createThread startRoutine _ _ _ _ => k.running ≠ k.idleThread ∧ startRoutine ≠ none
  | .sleep time => k.running ≠ k.idleThread ∧ 1 ≤ time ∧ time < 2 ^ 64
  | .semOpen init => k.running ≠ k.idleThread ∧ init < 2 ^ 31
  | .wait s => k.running ≠ k.idleThread ∧ s ∈ k.sems
  | r => k.Ok (r.entry none)

end Kernel

/-! ## The system -/

/-- The kernel, its allocators, and the handles of its caches: `TCB::cacheTCB`,
`KernelSem::cacheSem`, `KernelSem::cacheBlocked` and `Sleeping::cacheSleep`. -/
structure System where
  kernel : Kernel
  shared : SharedClient
  cache : ObjectKind → Ptr

/-- A kernel entry, or a call of another part on the allocators. -/
inductive SystemCall
  | entry (r : Request)
  | other (op : SharedCall)

/-- The call is made on the cache `d`. -/
def SharedCall.Names (d : Nat) : SharedCall → Prop
  | .call (.alloc c) | .call (.free c _) | .call (.destroy c) | .call (.shrink c) => c = d
  | _ => False

/-- The functions that the linker places, for `main`. -/
structure Functions where
  tcbCtor : Nat
  tcbDtor : Nat
  semCtor : Nat
  semDtor : Nat
  consoleput : Nat
  consoleget : Nat
  idle : Nat

namespace System

def call (x : System) (op : SharedCall) : Option System :=
  (x.shared.step op).map fun shared => { x with shared }

/-- `kmem_cache_create`; the handle is stored, null or not. -/
def createCache (x : System) (c : ObjectKind) (ctor dtor : Ptr) : Option System := do
  let (d, _) ← kmem_cache_create x.shared.client.kmem c.size ctor dtor
  let x ← x.call (.call (.create c.size ctor dtor))
  return { x with cache := update x.cache c d }

/-- An object of the cache of its kind. Nobody tests the handle. -/
def alloc (x : System) (c : ObjectKind) : Option (Ptr × System) := do
  let d ← x.cache c
  let (p, _) ← kmem_cache_alloc x.shared.client.kmem d
  let x ← x.call (.call (.alloc d))
  return (p, x)

/-- `createNode` and `getNode` look for their cache first. -/
def ready (x : System) (c : ObjectKind) : Option System :=
  if c.isNode && (x.cache c).isNone then x.createCache c none none else some x

def free (x : System) (q : ObjectKind × Nat) : Option System := do
  let d ← x.cache q.1
  x.call (.call (.free d q.2))

/-- The object for a request. -/
def give (x : System) (r : Request) : Option (Ptr × System) :=
  match x.kernel.needs r with
  | none => some (none, x)
  | some c => do
    let x ← x.ready c
    x.alloc c

/-- One kernel entry with its calls on the caches. -/
def enter (x : System) (r : Request) : Option System := do
  let (p, x) ← x.give r
  let kernel ← x.kernel.step (r.entry p)
  (x.kernel.released (r.entry p)).foldlM free { x with kernel }

def step (x : System) : SystemCall → Option System
  | .entry r => x.enter r
  | .other op => x.call op

/-- The calls of the environment. The other parts have caches of their own. -/
def Ok (x : System) : SystemCall → Prop
  | .entry r => x.kernel.Admits r
  | .other op => x.shared.Ok op ∧ ∀ c d, x.cache c = some d → ¬ op.Names d

/-! ## Boot -/

/-- Before `main` creates its caches. -/
def reset (shared : SharedClient) : System := ⟨.reset, shared, fun _ => none⟩

def kmalloc (x : System) (size : Nat) : Option (Ptr × System) := do
  let (p, _) ← SlabKernel.kmalloc x.shared.client.kmem size
  let x ← x.call (.call (.kmalloc size))
  return (p, x)

/-- `KernelSem::createSem`. -/
def createSem (x : System) (initValue : Nat) : Option (Nat × System) := do
  let (p, x) ← x.alloc .sem
  let s ← p
  let kernel ← KernelSem.createSem x.kernel (some s) initValue
  return (s, { x with kernel })

/-- `TCB::createThread`; `main` dereferences the new threads. -/
def createThread (x : System) (startRoutine stackSpace : Ptr) (id : Int) : Option (Nat × System) := do
  let (p, x) ← x.alloc .tcb
  let t ← p
  let (_, kernel) ← TCB.createThread x.kernel (some t) startRoutine none stackSpace id true
  return (t, { x with kernel })

/-- `main` from the creation of the caches until it has set `TCB::running`; `idleStack` is of the
heap. -/
def main (x : System) (f : Functions) (idleStack : Ptr) : Option System := do
  let x ← x.createCache .tcb (some f.tcbCtor) (some f.tcbDtor)
  let x ← x.createCache .sem (some f.semCtor) (some f.semDtor)
  let (_, x) ← x.kmalloc (powerOfTwoSize sizeofKernelConsole)
  let (_, x) ← x.createSem 0
  let (_, x) ← x.createSem 4096
  let (_, x) ← x.createSem 0
  let (_, x) ← x.createSem 4096
  let (_, x) ← x.createSem 0
  let (_, x) ← x.createSem 0
  let (_, x) ← x.kmalloc 4096
  let (_, x) ← x.kmalloc 4096
  let (stack, x) ← x.kmalloc 4096
  let (_, x) ← x.createThread (some f.consoleput) stack 1
  let (stack, x) ← x.kmalloc 4096
  let (_, x) ← x.createThread (some f.consoleget) stack 1
  let (mainThread, x) ← x.createThread none none 0
  let (idleThread, x) ← x.createThread (some f.idle) idleStack 0
  return { x with kernel := { x.kernel with idleThread := some idleThread, running := some mainThread } }

end System

end SlabKernel
