import SlabKernel.Hw

/-!
# Threads, semaphores and sleeping (`tcb`, `scheduler`, `kernelsem`, `sleeping`, `riscv`)

`Kernel` is the state of the classes `TCB`, `Scheduler`, `KernelSem` and `Sleeping`: their static
members and one memory for each kind of object. The object caches are the environment: an
allocation is an address that is given to the function (`none` when there is no memory), and the
lists `tcbs`, `sems`, `nodes`, `sleeps` record the live objects.

The trap handler runs with interrupts disabled, so a kernel entry is one step; what a thread does
after its context switch is its next step.
-/

namespace SlabKernel

open Function (update)

/-! ## Objects -/

/-- Class `TCB`, without the saved context. -/
structure TCB where
  next : Ptr
  prev : Ptr
  stack : Ptr
  finished : Bool
  blocked : Bool
  started : Bool
  asleep : Bool
  privilege : Int
  pid : Int
  fun_ : Ptr
  funArg : Ptr
  timeSlice : Nat
  holder : Ptr
  close : Int

/-- The constructor `TCB::TCB`; `DEFAULT_TIME_SLICE` is 2. -/
def TCB.ctor : TCB where
  next := none
  prev := none
  stack := none
  finished := false
  blocked := false
  started := false
  asleep := false
  privilege := 0
  pid := 0
  fun_ := none
  funArg := none
  timeSlice := 2
  holder := none
  close := 0

/-- `KernelSem::BlockedQueue`: a node refers to a thread. -/
structure BlockedQueue where
  tcb : Nat
  next : Ptr

/-- `Sleeping::SleepQueue`. -/
structure SleepQueue where
  tcb : Nat
  prev : Ptr
  next : Ptr
  time : Nat

/-- Class `KernelSem`. -/
structure KernelSem where
  val : Int
  head : Ptr
  tail : Ptr

/-- The constructor `KernelSem::KernelSem`. -/
def KernelSem.ctor : KernelSem := ⟨0, none, none⟩

/-- The state of the thread part of the kernel. -/
structure Kernel where
  tcb : Nat → TCB
  sem : Nat → KernelSem
  blockedQueue : Nat → BlockedQueue
  sleepQueue : Nat → SleepQueue
  /-- `Scheduler::head`, `tail` and `idleThread`. -/
  head : Ptr
  tail : Ptr
  idleThread : Ptr
  /-- `Sleeping::head`. -/
  sleepHead : Ptr
  running : Ptr
  timeSliceCounter : Nat
  /-- The live objects of the four caches. -/
  tcbs : List Nat
  sems : List Nat
  nodes : List Nat
  sleeps : List Nat

namespace Kernel

def modTcb (k : Kernel) (t : Nat) (f : TCB → TCB) : Kernel :=
  { k with tcb := update k.tcb t (f (k.tcb t)) }

def modSem (k : Kernel) (s : Nat) (f : KernelSem → KernelSem) : Kernel :=
  { k with sem := update k.sem s (f (k.sem s)) }

def modBlocked (k : Kernel) (n : Nat) (f : BlockedQueue → BlockedQueue) : Kernel :=
  { k with blockedQueue := update k.blockedQueue n (f (k.blockedQueue n)) }

def modSleep (k : Kernel) (n : Nat) (f : SleepQueue → SleepQueue) : Kernel :=
  { k with sleepQueue := update k.sleepQueue n (f (k.sleepQueue n)) }

end Kernel

/-! ## `Scheduler` -/

namespace Scheduler

def get (k : Kernel) : Ptr × Kernel :=
  match k.head with
  | none => (k.idleThread, k)
  | some data =>
    let head := (k.tcb data).next
    let k := { k with head }.modTcb data fun t => { t with next := none }
    match head with
    | none => (some data, { k with tail := none })
    | some h => (some data, k.modTcb h fun t => { t with prev := none })

/-- `Scheduler::put`; it dereferences its argument. -/
def put (k : Kernel) : Ptr → Option Kernel
  | none => none
  | some tcb =>
    match k.tail with
    | some tail =>
      let k := k.modTcb tail fun t => { t with next := some tcb }
      let k := k.modTcb tcb fun t => { t with prev := some tail }
      let k := { k with tail := (k.tcb tail).next }
      some (k.modTcb tcb fun t => { t with next := none })
    | none =>
      let k := { k with head := some tcb, tail := some tcb }
      let k := k.modTcb tcb fun t => { t with next := none }
      some (k.modTcb tcb fun t => { t with prev := none })

end Scheduler

/-! ## `TCB` -/

namespace TCB

/-- `TCB::dispatch`, up to the context switch. -/
def dispatch (k : Kernel) : Option Kernel := do
  let old ← k.running
  let k ←
    if !(k.tcb old).finished && !(k.tcb old).blocked && !(k.tcb old).asleep then
      Scheduler.put k (some old)
    else some k
  let (running, k) := Scheduler.get k
  let running ← running
  return { k with running := some running }

/-- `TCB::createThread`: the handle and the state; `thread` is the object of `cacheTCB`. -/
def createThread (k : Kernel) (thread startRoutine arg stackSpace : Ptr) (id : Int) (start : Bool) :
    Option (Ptr × Kernel) :=
  match thread with
  | none => some (none, k)
  | some t =>
    let k := { k with tcbs := t :: k.tcbs }.modTcb t fun x =>
      { x with
        stack := if startRoutine.isSome then stackSpace else none
        fun_ := startRoutine
        funArg := arg
        pid := id }
    if startRoutine.isSome && start then do
      let k ← Scheduler.put k (some t)
      return (some t, k.modTcb t fun x => { x with started := true })
    else some (some t, k)

/-- `TCB::startThread`: its result and the state; `handle` is what the handle's address holds. -/
def startThread (k : Kernel) (handle : Ptr) : Option (Int × Kernel) :=
  match handle with
  | none => some (-1, k)
  | some t =>
    if (k.tcb t).started then some (-2, k)
    else do
      let k ← Scheduler.put k (some t)
      return (0, k.modTcb t fun x => { x with started := true })

/-- `TCB::suspend`. -/
def suspend (k : Kernel) : Option Kernel :=
  match k.running with
  | none => some k
  | some t => dispatch (k.modTcb t fun x => { x with finished := true })

/-- What a destructor gives back: a stack or an argument. -/
inductive Release
  | deleteArray (p : Ptr)
  | kfree (p : Ptr)
  | memFree (p : Nat)

/-- `TCB::tcbDtor`: what it releases. -/
def tcbDtor (t : TCB) : List Release :=
  (if t.privilege = 0 then .deleteArray t.stack else .kfree t.stack) ::
    match t.funArg with
    | some p => if t.pid = 1 then [.memFree p] else []
    | none => []

end TCB

/-! ## `KernelSem` -/

namespace KernelSem

/-- `KernelSem::createSem`; `semaphore` is the object of `cacheSem`. -/
def createSem (k : Kernel) (semaphore : Ptr) (initValue : Nat) : Option Kernel := do
  let s ← semaphore
  return { k with sems := s :: k.sems }.modSem s fun _ =>
    { val := toInt32 initValue, head := none, tail := none }

/-- `KernelSem::insert`; `node` is the object of `cacheBlocked`. -/
def insert (k : Kernel) (s tcb : Nat) (node : Ptr) : Option Kernel := do
  let n ← node
  let k := { k with nodes := n :: k.nodes }.modBlocked n fun _ => { tcb, next := none }
  match (k.sem s).tail with
  | some tail =>
    let k := k.modBlocked tail fun x => { x with next := some n }
    return k.modSem s fun x => { x with tail := (k.blockedQueue tail).next }
  | none => return k.modSem s fun x => { x with head := some n, tail := some n }

def deleteNode (k : Kernel) (n : Nat) : Kernel := { k with nodes := k.nodes.erase n }

def remove (k : Kernel) (s : Nat) : Ptr × Kernel :=
  match (k.sem s).head with
  | none => (none, k)
  | some old =>
    let data := (k.blockedQueue old).tcb
    let k := k.modTcb data fun x => { x with holder := none, blocked := false }
    let k := k.modSem s fun x => { x with head := (k.blockedQueue old).next }
    let k := if (k.sem s).head.isNone then k.modSem s fun x => { x with tail := none } else k
    (some data, deleteNode k old)

/-- `KernelSem::block` for the running thread `t`. -/
def block (k : Kernel) (s : Nat) (node : Ptr) : Option Kernel := do
  let t ← k.running
  let k := k.modTcb t fun x => { x with blocked := true, holder := some s }
  let k ← insert k s t node
  TCB.dispatch { k with timeSliceCounter := 0 }

def deblock (k : Kernel) (s : Nat) : Option Kernel :=
  let (t, k) := remove k s
  Scheduler.put k t

/-- `KernelSem::wait`, up to a context switch; `node` is the object a blocking call allocates. -/
def wait (k : Kernel) (s : Nat) (node : Ptr) : Option Kernel :=
  let k := k.modSem s fun x => { x with val := toInt32 (x.val - 1) }
  if (k.sem s).val < 0 then block k s node else some k

/-- The result of `wait`, computed when the calling thread `t` goes on. -/
def waitResult (k : Kernel) (t : Nat) : Int :=
  if (k.tcb t).holder = none ∧ (k.tcb t).close = 1 then -1 else 0

def signal (k : Kernel) (s : Nat) : Option Kernel :=
  let val := (k.sem s).val
  let k := k.modSem s fun x => { x with val := toInt32 (x.val + 1) }
  if val < 0 then deblock k s else some k

/-- The loop of `semDtor`. -/
def semDtorLoop : Nat → Ptr → Kernel → Option Kernel
  | _, none, k => some k
  | 0, some _, _ => none
  | fuel + 1, some prev, k => do
    let curr := (k.blockedQueue prev).next
    let data := (k.blockedQueue prev).tcb
    let k := k.modTcb data fun x => { x with close := 1, holder := none }
    let k ← Scheduler.put k (some data)
    semDtorLoop fuel curr (deleteNode k prev)

def semDtor (k : Kernel) (s : Nat) : Option Kernel := semDtorLoop addrSpace (k.sem s).head k

end KernelSem

/-! ## `Sleeping` -/

namespace Sleeping

def deleteNode (k : Kernel) (n : Nat) : Kernel := { k with sleeps := k.sleeps.erase n }

/-- The loop of `Sleeping::remove`. -/
def removeLoop : Nat → Ptr → Kernel → Option Kernel
  | _, none, k => some k
  | 0, some _, _ => none
  | fuel + 1, some curr, k =>
    if (k.sleepQueue curr).time = 0 then do
      let k := k.modTcb (k.sleepQueue curr).tcb fun x => { x with asleep := false }
      let k ← Scheduler.put k (some (k.sleepQueue curr).tcb)
      let next := (k.sleepQueue curr).next
      removeLoop fuel next (deleteNode { k with sleepHead := next } curr)
    else some k

def remove (k : Kernel) : Option Kernel :=
  match k.sleepHead with
  | none => some k
  | some head =>
    removeLoop addrSpace (some head) (k.modSleep head fun x => { x with time := sub64 x.time 1 })

/-- The loop of `Sleeping::add`, from `curr` on. -/
def addLoop (node : Nat) : Nat → Nat → Kernel → Option Kernel
  | 0, _, _ => none
  | fuel + 1, curr, k =>
    match (k.sleepQueue curr).next with
    | none =>
      let k := k.modSleep curr fun x => { x with next := some node }
      some (k.modSleep node fun x => { x with prev := some curr })
    | some next =>
      let time := (k.sleepQueue node).time
      if time < (k.sleepQueue next).time then
        let k := k.modSleep node fun x => { x with next := some next }
        let k := k.modSleep next fun x => { x with prev := some node }
        let k := k.modSleep curr fun x => { x with next := some node }
        let k := k.modSleep node fun x => { x with prev := some curr }
        some (k.modSleep next fun x => { x with time := sub64 x.time time })
      else
        addLoop node fuel next
          (k.modSleep node fun x => { x with time := sub64 x.time (k.sleepQueue next).time })

/-- `Sleeping::add` once the node is filled in. -/
def insertNode (k : Kernel) (n : Nat) : Option Kernel :=
  match k.sleepHead with
  | none => some { k with sleepHead := some n }
  | some head =>
    let time := (k.sleepQueue n).time
    if time < (k.sleepQueue head).time then
      let k := k.modSleep n fun x => { x with next := some head }
      let k := k.modSleep head fun x => { x with time := sub64 x.time time }
      let k := k.modSleep head fun x => { x with prev := some n }
      some { k with sleepHead := some n }
    else
      addLoop n addrSpace head
        (k.modSleep n fun x => { x with time := sub64 x.time (k.sleepQueue head).time })

/-- `Sleeping::add` for the running thread; `node` is the object of `cacheSleep`. -/
def add (k : Kernel) (time : Nat) (node : Ptr) : Option Kernel := do
  let n ← node
  let t ← k.running
  insertNode ({ k with sleeps := n :: k.sleeps }.modSleep n fun _ =>
    { tcb := t, prev := none, next := none, time }) n

end Sleeping

/-! ## The entries of `Riscv::trapHandler` -/

namespace Riscv

/-- `THREAD_DISPATCH`. -/
def threadDispatch (k : Kernel) : Option Kernel := TCB.dispatch { k with timeSliceCounter := 0 }

/-- `TIME_SLEEP`. -/
def timeSleep (k : Kernel) (time : Nat) (node : Ptr) : Option Kernel := do
  let t ← k.running
  let k ← Sleeping.add (k.modTcb t fun x => { x with asleep := true }) time node
  TCB.dispatch k

/-- The timer interrupt. -/
def timer (k : Kernel) : Option Kernel := do
  let k := { k with timeSliceCounter := (k.timeSliceCounter + 1) % 2 ^ 64 }
  let k ← Sleeping.remove k
  let t ← k.running
  if k.timeSliceCounter ≥ (k.tcb t).timeSlice then TCB.dispatch { k with timeSliceCounter := 0 }
  else return k

/-- `SEM_CLOSE` and `SEM_DESTROY`: `putObject` runs the destructor and the constructor. -/
def semDestroy (k : Kernel) (s : Nat) : Option Kernel := do
  let k ← KernelSem.semDtor k s
  return { k with sems := k.sems.erase s }.modSem s fun _ => KernelSem.ctor

/-- `THREAD_DESTROY`: `putObject` runs the destructor and the constructor. -/
def threadDestroy (k : Kernel) (t : Nat) : List TCB.Release × Kernel :=
  ((k.tcb t).tcbDtor, { k with tcbs := k.tcbs.erase t }.modTcb t fun _ => TCB.ctor)

end Riscv

/-! ## Steps -/

/-- The kernel entries. -/
inductive Entry
  | createThread (thread startRoutine arg stackSpace : Ptr) (id : Int) (start : Bool)
  | startThread (handle : Ptr)
  | dispatch
  | exit
  | timer
  | sleep (time : Nat) (node : Ptr)
  | semOpen (semaphore : Ptr) (init : Nat)
  | wait (s : Nat) (node : Ptr)
  | signal (s : Nat)
  | semClose (s : Nat)
  | threadDestroy (t : Nat)

/-- One kernel entry; `none` is an undefined run. -/
def Kernel.step (k : Kernel) : Entry → Option Kernel
  | .createThread thread startRoutine arg stackSpace id start =>
    (TCB.createThread k thread startRoutine arg stackSpace id start).map Prod.snd
  | .startThread handle => (TCB.startThread k handle).map Prod.snd
  | .dispatch => Riscv.threadDispatch k
  | .exit => TCB.suspend k
  | .timer => Riscv.timer k
  | .sleep time node => Riscv.timeSleep k time node
  | .semOpen semaphore init => KernelSem.createSem k semaphore init
  | .wait s node => KernelSem.wait k s node
  | .signal s => KernelSem.signal k s
  | .semClose s => Riscv.semDestroy k s
  | .threadDestroy t => some (Riscv.threadDestroy k t).2

/-! ## Boot -/

/-- Before `main`: the slots of the caches hold what the constructors leave there. -/
def Kernel.reset : Kernel where
  tcb _ := TCB.ctor
  sem _ := KernelSem.ctor
  blockedQueue _ := ⟨0, none⟩
  sleepQueue _ := ⟨0, none, none, 0⟩
  head := none
  tail := none
  idleThread := none
  sleepHead := none
  running := none
  timeSliceCounter := 0
  tcbs := []
  sems := []
  nodes := []
  sleeps := []

/-- The addresses that the allocators and the linker give to `main`. -/
structure Boot where
  txFull : Nat
  txBuff : Nat
  rxBuff : Nat
  rxEmpty : Nat
  uartReceive : Nat
  uartTransmit : Nat
  putcThread : Nat
  getcThread : Nat
  mainThread : Nat
  idleThread : Nat
  consoleput : Nat
  consoleget : Nat
  idle : Nat
  putcStack : Ptr
  getcStack : Ptr
  idleStack : Ptr

/-- `main` until it has set `TCB::running`: the console's semaphores (`MAX_SIZE` is 4096), the
console's threads, the main thread and the idle thread. -/
def Boot.kernel (e : Boot) : Option Kernel := do
  let k ← KernelSem.createSem .reset (some e.txFull) 0
  let k ← KernelSem.createSem k (some e.txBuff) 4096
  let k ← KernelSem.createSem k (some e.rxBuff) 0
  let k ← KernelSem.createSem k (some e.rxEmpty) 4096
  let k ← KernelSem.createSem k (some e.uartReceive) 0
  let k ← KernelSem.createSem k (some e.uartTransmit) 0
  let (_, k) ← TCB.createThread k (some e.putcThread) (some e.consoleput) none e.putcStack 1 true
  let (_, k) ← TCB.createThread k (some e.getcThread) (some e.consoleget) none e.getcStack 1 true
  let (mainThread, k) ← TCB.createThread k (some e.mainThread) none none none 0 true
  let (idleThread, k) ← TCB.createThread k (some e.idleThread) (some e.idle) none e.idleStack 0 true
  return { k with idleThread, running := mainThread }

end SlabKernel
