import SlabKernel.Threads.Range

/-!
# The console (`h/kernelcons.h`, `src/kernel/kernelcons.cpp`, the interrupt in `riscv.cpp`)

`Console` is the kernel with the object `KernelConsole`. A call of `put` or `get` is one step if its
`sem_wait` passes; if the caller blocks, the rest of the call is a later step, `resume`. The trap
handler runs with interrupts disabled, so nothing comes in between. The threads `consoleput` and
`consoleget` can be interrupted anywhere: `putPc` and `getPc` say where they stand, and each access
of theirs is a step. Whether the device is ready, and the characters it reads, come from the
environment.

The lists `written`, `sent`, `read` and `got` record the characters that the calls of `put` wrote to
the ring, those written to the device, those read from it and those that `get` returned; no step
reads them.
-/

namespace SlabKernel

open Function (update)

/-- `MAX_SIZE`. -/
abbrev maxSize : Nat := 4096

/-- Class `KernelConsole`; its semaphores are those of `Boot`. -/
structure KernelConsole where
  input_buff : Nat → UInt8
  output_buff : Nat → UInt8
  outpHead : Nat
  inpHead : Nat
  outpTail : Nat
  inpTail : Nat

/-- Where `consoleput` stands: before its `sem_wait(uartTransmit)`, at the test of `WRITE_READY`,
before its `sem_wait(txFull)`, before it loads and writes the character, before it moves the head,
before its `sem_signal(txBuff)`. -/
inductive PutPc
  | transmit
  | check
  | take
  | load
  | write (c : UInt8)
  | advance
  | signal

instance : (pc : PutPc) → Decidable (pc = .advance)
  | .advance => isTrue rfl
  | .transmit | .check | .take | .load | .write _ | .signal => isFalse nofun

/-- Where `consoleget` stands: before its `sem_wait(uartReceive)`, at the test of `READ_READY`, before
its `sem_wait(rxEmpty)`, before it reads and stores the character, before it moves the tail, before
its `sem_signal(rxBuff)`. -/
inductive GetPc
  | receive
  | check
  | take
  | load
  | store (c : UInt8)
  | advance
  | signal

/-- The kernel with the console; `puts` and `gets` are the calls that have waited and not ended. -/
structure Console where
  kernel : Kernel
  cons : KernelConsole
  putPc : PutPc
  getPc : GetPc
  puts : List (Nat × UInt8)
  gets : List Nat
  written : List UInt8
  sent : List UInt8
  read : List UInt8
  got : List UInt8

namespace Console

/-! ## The code -/

variable (e : Boot)

/-- `put` behind its `sem_wait`. -/
def putRest (x : Console) (c : UInt8) : Option Console := do
  let cons := { x.cons with
    output_buff := update x.cons.output_buff x.cons.outpTail c
    outpTail := (x.cons.outpTail + 1) % maxSize }
  let kernel ← KernelSem.signal x.kernel e.txFull
  return { x with kernel, cons, written := x.written ++ [c] }

/-- `KernelConsole::put`, up to a context switch. -/
def put (x : Console) (c : UInt8) (node : Ptr) : Option Console := do
  let t ← x.kernel.running
  let kernel ← KernelSem.wait x.kernel e.txBuff node
  if kernel.running = some t then putRest e { x with kernel } c
  else return { x with kernel, puts := (t, c) :: x.puts }

/-- `get` behind its `sem_wait`. -/
def getRest (x : Console) : Option Console := do
  let c := x.cons.input_buff x.cons.inpHead
  let cons := { x.cons with inpHead := (x.cons.inpHead + 1) % maxSize }
  let kernel ← KernelSem.signal x.kernel e.rxEmpty
  return { x with kernel, cons, got := x.got ++ [c] }

/-- `KernelConsole::get`, up to a context switch. -/
def get (x : Console) (node : Ptr) : Option Console := do
  let t ← x.kernel.running
  let kernel ← KernelSem.wait x.kernel e.rxBuff node
  if kernel.running = some t then getRest e { x with kernel }
  else return { x with kernel, gets := t :: x.gets }

/-- The running thread goes on with its `put` or `get`. -/
def resume (x : Console) : Option Console := do
  let t ← x.kernel.running
  match x.puts.lookup t with
  | some c => putRest e { x with puts := x.puts.filter fun y => y.1 ≠ t } c
  | none => if t ∈ x.gets then getRest e { x with gets := x.gets.erase t } else none

/-- One step of `KernelConsole::consoleput`. -/
def consoleput (x : Console) (ready : Bool) (node : Ptr) : Option Console :=
  match x.putPc with
  | .transmit => (KernelSem.wait x.kernel e.uartTransmit node).map fun kernel =>
    { x with kernel, putPc := .check }
  | .check => some { x with putPc := if ready then .take else .transmit }
  | .take => (KernelSem.wait x.kernel e.txFull node).map fun kernel =>
    { x with kernel, putPc := .load }
  | .load => some { x with putPc := .write (x.cons.output_buff x.cons.outpHead) }
  | .write c => some { x with sent := x.sent ++ [c], putPc := .advance }
  | .advance =>
    some { x with
      cons := { x.cons with outpHead := (x.cons.outpHead + 1) % maxSize }
      putPc := .signal }
  | .signal => (KernelSem.signal x.kernel e.txBuff).map fun kernel =>
    { x with kernel, putPc := .check }

/-- One step of `KernelConsole::consoleget`; `c` is what the device gives when it is read. -/
def consoleget (x : Console) (ready : Bool) (c : UInt8) (node : Ptr) : Option Console :=
  match x.getPc with
  | .receive => (KernelSem.wait x.kernel e.uartReceive node).map fun kernel =>
    { x with kernel, getPc := .check }
  | .check => some { x with getPc := if ready then .take else .receive }
  | .take => (KernelSem.wait x.kernel e.rxEmpty node).map fun kernel =>
    { x with kernel, getPc := .load }
  | .load => some { x with read := x.read ++ [c], getPc := .store c }
  | .store c =>
    some { x with
      cons := { x.cons with input_buff := update x.cons.input_buff x.cons.inpTail c }
      getPc := .advance }
  | .advance =>
    some { x with
      cons := { x.cons with inpTail := (x.cons.inpTail + 1) % maxSize }
      getPc := .signal }
  | .signal => (KernelSem.signal x.kernel e.rxBuff).map fun kernel =>
    { x with kernel, getPc := .receive }

/-- The console interrupt. -/
def interrupt (x : Console) : Option Console := do
  let kernel ← KernelSem.signal x.kernel e.uartReceive
  let kernel ← KernelSem.signal kernel e.uartTransmit
  return { x with kernel }

/-! ## Steps -/

/-- What can happen next: another kernel entry, the console interrupt, a call of `put` or `get`, the
rest of one, a step of one of the console's threads. -/
inductive Event
  | entry (en : Entry)
  | interrupt
  | put (c : UInt8) (node : Ptr)
  | get (node : Ptr)
  | resume
  | consoleput (ready : Bool) (node : Ptr)
  | consoleget (ready : Bool) (c : UInt8) (node : Ptr)

def step (x : Console) : Event → Option Console
  | .entry en => (x.kernel.step en).map fun kernel => { x with kernel }
  | .interrupt => x.interrupt e
  | .put c node => x.put e c node
  | .get node => x.get e node
  | .resume => x.resume e
  | .consoleput ready node => x.consoleput e ready node
  | .consoleget ready c node => x.consoleget e ready c node

/-- The thread is in a call of `put` or `get`. -/
def Pending (x : Console) (t : Nat) : Prop := t ∈ x.puts.map Prod.fst ∨ t ∈ x.gets

instance (x : Console) (t : Nat) : Decidable (x.Pending t) :=
  inferInstanceAs (Decidable (_ ∨ _))

/-- The running thread can call `put` or `get`. -/
def Calls (x : Console) : Prop :=
  ∃ t, x.kernel.running = some t ∧ ¬ x.Pending t ∧ t ≠ e.putcThread ∧ t ≠ e.getcThread

/-- The next event fits the running thread: one that is in a call goes on with it, the console's
threads run their code and are preempted, and no other entry names a semaphore of the console. What
the kernel asks of its environment (`Kernel.Ok`) holds. -/
def Ok (x : Console) : Event → Prop
  | .entry en => x.kernel.Ok en ∧
    (∀ s ∈ [e.txFull, e.txBuff, e.rxBuff, e.rxEmpty, e.uartReceive, e.uartTransmit],
      ¬ en.Names s) ∧
    ∀ t, x.kernel.running = some t →
      ¬ x.Pending t ∧ (t = e.putcThread ∨ t = e.getcThread → en = .timer)
  | .interrupt => (∀ t, x.kernel.running = some t → ¬ x.Pending t) ∧
    x.kernel.Ok (.signal e.uartReceive) ∧ x.kernel.Ok (.signal e.uartTransmit)
  | .put _ node => x.Calls e ∧ x.kernel.Ok (.wait e.txBuff node)
  | .get node => x.Calls e ∧ x.kernel.Ok (.wait e.rxBuff node)
  | .resume => ∃ t, x.kernel.running = some t ∧ x.Pending t
  | .consoleput _ node => x.kernel.running = some e.putcThread ∧
    (x.putPc = .transmit → x.kernel.Ok (.wait e.uartTransmit node)) ∧
    (x.putPc = .take → x.kernel.Ok (.wait e.txFull node))
  | .consoleget _ _ node => x.kernel.running = some e.getcThread ∧
    (x.getPc = .receive → x.kernel.Ok (.wait e.uartReceive node)) ∧
    (x.getPc = .take → x.kernel.Ok (.wait e.rxEmpty node))

/-- The number of characters that have left the output ring: those sent, but the one before which the
head still stands. -/
def taken (x : Console) : Nat := x.sent.length - if x.putPc = .advance then 1 else 0

/-- The console after boot; the buffers hold what `kmalloc` has given. -/
def boot (kernel : Kernel) (input_buff output_buff : Nat → UInt8) : Console where
  kernel
  cons := ⟨input_buff, output_buff, 0, 0, 0, 0⟩
  putPc := .transmit
  getPc := .receive
  puts := []
  gets := []
  written := []
  sent := []
  read := []
  got := []

end Console

/-! ## `flush` -/

/-- Where `flush` stands: before its test; with one of the indices read, C++ leaves open which is
first; behind the loop. `count` records how many characters had left the ring when the head was read,
or had been put when the tail was read. -/
inductive FlushPc
  | test
  | head (i count : Nat)
  | tail (i count : Nat)
  | done

/-- The console while the main thread is in `flush`. -/
structure Flushing where
  console : Console
  pc : FlushPc

namespace Flushing

/-- `flush` reads an index, or something else happens. -/
inductive Event
  | outputHead
  | outputTail
  | other (ev : Console.Event)

/-- One step of `KernelConsole::flush`, or of the console. -/
def step (e : Boot) (f : Flushing) : Event → Option Flushing
  | .outputHead =>
    match f.pc with
    | .test => some { f with pc := .head f.console.cons.outpHead f.console.taken }
    | .tail i _ => some { f with pc := if f.console.cons.outpHead = i then .done else .test }
    | _ => none
  | .outputTail =>
    match f.pc with
    | .test => some { f with pc := .tail f.console.cons.outpTail f.console.written.length }
    | .head i _ => some { f with pc := if i = f.console.cons.outpTail then .done else .test }
    | _ => none
  | .other ev => (f.console.step e ev).map fun console => { f with console }

/-- The main thread calls `flush`; in the loop it is preempted, and calls nothing else. -/
def Ok (e : Boot) (f : Flushing) : Event → Prop
  | .outputHead => f.console.kernel.running = some e.mainThread
  | .outputTail => f.console.kernel.running = some e.mainThread
  | .other ev => f.console.Ok e ev ∧ (f.console.kernel.running = some e.mainThread →
      f.pc = .done ∨ ev = .interrupt ∨ ev = .entry .timer)

/-- Of the characters put before the tail is read, fewer than `MAX_SIZE` are behind the head that is
read. -/
def Short (f : Flushing) : Event → Prop
  | .outputHead => ∀ i count, f.pc = .tail i count → count < f.console.taken + maxSize
  | .outputTail => ∀ i count, f.pc = .head i count → f.console.written.length < count + maxSize
  | .other _ => True

end Flushing

end SlabKernel
