import SlabKernel.Threads.Model

/-!
# The abstract scheduler

`Sys` says what the thread part of the kernel is for: a ready queue, one queue of waiting threads
for each semaphore, and the sleeping threads with their time distances, all of them plain lists
of threads. The flags of the threads are those of the code (`TCB.unlinked`, a TCB without its
links). `Sys.step` is one kernel entry on the lists. `Refine.lean` connects it with `Kernel.step`.
-/

namespace SlabKernel

open Function (update)

/-- A TCB as the abstract scheduler sees it. -/
def TCB.unlinked (t : TCB) : TCB := { t with next := none, prev := none }

/-- The thread is requeued when it gives up the processor. -/
def TCB.runnable (t : TCB) : Bool := !t.finished && !t.blocked && !t.asleep

/-- The abstract scheduler. -/
structure Sys where
  tcb : Nat → TCB
  val : Nat → Int
  running : Ptr
  idle : Ptr
  ready : List Nat
  /-- The threads waiting on a semaphore, the oldest first. -/
  waiting : Nat → List Nat
  /-- The sleeping threads, each with its distance to the one before. -/
  sleeping : List (Nat × Nat)
  timeSliceCounter : Nat
  tcbs : List Nat
  sems : List Nat

namespace Sys

def modTcb (A : Sys) (t : Nat) (f : TCB → TCB) : Sys :=
  { A with tcb := update A.tcb t (f (A.tcb t)) }

def put (A : Sys) (t : Nat) : Sys := { A with ready := A.ready ++ [t] }

/-- The oldest ready thread runs. -/
def switch (A : Sys) : Sys :=
  match A.ready with
  | [] => { A with running := A.idle }
  | t :: ready => { A with running := some t, ready }

/-- The running thread is requeued if it can run. -/
def requeue (A : Sys) : Sys :=
  match A.running with
  | none => A
  | some t => if (A.tcb t).runnable then A.put t else A

def dispatch (A : Sys) : Sys := A.requeue.switch

def createThread (A : Sys) (t : Nat) (startRoutine arg stackSpace : Ptr) (id : Int)
    (start : Bool) : Sys :=
  let A := { A with tcbs := t :: A.tcbs }.modTcb t fun x =>
    { x with
      stack := if startRoutine.isSome then stackSpace else none
      fun_ := startRoutine
      funArg := arg
      pid := id }
  if startRoutine.isSome && start then (A.put t).modTcb t fun x => { x with started := true }
  else A

def startThread (A : Sys) (t : Nat) : Sys :=
  if (A.tcb t).started then A else (A.put t).modTcb t fun x => { x with started := true }

def createSem (A : Sys) (s : Nat) (init : Nat) : Sys :=
  { A with
    sems := s :: A.sems
    val := update A.val s (toInt32 init)
    waiting := update A.waiting s [] }

/-- The running thread joins the queue of `s`. -/
def park (A : Sys) (s : Nat) : Sys :=
  match A.running with
  | none => A
  | some t =>
    { A.modTcb t fun x => { x with blocked := true, holder := some s } with
      waiting := update A.waiting s (A.waiting s ++ [t])
      timeSliceCounter := 0 }

def wait (A : Sys) (s : Nat) : Sys :=
  let A := { A with val := update A.val s (toInt32 (A.val s - 1)) }
  if A.val s < 0 then (A.park s).dispatch else A

/-- The oldest thread in the queue of `s` becomes ready. -/
def deblock (A : Sys) (s : Nat) : Sys :=
  match A.waiting s with
  | [] => A
  | t :: rest =>
    ({ A with waiting := update A.waiting s rest }.modTcb t fun x =>
      { x with holder := none, blocked := false }).put t

def signal (A : Sys) (s : Nat) : Sys :=
  let val := A.val s
  let A := { A with val := update A.val s (toInt32 (A.val s + 1)) }
  if val < 0 then A.deblock s else A

/-- What the closing of a semaphore does to each waiting thread. -/
def release (A : Sys) (t : Nat) : Sys :=
  (A.modTcb t fun x => { x with close := 1, holder := none }).put t

def semClose (A : Sys) (s : Nat) : Sys :=
  { (A.waiting s).foldl release A with
    sems := A.sems.erase s
    val := update A.val s 0
    waiting := update A.waiting s [] }

/-- The insertion into the list of distances. -/
def insertSleep (t : Nat) : Nat → List (Nat × Nat) → List (Nat × Nat)
  | time, [] => [(t, time)]
  | time, (u, d) :: l =>
    if time < d then (t, time) :: (u, sub64 d time) :: l
    else (u, d) :: insertSleep t (sub64 time d) l

/-- The running thread joins the sleeping threads. -/
def lull (A : Sys) (time : Nat) : Sys :=
  match A.running with
  | none => A
  | some t =>
    { A.modTcb t fun x => { x with asleep := true } with
      sleeping := insertSleep t time A.sleeping }

def sleep (A : Sys) (time : Nat) : Sys := (A.lull time).dispatch

/-- The due threads in front of `l` become ready. -/
def wakeLoop (A : Sys) : List (Nat × Nat) → Sys
  | [] => { A with sleeping := [] }
  | (t, d) :: l =>
    if d = 0 then
      (({ A with sleeping := l }.modTcb t fun x => { x with asleep := false }).put t).wakeLoop l
    else { A with sleeping := (t, d) :: l }

def wake (A : Sys) : Sys :=
  match A.sleeping with
  | [] => A
  | (t, d) :: l => A.wakeLoop ((t, sub64 d 1) :: l)

/-- The running thread gives way when its time slice is used up. -/
def preempt (A : Sys) : Sys :=
  match A.running with
  | none => A
  | some t =>
    if A.timeSliceCounter ≥ (A.tcb t).timeSlice then { A with timeSliceCounter := 0 }.dispatch
    else A

def timer (A : Sys) : Sys :=
  { A with timeSliceCounter := (A.timeSliceCounter + 1) % 2 ^ 64 }.wake.preempt

def exit (A : Sys) : Sys :=
  match A.running with
  | none => A
  | some t => (A.modTcb t fun x => { x with finished := true }).dispatch

def threadDestroy (A : Sys) (t : Nat) : Sys :=
  { A with tcbs := A.tcbs.erase t }.modTcb t fun _ => TCB.ctor

/-- One kernel entry. -/
def step (A : Sys) : Entry → Sys
  | .createThread (some t) startRoutine arg stackSpace id start =>
    A.createThread t startRoutine arg stackSpace id start
  | .createThread none .. => A
  | .startThread (some t) => A.startThread t
  | .startThread none => A
  | .dispatch => { A with timeSliceCounter := 0 }.dispatch
  | .exit => A.exit
  | .timer => A.timer
  | .sleep time _ => A.sleep time
  | .semOpen (some s) init => A.createSem s init
  | .semOpen none _ => A
  | .wait s _ => A.wait s
  | .signal s => A.signal s
  | .semClose s => A.semClose s
  | .threadDestroy t => A.threadDestroy t

/-! ## Frames -/

@[simp] theorem createSem_sems (A : Sys) (s init : Nat) :
    (A.createSem s init).sems = s :: A.sems := rfl

@[simp] theorem createSem_ready (A : Sys) (s init : Nat) : (A.createSem s init).ready = A.ready :=
  rfl

@[simp] theorem createThread_ready (A : Sys) (t : Nat) (f arg stack : Ptr) (id : Int)
    (start : Bool) : (A.createThread t f arg stack id start).ready =
      if f.isSome && start then A.ready ++ [t] else A.ready := by
  unfold createThread
  simp only
  split <;> rfl

theorem createThread_tcb (A : Sys) (t : Nat) (f arg stack : Ptr) (id : Int) (start : Bool)
    (u : Nat) : (A.createThread t f arg stack id start).tcb u =
      if u = t then { A.tcb t with
        stack := if f.isSome then stack else none
        fun_ := f
        funArg := arg
        pid := id
        started := f.isSome && start || (A.tcb t).started }
      else A.tcb u := by
  by_cases hu : u = t
  · subst hu
    cases hf : f.isSome && start <;> simp [createThread, put, modTcb, hf]
  · cases hf : f.isSome && start <;> simp [createThread, put, modTcb, hf, hu]

/-! ## The effect of the loops -/

/-- The threads that are due at the front of `l`. -/
def due (l : List (Nat × Nat)) : List Nat := (l.takeWhile fun e => e.2 = 0).map Prod.fst

theorem due_cons (t : Nat) (l : List (Nat × Nat)) : due ((t, 0) :: l) = t :: due l := by
  simp [due]

theorem due_cons_of_ne {d : Nat} (t : Nat) (l : List (Nat × Nat)) (hd : d ≠ 0) :
    due ((t, d) :: l) = [] := by
  simp [due, hd]

theorem wakeLoop_eq (A : Sys) (l : List (Nat × Nat)) : A.wakeLoop l = { A with
    tcb := fun u => if u ∈ due l then { A.tcb u with asleep := false } else A.tcb u
    ready := A.ready ++ due l
    sleeping := l.dropWhile fun e => e.2 = 0 } := by
  induction l generalizing A with
  | nil => simp [wakeLoop, due]
  | cons e l ih =>
    obtain ⟨t, d⟩ := e
    unfold wakeLoop
    by_cases hd : d = 0
    · subst hd
      rw [if_pos rfl, ih, due_cons]
      simp only [put, modTcb, decide_true, List.dropWhile_cons_of_pos, List.append_assoc,
        List.singleton_append, List.mem_cons]
      congr 1
      funext u
      by_cases hu : u = t
      · subst hu
        by_cases hm : u ∈ due l <;> simp [hm]
      · by_cases hm : u ∈ due l <;> simp [hu, hm]
    · rw [if_neg hd, due_cons_of_ne t l hd]
      simp [hd]

theorem due_append (l : List (Nat × Nat)) :
    due l ++ (l.dropWhile fun e => e.2 = 0).map Prod.fst = l.map Prod.fst := by
  unfold due
  rw [← List.map_append, List.takeWhile_append_dropWhile]

/-- `wake` runs the loop on the sleeping threads, the first distance lowered. -/
theorem wake_eq (A : Sys) :
    ∃ l, A.wake = A.wakeLoop l ∧ l.map Prod.fst = A.sleeping.map Prod.fst := by
  unfold wake
  cases h : A.sleeping with
  | nil =>
    refine ⟨[], ?_, rfl⟩
    simp only [wakeLoop, ← h]
  | cons e l =>
    obtain ⟨t, d⟩ := e
    exact ⟨(t, sub64 d 1) :: l, rfl, by simp only [List.map_cons]⟩

theorem wake_running (A : Sys) : A.wake.running = A.running := by
  obtain ⟨l, hl, -⟩ := A.wake_eq
  rw [hl, wakeLoop_eq]

/-- `wake` moves threads from the sleeping to the ready ones. -/
theorem wake_places (A : Sys) :
    A.wake.ready ++ A.wake.sleeping.map Prod.fst = A.ready ++ A.sleeping.map Prod.fst := by
  obtain ⟨l, hl, hfst⟩ := A.wake_eq
  rw [hl, wakeLoop_eq, ← hfst]
  simp only [List.append_assoc, due_append]

theorem release_foldl (A : Sys) (ts : List Nat) : ts.foldl release A = { A with
    tcb := fun u => if u ∈ ts then { A.tcb u with close := 1, holder := none } else A.tcb u
    ready := A.ready ++ ts } := by
  induction ts generalizing A with
  | nil => simp
  | cons t ts ih =>
    rw [List.foldl_cons, ih]
    simp only [release, put, modTcb, List.append_assoc, List.singleton_append, List.mem_cons]
    congr 1
    funext u
    by_cases hu : u = t
    · subst hu
      by_cases hm : u ∈ ts <;> simp [hm]
    · by_cases hm : u ∈ ts <;> simp [hu, hm]

end Sys

end SlabKernel
