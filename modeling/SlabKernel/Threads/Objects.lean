import SlabKernel.Threads.Runs

/-!
# The objects of the kernel

The thread part of the kernel keeps objects of four kinds, each in a cache of its own. An entry takes
the objects that it is given (`Entry.taken`) and gives others back (`Kernel.freed`); what else it does
leaves the objects alone (`step_objects`).
-/

namespace SlabKernel

open PtrList

/-- The kinds of objects, by the caches `TCB::cacheTCB`, `KernelSem::cacheSem`,
`KernelSem::cacheBlocked` and `Sleeping::cacheSleep`. -/
inductive ObjectKind
  | tcb
  | sem
  | blocked
  | sleep
  deriving DecidableEq

def Kernel.objects (k : Kernel) : ObjectKind → List Nat
  | .tcb => k.tcbs
  | .sem => k.sems
  | .blocked => k.nodes
  | .sleep => k.sleeps

/-- The nodes that `Sleeping::remove` gives back: those in front whose time is over. -/
def Sleeping.due (sleepQueue : Nat → SleepQueue) : Nat → Ptr → List Nat
  | _, none => []
  | 0, some _ => []
  | fuel + 1, some curr =>
    if (sleepQueue curr).time = 0 then curr :: due sleepQueue fuel (sleepQueue curr).next else []

/-- The nodes that `semDtor` gives back. -/
def KernelSem.blockedNodes (blockedQueue : Nat → BlockedQueue) : Nat → Ptr → List Nat
  | _, none => []
  | 0, some _ => []
  | fuel + 1, some prev => prev :: blockedNodes blockedQueue fuel (blockedQueue prev).next

/-- The entry lets the running thread wait. -/
def Kernel.Blocks (k : Kernel) (s : Nat) : Prop := toInt32 ((k.sem s).val - 1) < 0

instance (k : Kernel) (s : Nat) : Decidable (k.Blocks s) := inferInstanceAs (Decidable (_ < _))

/-- The objects that an entry makes of those allocated for it. -/
def Kernel.taken (k : Kernel) : Entry → ObjectKind → List Nat
  | .createThread thread _ _ _ _ _, .tcb => thread.toList
  | .semOpen semaphore _, .sem => semaphore.toList
  | .wait s node, .blocked => if k.Blocks s then node.toList else []
  | .sleep _ node, .sleep => node.toList
  | _, _ => []

/-- The objects that an entry gives back, in this order. -/
def Kernel.freed (k : Kernel) : Entry → ObjectKind → List Nat
  | .threadDestroy t, .tcb => [t]
  | .semClose s, .sem => [s]
  | .semClose s, .blocked => KernelSem.blockedNodes k.blockedQueue addrSpace (k.sem s).head
  | .signal s, .blocked => if (k.sem s).val < 0 then (k.sem s).head.toList else []
  | .timer, .sleep =>
    match k.sleepHead with
    | none => []
    | some head =>
      Sleeping.due (k.modSleep head fun x => { x with time := sub64 x.time 1 }).sleepQueue addrSpace
        k.sleepHead
  | _, _ => []

variable {k k' : Kernel} {s t : Nat}

/-- The two states differ in the TCBs, the ready queue, the running thread and its time. -/
def Kernel.Scheduled (k k' : Kernel) : Prop := ∃ tcb head tail running timeSliceCounter,
  k' = { k with tcb, head, tail, running, timeSliceCounter }

namespace Kernel.Scheduled

theorem refl (k : Kernel) : k.Scheduled k := ⟨_, _, _, _, _, rfl⟩

theorem trans {k₁ : Kernel} (h : k.Scheduled k₁) (h' : k₁.Scheduled k') : k.Scheduled k' := by
  obtain ⟨_, _, _, _, _, rfl⟩ := h
  obtain ⟨_, _, _, _, _, rfl⟩ := h'
  exact ⟨_, _, _, _, _, rfl⟩

theorem modTcb (k : Kernel) (t : Nat) (f : TCB → TCB) : k.Scheduled (k.modTcb t f) :=
  ⟨_, _, _, _, _, rfl⟩

theorem put {p : Ptr} (h : Scheduler.put k p = some k') : k.Scheduled k' := by
  cases p with
  | none => cases h
  | some t =>
    unfold Scheduler.put at h
    dsimp only at h
    split at h <;>
    · obtain rfl := Option.some.inj h
      exact ⟨_, _, _, _, _, rfl⟩

theorem get (k : Kernel) : k.Scheduled (Scheduler.get k).2 := by
  unfold Scheduler.get
  split
  · exact refl k
  · dsimp only
    split <;> exact ⟨_, _, _, _, _, rfl⟩

theorem dispatch (h : TCB.dispatch k = some k') : k.Scheduled k' := by
  obtain ⟨old, -, h⟩ := Option.bind_eq_some_iff.1 h
  have hend : ∀ k₁ : Kernel, ((Scheduler.get k₁).1.bind fun running =>
      some { (Scheduler.get k₁).2 with running := some running }) = some k' → k₁.Scheduled k' :=
    fun k₁ h => by
      obtain ⟨running, -, h⟩ := Option.bind_eq_some_iff.1 h
      obtain rfl := Option.some.inj h
      exact (get k₁).trans ⟨_, _, _, _, _, rfl⟩
  split at h
  · obtain ⟨k₁, hk₁, h⟩ := Option.bind_eq_some_iff.1 h
    exact (put hk₁).trans (hend k₁ h)
  · exact hend k h

/-- The scheduler leaves the objects alone. -/
theorem objects (h : k.Scheduled k') (c : ObjectKind) : k'.objects c = k.objects c := by
  obtain ⟨_, _, _, _, _, rfl⟩ := h
  cases c <;> rfl

end Kernel.Scheduled

/-! ## The loops -/

theorem removeLoop_objects {fuel : Nat} {curr : Ptr}
    (h : Sleeping.removeLoop fuel curr k = some k') (c : ObjectKind) :
    k'.objects c =
      (k.objects c).diff (if c = .sleep then Sleeping.due k.sleepQueue fuel curr else []) := by
  induction fuel generalizing curr k with
  | zero =>
    cases curr with
    | none =>
      obtain rfl := Option.some.inj h
      simp [Sleeping.due]
    | some curr => cases h
  | succ fuel ih =>
    cases curr with
    | none =>
      obtain rfl := Option.some.inj h
      simp [Sleeping.due]
    | some curr =>
      unfold Sleeping.removeLoop at h
      unfold Sleeping.due
      split at h
      · rename_i htime
        obtain ⟨k₁, hk₁, h⟩ := Option.bind_eq_some_iff.1 h
        obtain ⟨_, _, _, _, _, rfl⟩ := (Kernel.Scheduled.modTcb k _ _).trans (.put hk₁)
        rw [ih h, if_pos htime]
        cases c with
        | sleep => exact (List.diff_cons _ _ _).symm
        | _ => rfl
      · rename_i htime
        obtain rfl := Option.some.inj h
        simp [htime]

theorem semDtorLoop_objects {fuel : Nat} {curr : Ptr}
    (h : KernelSem.semDtorLoop fuel curr k = some k') (c : ObjectKind) :
    k'.objects c =
      (k.objects c).diff
        (if c = .blocked then KernelSem.blockedNodes k.blockedQueue fuel curr else []) := by
  induction fuel generalizing curr k with
  | zero =>
    cases curr with
    | none =>
      obtain rfl := Option.some.inj h
      simp [KernelSem.blockedNodes]
    | some curr => cases h
  | succ fuel ih =>
    cases curr with
    | none =>
      obtain rfl := Option.some.inj h
      simp [KernelSem.blockedNodes]
    | some prev =>
      unfold KernelSem.semDtorLoop at h
      unfold KernelSem.blockedNodes
      obtain ⟨k₁, hk₁, h⟩ := Option.bind_eq_some_iff.1 h
      obtain ⟨_, _, _, _, _, rfl⟩ := (Kernel.Scheduled.modTcb k _ _).trans (.put hk₁)
      rw [ih h]
      cases c with
      | blocked => exact (List.diff_cons _ _ _).symm
      | _ => rfl

theorem addLoop_objects {node fuel curr : Nat} (h : Sleeping.addLoop node fuel curr k = some k')
    (c : ObjectKind) : k'.objects c = k.objects c := by
  induction fuel generalizing curr k with
  | zero => cases h
  | succ fuel ih =>
    unfold Sleeping.addLoop at h
    split at h
    · obtain rfl := Option.some.inj h
      cases c <;> rfl
    · dsimp only at h
      split at h
      · obtain rfl := Option.some.inj h
        cases c <;> rfl
      · rw [ih h]
        cases c <;> rfl

theorem insertNode_objects {n : Nat} (h : Sleeping.insertNode k n = some k') (c : ObjectKind) :
    k'.objects c = k.objects c := by
  unfold Sleeping.insertNode at h
  split at h
  · obtain rfl := Option.some.inj h
    cases c <;> rfl
  · dsimp only at h
    split at h
    · obtain rfl := Option.some.inj h
      cases c <;> rfl
    · rw [addLoop_objects h]
      cases c <;> rfl

theorem remove_objects (k : Kernel) (s : Nat) (c : ObjectKind) :
    (KernelSem.remove k s).2.objects c =
      (k.objects c).diff (if c = .blocked then (k.sem s).head.toList else []) := by
  unfold KernelSem.remove
  split
  · rename_i hh
    simp [hh]
  · rename_i old hh
    dsimp only
    rw [hh]
    split <;>
    · cases c with
      | blocked => simp [Kernel.objects, KernelSem.deleteNode, Kernel.modSem, Kernel.modTcb]
      | _ => rfl

/-! ## The entries -/

/-- The objects after an entry. -/
theorem step_objects {e : Entry} (h : k.step e = some k') (c : ObjectKind) :
    k'.objects c = (k.taken e c ++ k.objects c).diff (k.freed e c) := by
  cases e with
  | createThread thread startRoutine arg stackSpace id start =>
    obtain ⟨⟨p, k₁⟩, hk₁, rfl⟩ := Option.map_eq_some_iff.1 h
    cases thread with
    | none =>
      obtain ⟨-, rfl⟩ := Prod.mk.inj (Option.some.inj hk₁)
      cases c <;> rfl
    | some t =>
      unfold TCB.createThread at hk₁
      dsimp only at hk₁
      split at hk₁
      · obtain ⟨k₂, hk₂, hk₁⟩ := Option.bind_eq_some_iff.1 hk₁
        obtain ⟨-, rfl⟩ := Prod.mk.inj (Option.some.inj hk₁)
        rw [((Kernel.Scheduled.put hk₂).trans (.modTcb _ _ _)).objects]
        cases c <;> rfl
      · obtain ⟨-, rfl⟩ := Prod.mk.inj (Option.some.inj hk₁)
        cases c <;> rfl
  | startThread handle =>
    obtain ⟨⟨r, k₁⟩, hk₁, rfl⟩ := Option.map_eq_some_iff.1 h
    have hs : k.Scheduled k₁ := by
      unfold TCB.startThread at hk₁
      split at hk₁
      · obtain ⟨-, rfl⟩ := Prod.mk.inj (Option.some.inj hk₁)
        exact .refl k
      · split at hk₁
        · obtain ⟨-, rfl⟩ := Prod.mk.inj (Option.some.inj hk₁)
          exact .refl k
        · obtain ⟨k₂, hk₂, hk₁⟩ := Option.bind_eq_some_iff.1 hk₁
          obtain ⟨-, rfl⟩ := Prod.mk.inj (Option.some.inj hk₁)
          exact (Kernel.Scheduled.put hk₂).trans (.modTcb _ _ _)
    exact hs.objects c
  | dispatch =>
    obtain ⟨_, _, _, _, _, rfl⟩ := Kernel.Scheduled.dispatch h
    cases c <;> rfl
  | exit =>
    have hs : k.Scheduled k' := by
      change TCB.suspend k = some k' at h
      unfold TCB.suspend at h
      split at h
      · obtain rfl := Option.some.inj h
        exact .refl k
      · exact (Kernel.Scheduled.modTcb k _ _).trans (.dispatch h)
    exact hs.objects c
  | timer =>
    obtain ⟨k₁, hk₁, h⟩ := Option.bind_eq_some_iff.1 h
    have hs : k₁.Scheduled k' := by
      obtain ⟨t, -, h⟩ := Option.bind_eq_some_iff.1 h
      split at h
      · obtain ⟨_, _, _, _, _, rfl⟩ := Kernel.Scheduled.dispatch h
        exact ⟨_, _, _, _, _, rfl⟩
      · obtain rfl := Option.some.inj h
        exact .refl k₁
    rw [hs.objects]
    unfold Sleeping.remove at hk₁
    dsimp only at hk₁
    cases hh : k.sleepHead with
    | none =>
      rw [hh] at hk₁
      obtain rfl := Option.some.inj hk₁
      cases c with
      | sleep => simp [Kernel.freed, Kernel.taken, Kernel.objects, hh]
      | _ => rfl
    | some head =>
      rw [hh] at hk₁
      rw [removeLoop_objects hk₁]
      cases c with
      | sleep => simp [Kernel.freed, Kernel.taken, Kernel.objects, Kernel.modSleep, hh]
      | _ => rfl
  | sleep time node =>
    obtain ⟨t, -, h⟩ := Option.bind_eq_some_iff.1 h
    obtain ⟨k₁, hk₁, h⟩ := Option.bind_eq_some_iff.1 h
    obtain ⟨n, hn, hk₁⟩ := Option.bind_eq_some_iff.1 hk₁
    obtain ⟨u, -, hk₁⟩ := Option.bind_eq_some_iff.1 hk₁
    rw [(Kernel.Scheduled.dispatch h).objects, insertNode_objects hk₁, hn]
    cases c <;> rfl
  | semOpen semaphore init =>
    obtain ⟨s, rfl, h⟩ := Option.bind_eq_some_iff.1 h
    obtain rfl := Option.some.inj h
    cases c <;> rfl
  | wait s node =>
    change KernelSem.wait k s node = some k' at h
    unfold KernelSem.wait at h
    simp only [Kernel.modSem, Function.update_self] at h
    split at h
    · rename_i hlt
      obtain ⟨t, -, h⟩ := Option.bind_eq_some_iff.1 h
      obtain ⟨k₁, hk₁, h⟩ := Option.bind_eq_some_iff.1 h
      obtain ⟨n, hn, hk₁⟩ := Option.bind_eq_some_iff.1 hk₁
      have hobj : k'.objects c = k₁.objects c := by
        obtain ⟨_, _, _, _, _, rfl⟩ := Kernel.Scheduled.dispatch h
        cases c <;> rfl
      rw [hobj, hn]
      have hb : k.Blocks s := hlt
      dsimp only at hk₁
      split at hk₁ <;>
      · obtain rfl := Option.some.inj hk₁
        cases c with
        | blocked => simp [Kernel.taken, Kernel.freed, hb, Kernel.objects, Kernel.modSem,
            Kernel.modBlocked, Kernel.modTcb]
        | _ => rfl
    · rename_i hlt
      obtain rfl := Option.some.inj h
      have hb : ¬ k.Blocks s := hlt
      cases c with
      | blocked => simp [Kernel.taken, Kernel.freed, hb, Kernel.objects]
      | _ => rfl
  | signal s =>
    change KernelSem.signal k s = some k' at h
    unfold KernelSem.signal at h
    dsimp only at h
    split at h
    · rename_i hlt
      refine ((Kernel.Scheduled.put h).objects c).trans ((remove_objects _ s c).trans ?_)
      simp only [Kernel.modSem, Function.update_self]
      cases c with
      | blocked => simp [Kernel.taken, Kernel.freed, hlt, Kernel.objects]
      | _ => rfl
    · rename_i hlt
      obtain rfl := Option.some.inj h
      cases c with
      | blocked => simp [Kernel.taken, Kernel.freed, hlt, Kernel.objects, Kernel.modSem]
      | _ => rfl
  | semClose s =>
    obtain ⟨k₁, hk₁, h⟩ := Option.bind_eq_some_iff.1 h
    obtain rfl := Option.some.inj h
    have hobj := semDtorLoop_objects hk₁
    cases c with
    | sem =>
      change k₁.sems.erase s = k.sems.diff [s]
      rw [List.diff_cons, List.diff_nil]
      exact congrArg (List.erase · s) (hobj .sem)
    | blocked => exact hobj .blocked
    | tcb => exact hobj .tcb
    | sleep => exact hobj .sleep
  | threadDestroy t =>
    obtain rfl := Option.some.inj h
    cases c with
    | tcb =>
      change k.tcbs.erase t = k.tcbs.diff [t]
      rw [List.diff_cons, List.diff_nil]
    | _ => rfl

end SlabKernel
