import SlabKernel.Threads.Objects

/-!
# Who gives up the processor

`Kernel.Switches k e`: the entry `e` calls `TCB::dispatch`, so that it ends in a context switch.
Without it the thread keeps the processor (`step_running`); with it the next thread is a live one.
No entry but the creation of a thread and its destruction changes a thread's stack (`step_stack`).
-/

namespace SlabKernel

open Function (update update_self update_of_ne)

/-- The entry reaches `TCB::dispatch`. -/
def Kernel.Switches (k : Kernel) : Entry → Prop
  | .dispatch | .exit | .sleep _ _ => True
  | .timer => ∀ t, k.running = some t → (k.tcb t).timeSlice ≤ (k.timeSliceCounter + 1) % 2 ^ 64
  | .wait s _ => k.Blocks s
  | _ => False

instance (k : Kernel) : (e : Entry) → Decidable (k.Switches e)
  | .dispatch | .exit | .sleep _ _ => inferInstanceAs (Decidable True)
  | .timer => inferInstanceAs (Decidable (∀ t, _ = some t → _ ≤ _))
  | .wait s _ => inferInstanceAs (Decidable (k.Blocks s))
  | .createThread .. | .startThread _ | .semOpen .. | .signal _ | .semClose _ | .threadDestroy _ =>
    inferInstanceAs (Decidable False)

/-- The entry makes or ends the thread. -/
def Entry.Owns (t : Nat) : Entry → Prop
  | .createThread thread _ _ _ _ _ => thread = some t
  | .threadDestroy u => u = t
  | _ => False

namespace Sys

variable {A : Sys} {t s : Nat} {e : Entry}

theorem modTcb_stack (A : Sys) (u : Nat) {f : TCB → TCB} (hf : ∀ x, (f x).stack = x.stack) (t : Nat) :
    ((A.modTcb u f).tcb t).stack = (A.tcb t).stack := by
  unfold modTcb
  by_cases ht : t = u
  · subst ht
    simp only [update_self, hf]
  · simp only [update_of_ne ht]

theorem dispatch_tcb (A : Sys) : A.dispatch.tcb = A.tcb := by
  have hreq : A.requeue.tcb = A.tcb := by
    unfold requeue
    split
    · rfl
    · split <;> rfl
  unfold dispatch switch
  split <;> exact hreq

theorem wake_tcb (A : Sys) (t : Nat) : (A.wake.tcb t).stack = (A.tcb t).stack ∧
    (A.wake.tcb t).timeSlice = (A.tcb t).timeSlice := by
  obtain ⟨l, hl, -⟩ := A.wake_eq
  rw [hl, wakeLoop_eq]
  dsimp only
  split <;> exact ⟨rfl, rfl⟩

theorem wake_counter (A : Sys) : A.wake.timeSliceCounter = A.timeSliceCounter := by
  obtain ⟨l, hl, -⟩ := A.wake_eq
  rw [hl, wakeLoop_eq]

/-- The stack of a thread stays, unless the entry makes or ends the thread. -/
theorem step_stack (A : Sys) (he : ¬ e.Owns t) : ((A.step e).tcb t).stack = (A.tcb t).stack := by
  cases e with
  | createThread thread f arg stack id start =>
    cases thread with
    | none => rfl
    | some u =>
      have hne : t ≠ u := fun h => he (congrArg some h.symm)
      change ((A.createThread u f arg stack id start).tcb t).stack = _
      rw [createThread_tcb, if_neg hne]
  | startThread handle =>
    cases handle with
    | none => rfl
    | some u =>
      change ((A.startThread u).tcb t).stack = _
      unfold startThread
      split
      · rfl
      · exact (A.put u).modTcb_stack u (f := fun x => { x with started := true }) (fun _ => rfl) t
  | dispatch =>
    change ((dispatch _).tcb t).stack = _
    rw [dispatch_tcb]
  | exit =>
    change (A.exit.tcb t).stack = _
    unfold exit
    split
    · rfl
    · next u _ =>
      rw [dispatch_tcb]
      exact A.modTcb_stack u (f := fun x => { x with finished := true }) (fun _ => rfl) t
  | timer =>
    change (A.timer.tcb t).stack = _
    unfold timer preempt
    split
    · exact (wake_tcb _ t).1
    · split
      · rw [dispatch_tcb]
        exact (wake_tcb _ t).1
      · exact (wake_tcb _ t).1
  | sleep time node =>
    change ((A.sleep time).tcb t).stack = _
    unfold sleep
    rw [dispatch_tcb]
    unfold lull
    split
    · rfl
    · next u _ => exact A.modTcb_stack u (f := fun x => { x with asleep := true }) (fun _ => rfl) t
  | semOpen semaphore init => cases semaphore <;> rfl
  | wait s node =>
    change ((A.wait s).tcb t).stack = _
    unfold wait
    dsimp only
    split
    · rw [dispatch_tcb]
      unfold park
      split
      · rfl
      · next u _ =>
        exact modTcb_stack _ u (f := fun x => { x with blocked := true, holder := some s })
          (fun _ => rfl) t
    · rfl
  | signal s =>
    change ((A.signal s).tcb t).stack = _
    unfold signal deblock
    dsimp only
    split
    · split
      · rfl
      · next u rest _ =>
        exact modTcb_stack _ u (f := fun x => { x with holder := none, blocked := false })
          (fun _ => rfl) t
    · rfl
  | semClose s =>
    change ((A.semClose s).tcb t).stack = _
    unfold semClose
    rw [release_foldl]
    dsimp only
    split <;> rfl
  | threadDestroy u =>
    have hne : t ≠ u := fun h => he h.symm
    change ((A.threadDestroy u).tcb t).stack = _
    unfold threadDestroy modTcb
    simp only [update_of_ne hne]

/-- The thread that an entry makes has the stack that is given to it. -/
theorem step_created (A : Sys) (f arg stack : Ptr) (id : Int) (start : Bool) :
    ((A.step (.createThread (some t) f arg stack id start)).tcb t).stack =
      if f.isSome then stack else none := by
  change ((A.createThread t f arg stack id start).tcb t).stack = _
  rw [createThread_tcb, if_pos rfl]

end Sys

variable {k k' : Kernel} {A : Sys} {t s : Nat} {e : Entry}

/-- An entry that reaches no dispatch leaves the processor to the running thread. -/
theorem step_running (h : Rep k A) (hn : ¬ k.Switches e) : (A.step e).running = A.running := by
  cases e with
  | createThread thread f arg stack id start =>
    cases thread with
    | none => rfl
    | some u =>
      change (A.createThread u f arg stack id start).running = _
      unfold Sys.createThread
      dsimp only
      split <;> rfl
  | startThread handle =>
    cases handle with
    | none => rfl
    | some u =>
      change (A.startThread u).running = _
      unfold Sys.startThread
      split <;> rfl
  | dispatch | exit | sleep time node => exact absurd trivial hn
  | timer =>
    have hrun := Sys.wake_running { A with timeSliceCounter := (A.timeSliceCounter + 1) % 2 ^ 64 }
    change A.timer.running = _
    unfold Sys.timer Sys.preempt
    split
    · exact hrun
    · next t ht =>
      rw [hrun] at ht
      rw [if_neg]
      · exact hrun
      · rw [(Sys.wake_tcb _ t).2, Sys.wake_counter]
        intro hge
        refine hn fun u hu => ?_
        rw [h.running, ht, Option.some.injEq] at hu
        subst hu
        have htcb := congrArg TCB.timeSlice (h.tcb t)
        have htime : (k.tcb t).timeSlice = (A.tcb t).timeSlice := htcb
        rw [h.counter, htime]
        exact hge
  | semOpen semaphore init => cases semaphore <;> rfl
  | wait s node =>
    change (A.wait s).running = _
    unfold Sys.wait
    dsimp only
    rw [if_neg]
    rw [update_self, ← h.val]
    exact hn
  | signal s =>
    change (A.signal s).running = _
    unfold Sys.signal Sys.deblock
    dsimp only
    split
    · split <;> rfl
    · rfl
  | semClose s =>
    change (A.semClose s).running = _
    unfold Sys.semClose
    rw [Sys.release_foldl]
  | threadDestroy u => rfl

theorem Rep.stack (h : Rep k A) (t : Nat) : (k.tcb t).stack = (A.tcb t).stack :=
  (congrArg TCB.stack (h.tcb t) :)

/-- The stack of a new thread. -/
theorem created_stack {f arg stack : Ptr} {id : Int} {start : Bool} (h : Rep k A) (hst : A.Stable)
    (hok : k.Ok (.createThread (some t) f arg stack id start))
    (hs : k.step (.createThread (some t) f arg stack id start) = some k') :
    (k'.tcb t).stack = stack := by
  obtain ⟨k'', hs', h', -⟩ := step_rep h hst hok
  obtain rfl := Option.some.inj (hs'.symm.trans hs)
  have hsome : f.isSome = true := Option.isSome_iff_ne_none.2 hok.2.1
  rw [h'.stack]
  exact (A.step_created f arg stack id start).trans (if_pos hsome)

/-- What an entry does to the running thread, to the stacks, and to the live threads. -/
theorem step_switches (h : Rep k A) (hst : A.Stable) (hok : k.Ok e) (hs : k.step e = some k') :
    (∃ t, k'.running = some t ∧ t ∈ k'.tcbs) ∧
    (¬ k.Switches e → k'.running = k.running) ∧
    ∀ t, ¬ e.Owns t → (k'.tcb t).stack = (k.tcb t).stack := by
  obtain ⟨k'', hs', h', hst'⟩ := step_rep h hst hok
  obtain rfl := Option.some.inj (hs'.symm.trans hs)
  refine ⟨?_, fun hn => ?_, fun t ht => ?_⟩
  · obtain ⟨t, ht, hi⟩ := hst'
    refine ⟨t, h'.running.trans ht, ?_⟩
    rw [h'.tcbs]
    exact hi.live t (.head _)
  · rw [h'.running, h.running, step_running h hn]
  · rw [h'.stack, h.stack, A.step_stack ht]

end SlabKernel
