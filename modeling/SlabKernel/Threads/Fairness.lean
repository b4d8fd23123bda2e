import SlabKernel.Lib.RoundRobin
import SlabKernel.Threads.Runs

/-!
# No thread starves

The ready queue is served round robin. Every time slice is `DEFAULT_TIME_SLICE` = 2 ticks
(`Sys.Sliced`), and each entry lets threads join the queue at its end or runs its first thread
(`Sys.step_turn`). So a ready thread with `n` threads before it runs after at most `2 * (n + 1)`
timer interrupts, whatever the threads do meanwhile (`ready_thread_runs`).
-/

namespace SlabKernel

open Function (update update_self update_of_ne)
open PtrList Runs

namespace Sys

variable {A : Sys} {t s : Nat}

/-- Every thread has the default time slice, which is not used up. -/
def Sliced (A : Sys) : Prop := (∀ t, (A.tcb t).timeSlice = 2) ∧ A.timeSliceCounter < 2

/-- The entry leads from `A` to `A'` as in a round robin, with the ticks counted. -/
def Turned (A A' : Sys) (tick : Bool) : Prop :=
  A'.Sliced ∧ Turn A.ready A'.ready A.timeSliceCounter A'.timeSliceCounter tick
    fun u => A'.running = some u

/-- Threads join the queue, or none does. -/
theorem Sliced.joined {A' : Sys} (h : A.Sliced) (hslice : ∀ u, (A'.tcb u).timeSlice = 2)
    (hready : A.ready <+: A'.ready) (hc : A'.timeSliceCounter = A.timeSliceCounter) :
    A.Turned A' false :=
  ⟨⟨hslice, hc ▸ h.2⟩, .inl ⟨hready, hc⟩⟩

theorem Sliced.modTcb (h : A.Sliced) (t : Nat) {f : TCB → TCB}
    (hf : ∀ x, (f x).timeSlice = x.timeSlice) : (A.modTcb t f).Sliced := by
  refine ⟨fun u => ?_, h.2⟩
  by_cases hu : u = t
  · subst hu
    simp only [Sys.modTcb, update_self, hf, h.1]
  · simp only [Sys.modTcb, update_of_ne hu, h.1]

/-- A dispatch runs the first ready thread. -/
theorem Sliced.dispatch (h : A.Sliced) : A.dispatch.Sliced ∧
    ∀ a rest, A.ready = a :: rest → A.dispatch.running = some a ∧ rest <+: A.dispatch.ready := by
  have hreq : A.requeue.tcb = A.tcb ∧ A.requeue.timeSliceCounter = A.timeSliceCounter ∧
      A.ready <+: A.requeue.ready := by
    unfold requeue
    split
    · exact ⟨rfl, rfl, List.prefix_rfl⟩
    · split
      · exact ⟨rfl, rfl, List.prefix_append _ _⟩
      · exact ⟨rfl, rfl, List.prefix_rfl⟩
  obtain ⟨htcb, hc, hpre⟩ := hreq
  unfold Sys.dispatch switch
  cases hr : A.requeue.ready with
  | nil =>
    refine ⟨⟨htcb ▸ h.1, hc ▸ h.2⟩, fun a rest ha => ?_⟩
    rw [hr, ha] at hpre
    exact absurd (List.prefix_nil.1 hpre) (List.cons_ne_nil _ _)
  | cons b ready =>
    refine ⟨⟨htcb ▸ h.1, hc ▸ h.2⟩, fun a rest ha => ?_⟩
    rw [hr, ha, List.cons_prefix_cons] at hpre
    exact ⟨congrArg some hpre.1.symm, hpre.2⟩

/-- An entry that ends with a dispatch. -/
theorem Sliced.turned {B : Sys} {tick : Bool} (h : B.Sliced) (hready : A.ready <+: B.ready) :
    A.Turned B.dispatch tick := by
  obtain ⟨hs, hserve⟩ := h.dispatch
  refine ⟨hs, .inr fun a rest ha => ?_⟩
  obtain ⟨t, ht⟩ := hready
  rw [ha, List.cons_append] at ht
  obtain ⟨hrun, hpre⟩ := hserve a (rest ++ t) ht.symm
  exact ⟨hrun, (List.prefix_append rest t).trans hpre⟩

theorem Sliced.createThread (h : A.Sliced) (t : Nat) (f arg stack : Ptr) (id : Int)
    (start : Bool) : A.Turned (A.createThread t f arg stack id start) false := by
  refine h.joined (fun u => ?_) ?_ ?_
  · rw [createThread_tcb]
    split
    · exact h.1 t
    · exact h.1 u
  · rw [createThread_ready]
    split
    · exact List.prefix_append _ _
    · exact List.prefix_rfl
  · unfold Sys.createThread
    simp only
    split
    · rfl
    · rfl

theorem Sliced.startThread (h : A.Sliced) (t : Nat) : A.Turned (A.startThread t) false := by
  unfold Sys.startThread
  split
  · exact h.joined h.1 List.prefix_rfl rfl
  · exact h.joined (h.modTcb (f := fun x => { x with started := true }) t fun _ => rfl).1
      (List.prefix_append _ _) rfl

theorem Sliced.exit (h : A.Sliced) (hst : A.Stable) : A.Turned A.exit false := by
  obtain ⟨t, hrun, -⟩ := hst
  unfold Sys.exit
  rw [hrun]
  exact (h.modTcb t (f := fun x => { x with finished := true }) fun _ => rfl).turned
    List.prefix_rfl

theorem Sliced.sleep (h : A.Sliced) (hst : A.Stable) (time : Nat) :
    A.Turned (A.sleep time) false := by
  obtain ⟨t, hrun, -⟩ := hst
  unfold Sys.sleep lull
  rw [hrun]
  have hs := h.modTcb t (f := fun x => { x with asleep := true }) fun _ => rfl
  exact Sliced.turned (B := { A.modTcb t fun x => { x with asleep := true } with
    sleeping := insertSleep t time A.sleeping }) hs List.prefix_rfl

/-- A caller that blocks gives way to the first ready thread. -/
theorem Sliced.wait (h : A.Sliced) (hst : A.Stable) (s : Nat) : A.Turned (A.wait s) false := by
  obtain ⟨t, hrun, -⟩ := hst
  unfold Sys.wait
  simp only
  split
  · unfold park
    simp only [hrun]
    have hs := h.modTcb t (f := fun x => { x with blocked := true, holder := some s }) fun _ => rfl
    refine Sliced.turned ⟨hs.1, ?_⟩ List.prefix_rfl
    exact Nat.zero_lt_two
  · exact h.joined h.1 List.prefix_rfl rfl

theorem Sliced.signal (h : A.Sliced) (s : Nat) : A.Turned (A.signal s) false := by
  unfold Sys.signal
  simp only
  split
  · unfold deblock
    simp only
    split
    · exact h.joined h.1 List.prefix_rfl rfl
    · rename_i t rest _
      exact h.joined (h.modTcb t (f := fun x => { x with holder := none, blocked := false })
        fun _ => rfl).1 (List.prefix_append _ _) rfl
  · exact h.joined h.1 List.prefix_rfl rfl

theorem Sliced.semClose (h : A.Sliced) (s : Nat) : A.Turned (A.semClose s) false := by
  unfold Sys.semClose
  rw [release_foldl]
  refine h.joined (fun u => ?_) (List.prefix_append _ _) rfl
  simp only
  split
  · exact h.1 u
  · exact h.1 u

/-- The second tick of a time slice is a dispatch. -/
theorem Sliced.timer (h : A.Sliced) (hst : A.Stable) : A.Turned A.timer true := by
  obtain ⟨t, hrun, -⟩ := hst
  have hlt := h.2
  let A₀ : Sys := { A with timeSliceCounter := A.timeSliceCounter + 1 }
  have hA₀ : A.timer = A₀.wake.preempt := by
    unfold Sys.timer
    rw [Nat.mod_eq_of_lt (by omega)]
  obtain ⟨l, hl, -⟩ := A₀.wake_eq
  have hslice : ∀ u, (A₀.wake.tcb u).timeSlice = 2 := fun u => by
    rw [hl, wakeLoop_eq]
    simp only
    split
    · exact h.1 u
    · exact h.1 u
  have hready : A.ready <+: A₀.wake.ready := by
    rw [hl, wakeLoop_eq]
    exact List.prefix_append _ _
  have hc : A₀.wake.timeSliceCounter = A.timeSliceCounter + 1 := by
    rw [hl, wakeLoop_eq]
  have hpre : A₀.wake.preempt = if A₀.wake.timeSliceCounter ≥ (A₀.wake.tcb t).timeSlice then
      ({ A₀.wake with timeSliceCounter := 0 } : Sys).dispatch else A₀.wake := by
    have hrun' := A₀.wake_running.trans hrun
    unfold preempt
    split
    · rename_i hn
      rw [hn] at hrun'
      cases hrun'
    · rename_i u hu
      rw [hu, Option.some.injEq] at hrun'
      rw [hrun']
  rw [hA₀, hpre, hslice, hc]
  split
  · exact Sliced.turned (B := { A₀.wake with timeSliceCounter := 0 }) ⟨hslice, Nat.zero_lt_two⟩
      hready
  · rename_i hge
    exact ⟨⟨hslice, by rw [hc]; omega⟩, .inl ⟨hready, hc⟩⟩

end Sys

/-! ## Runs -/

/-- The timer interrupts. -/
def Entry.isTimer : Entry → Bool
  | .timer => true
  | _ => false

variable {k k' : Kernel} {A : Sys}

/-- Each entry is a turn of the round robin. -/
theorem Sys.step_turn {e : Entry} (h : A.Sliced) (hst : A.Stable) :
    A.Turned (A.step e) e.isTimer := by
  have hidle : A.Turned A false := h.joined h.1 List.prefix_rfl rfl
  cases e with
  | createThread thread startRoutine arg stackSpace id start =>
    cases thread with
    | none => exact hidle
    | some t => exact h.createThread t startRoutine arg stackSpace id start
  | startThread handle =>
    cases handle with
    | none => exact hidle
    | some t => exact h.startThread t
  | dispatch =>
    exact Sliced.turned (B := { A with timeSliceCounter := 0 }) ⟨h.1, Nat.zero_lt_two⟩
      List.prefix_rfl
  | exit => exact h.exit hst
  | timer => exact h.timer hst
  | sleep time node => exact h.sleep hst time
  | semOpen semaphore init =>
    cases semaphore with
    | none => exact hidle
    | some s => exact h.joined h.1 List.prefix_rfl rfl
  | wait s node => exact h.wait hst s
  | signal s => exact h.signal s
  | semClose s => exact h.semClose s
  | threadDestroy t =>
    refine h.joined (fun u => ?_) List.prefix_rfl rfl
    by_cases hu : u = t
    · subst hu
      simp only [step, threadDestroy, modTcb, update_self]
      rfl
    · simp only [step, threadDestroy, modTcb, update_of_ne hu]
      exact h.1 u

/-- The kernel represents a scheduler that serves the queue `R`. -/
def Serves (k : Kernel) (R : List Nat) : Prop :=
  ∃ A, Rep k A ∧ A.Stable ∧ A.Sliced ∧ A.ready = R

theorem Serves.step {e : Entry} {R : List Nat} (h : Serves k R) (hok : k.Ok e)
    (hs : k.step e = some k') : ∃ R', Serves k' R' ∧
      Turn R R' k.timeSliceCounter k'.timeSliceCounter e.isTimer fun t => k'.running = some t := by
  obtain ⟨A, hr, hst, hsl, rfl⟩ := h
  obtain ⟨k'', he, hr', hst'⟩ := step_rep hr hst hok
  rw [hs, Option.some.injEq] at he
  subst he
  obtain ⟨hsl', hturn⟩ := Sys.step_turn hsl hst (e := e)
  rw [hr.counter, hr'.counter, hr'.running]
  exact ⟨_, ⟨_, hr', hst', hsl', rfl⟩, hturn⟩

theorem Serves.run {es : List Entry} {R : List Nat} (h : Serves k R)
    (hrun : Run Kernel.Ok Kernel.step k es k') : ∃ R', Serves k' R' := by
  refine hrun.inv (fun k => ∃ R, Serves k R) (fun k e k' ⟨R, hk⟩ hok he => ?_) ⟨R, h⟩
  obtain ⟨R', hk', -⟩ := hk.step hok he
  exact ⟨R', hk'⟩

theorem Boot.serves {e : Boot} {k₀ : Kernel} (h : e.Ok) (hboot : e.kernel = some k₀) :
    ∃ R, Serves k₀ R := by
  obtain ⟨k, hk, hr⟩ := Boot.rep h
  rw [hboot, Option.some.injEq] at hk
  subst hk
  refine ⟨_, e.sys, hr, Boot.stable h, ⟨fun t => ?_, Nat.zero_lt_two⟩, rfl⟩
  simp [Boot.sys, Sys.createThread_tcb, Sys.createSem, Sys.reset, TCB.ctor]
  grind

/-- **No thread starves.** In every state of a run, a ready thread with `n` threads before it runs
before `2 * (n + 1)` ticks have passed since the last dispatch, in whatever way the run goes on:
threads may be created, start, wait, be released, sleep and exit at any time. -/
theorem ready_thread_runs {e : Boot} {k₀ : Kernel} {es es' : List Entry} {R : List Nat} {n t : Nat}
    (he : e.Ok) (hboot : e.kernel = some k₀) (hrun : Run Kernel.Ok Kernel.step k₀ es k)
    (hready : Linked (fun t => (k.tcb t).next) k.head R) (ht : R[n]? = some t)
    (hrun' : Run Kernel.Ok Kernel.step k es' k')
    (hticks : 2 * (n + 1) ≤ k.timeSliceCounter + es'.countP Entry.isTimer) :
    ∃ es₁ es₂ k₁, es' = es₁ ++ es₂ ∧ Run Kernel.Ok Kernel.step k es₁ k₁ ∧
      k₁.running = some t ∧ Run Kernel.Ok Kernel.step k₁ es₂ k' := by
  obtain ⟨R₀, h₀⟩ := Boot.serves he hboot
  obtain ⟨R', h⟩ := h₀.run hrun
  obtain rfl : R' = R := by
    obtain ⟨A, hr, -, -, rfl⟩ := id h
    exact Linked.unique hr.ready.linked hready
  refine Run.served (P := Serves) Kernel.timeSliceCounter (fun k t => k.running = some t)
    (fun k R hk => ?_) (fun k e k' R hk hok hs => hk.step hok hs) hrun' h ht hticks
  obtain ⟨A, hr, -, hsl, -⟩ := hk
  exact hr.counter ▸ hsl.2

/-- After boot `getcThread` is the second ready thread; `putcThread` runs before it, and waits. -/
theorem ready_thread_runs_boot128 : ∃ k₀ k', boot128.kernel = some k₀ ∧
    Run Kernel.Ok Kernel.step k₀ [.timer, .timer, .wait 1 (some 0x87009000), .timer, .timer] k' ∧
    ∃ es₁ es₂ k₁, [.timer, .timer, .wait 1 (some 0x87009000), .timer, .timer] = es₁ ++ es₂ ∧
      Run Kernel.Ok Kernel.step k₀ es₁ k₁ ∧ k₁.running = some 0x87001000 ∧
      Run Kernel.Ok Kernel.step k₁ es₂ k' := by
  obtain ⟨k₀, k', hboot, hrun, hc⟩ : ∃ k₀ k', boot128.kernel = some k₀ ∧
      Run Kernel.Ok Kernel.step k₀ [.timer, .timer, .wait 1 (some 0x87009000), .timer, .timer] k' ∧
      k₀.timeSliceCounter = 0 := by
    refine ⟨_, _, rfl, .cons trivial rfl (.cons trivial rfl (.cons ?_ rfl (.cons trivial rfl
      (.cons trivial rfl .nil)))), rfl⟩
    exact ⟨by decide, by decide, _, rfl, by decide⟩
  obtain ⟨k, hk, hr⟩ := Boot.rep boot128_ok
  rw [hboot, Option.some.injEq] at hk
  subst hk
  exact ⟨k₀, k', hboot, hrun, ready_thread_runs boot128_ok hboot .nil hr.ready.linked
    (n := 1) rfl hrun (by rw [hc]; decide)⟩

end SlabKernel
