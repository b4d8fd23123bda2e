import SlabKernel.Threads.Runs

/-!
# Semaphores count

`Counted` runs the kernel and records, for each semaphore, the calls on it and the callers that have
passed. `sem_counting`: in every run in which no semaphore is closed, the value and the queue of a
semaphore are those of its record.
-/

namespace SlabKernel

open Function (update update_self update_of_ne update_eq_self)
open PtrList Runs Queues

/-! ## The record of a run -/

/-- The kernel, the calls on each semaphore, and the callers that have passed. -/
structure Counted where
  kernel : Kernel
  calls : Nat → History Nat
  passed : Nat → List Nat

namespace Counted

/-- The threads that a signal on `s` takes off the queue. -/
def released (k : Kernel) (s : Nat) : List Nat :=
  if (k.sem s).val < 0 then (KernelSem.remove k s).1.toList else []

/-- The record after the entry, which leads to `k'`. A caller of `wait` that keeps the processor has
passed. -/
def record (c : Counted) (k' : Kernel) (e : Entry) : Counted :=
  match e, c.kernel.running with
  | .semOpen (some s) init, _ => ⟨k', update c.calls s ⟨init, 0, []⟩, update c.passed s []⟩
  | .wait s _, some t => ⟨k', update c.calls s ((c.calls s).wait t),
    if k'.running = some t then update c.passed s (c.passed s ++ [t]) else c.passed⟩
  | .signal s, _ => ⟨k', update c.calls s (c.calls s).signal,
    update c.passed s (c.passed s ++ released c.kernel s)⟩
  | _, _ => { c with kernel := k' }

def step (c : Counted) (e : Entry) : Option Counted :=
  (c.kernel.step e).map fun k' => c.record k' e

/-- The environment closes no semaphore. -/
def Ok (c : Counted) (e : Entry) : Prop := c.kernel.Ok e ∧ ∀ s, e ≠ .semClose s

end Counted

/-! ## Frames -/

/-- The entry names no semaphore and destroys no thread. -/
def Entry.Schedules : Entry → Prop
  | .semOpen .. | .wait .. | .signal _ | .semClose _ | .threadDestroy _ => False
  | _ => True

namespace Sys

/-- What the other entries leave alone. -/
def semState (A : Sys) : List Nat × (Nat → Int) × (Nat → List Nat) := (A.sems, A.val, A.waiting)

/-- The semaphores, and what `wait` and its releases leave in the TCBs. -/
def marks (A : Sys) : (List Nat × (Nat → Int) × (Nat → List Nat)) × (Nat → Ptr × Int) :=
  (A.semState, fun t => ((A.tcb t).holder, (A.tcb t).close))

variable (A : Sys)

theorem marks_switch : A.switch.marks = A.marks := by
  unfold switch
  split
  · rfl
  · rfl

theorem marks_dispatch : A.dispatch.marks = A.marks := by
  unfold dispatch requeue
  rw [marks_switch]
  split
  · rfl
  · split
    · rfl
    · rfl

theorem marks_modTcb (t : Nat) {f : TCB → TCB}
    (hf : ∀ x, (f x).holder = x.holder ∧ (f x).close = x.close) :
    (A.modTcb t f).marks = A.marks := by
  unfold marks
  refine Prod.ext rfl ?_
  funext u
  by_cases hu : u = t
  · subst hu
    simp only [modTcb, update_self, hf]
  · simp only [modTcb, update_of_ne hu]

theorem marks_wake : A.wake.marks = A.marks := by
  obtain ⟨l, hl, -⟩ := A.wake_eq
  rw [hl, wakeLoop_eq]
  refine Prod.ext rfl ?_
  funext u
  simp only [marks]
  split
  · rfl
  · rfl

theorem marks_createThread (t : Nat) (startRoutine arg stackSpace : Ptr) (id : Int) (start : Bool) :
    (A.createThread t startRoutine arg stackSpace id start).marks = A.marks := by
  have hm := ({ A with tcbs := t :: A.tcbs } : Sys).marks_modTcb t (f := fun x =>
    { x with
      stack := if startRoutine.isSome then stackSpace else none
      fun_ := startRoutine
      funArg := arg
      pid := id }) fun _ => ⟨rfl, rfl⟩
  unfold createThread
  simp only
  split
  · refine Eq.trans ?_ hm
    exact marks_modTcb _ t (f := fun x => { x with started := true }) fun _ => ⟨rfl, rfl⟩
  · exact hm

theorem marks_timer : A.timer.marks = A.marks := by
  have hw := ({ A with timeSliceCounter := (A.timeSliceCounter + 1) % 2 ^ 64 } : Sys).marks_wake
  unfold timer preempt
  refine Eq.trans ?_ hw
  split
  · rfl
  · split
    · rw [marks_dispatch]
      rfl
    · rfl

/-- An entry that only schedules leaves the semaphores and the marks of the threads. -/
theorem step_marks {e : Entry} (he : e.Schedules) : (A.step e).marks = A.marks := by
  cases e with
  | createThread thread startRoutine arg stackSpace id start =>
    cases thread with
    | none => rfl
    | some t => exact A.marks_createThread t startRoutine arg stackSpace id start
  | startThread handle =>
    cases handle with
    | none => rfl
    | some t =>
      unfold step startThread
      simp only
      split
      · rfl
      · exact (A.put t).marks_modTcb t fun _ => ⟨rfl, rfl⟩
  | dispatch => exact marks_dispatch _
  | exit =>
    unfold step exit
    simp only
    split
    · rfl
    · exact (marks_dispatch _).trans (A.marks_modTcb _ fun _ => ⟨rfl, rfl⟩)
  | timer => exact A.marks_timer
  | sleep time node =>
    unfold step sleep lull
    simp only
    rw [marks_dispatch]
    split
    · rfl
    · rename_i t _
      have hm := A.marks_modTcb t (f := fun x => { x with asleep := true }) fun _ => ⟨rfl, rfl⟩
      exact hm
  | semOpen semaphore init => exact he.elim
  | wait s node => exact he.elim
  | signal s => exact he.elim
  | semClose s => exact he.elim
  | threadDestroy t => exact he.elim

theorem step_semState {e : Entry} (he : e.Schedules) : (A.step e).semState = A.semState :=
  congrArg Prod.fst (A.step_marks he)

end Sys

/-! ## The invariant -/

variable {c c' : Counted} {A A' : Sys} {k' : Kernel} {s t : Nat}

/-- `wait` lowers the value. The caller keeps the processor iff the count lets it pass, or it joins the
queue. -/
theorem Sys.Stable.wait_spec (h : A.Stable) (hst : (A.wait s).Stable) (hrun : A.running = some t)
    (hs : s ∈ A.sems) :
    (A.wait s).semState = (A.sems, update A.val s (A.val s - 1),
      if A.val s - 1 < 0 then update A.waiting s (A.waiting s ++ [t]) else A.waiting) ∧
    ((A.wait s).running = some t ↔ 0 ≤ A.val s - 1) := by
  obtain ⟨t', hrun', hinv⟩ := h
  rw [hrun, Option.some.injEq] at hrun'
  subst hrun'
  cases hinv.wait_cases hrun hs with
  | inl hb =>
    obtain ⟨hlt, he⟩ := hb
    have hsem := congrArg Prod.fst
      (Sys.marks_switch (({ A with val := update A.val s (A.val s - 1) } : Sys).park s))
    rw [← he] at hsem
    simp only [Sys.marks, Sys.semState, Sys.park, hrun, Sys.modTcb] at hsem
    refine ⟨by rw [if_pos hlt]; exact hsem, fun hk => ?_, fun hge => absurd hge (by omega)⟩
    -- the caller is in the queue
    obtain ⟨u, hu, hinv'⟩ := hst
    rw [hk, Option.some.injEq] at hu
    subst hu
    simp only [Prod.mk.injEq] at hsem
    obtain ⟨h1, -, h3⟩ := hsem
    refine absurd (Sys.mem_queued.2 (.inr (.inl ⟨s, h1 ▸ hs, ?_⟩))) hinv'.not_mem
    rw [h3]
    simp
  | inr hp =>
    obtain ⟨hge, he⟩ := hp
    rw [he, if_neg (by omega)]
    exact ⟨rfl, fun _ => hge, fun _ => hrun⟩

/-- `signal` raises the value, and the oldest waiting thread leaves the queue. -/
theorem Sys.Inv.signal_spec {r : List Nat} (h : A.Inv r) (hs : s ∈ A.sems)
    (hmax : A.val s < 2 ^ 31 - 1) : (A.signal s).semState =
      (A.sems, update A.val s (A.val s + 1), update A.waiting s (A.waiting s).tail) ∧
    (A.signal s).running = A.running := by
  cases h.signal_cases hs hmax with
  | inl hb =>
    obtain ⟨-, ⟨u, rest, hu⟩, he⟩ := hb
    rw [he]
    simp [Sys.deblock, hu, Sys.put, Sys.modTcb, Sys.semState]
  | inr hp =>
    obtain ⟨hge, he⟩ := hp
    have hnil : A.waiting s = [] := by
      have := h.val s hs
      exact List.eq_nil_of_length_eq_zero (by omega)
    rw [he, hnil, List.tail_nil, ← hnil, update_eq_self]
    exact ⟨rfl, rfl⟩

namespace Counted

/-- The scheduler's values and queues are those of the record. -/
structure Inv (c : Counted) (A : Sys) : Prop where
  rep : Rep c.kernel A
  stable : A.Stable
  val : ∀ s ∈ A.sems, A.val s = (c.calls s).value
  waiting : ∀ s ∈ A.sems, A.waiting s = (c.calls s).queue
  passed : ∀ s ∈ A.sems, c.passed s = (c.calls s).passed

theorem Inv.frame (h : Inv c A) (hr : Rep k' A') (hst : A'.Stable)
    (hs : A'.semState = A.semState) : Inv { c with kernel := k' } A' := by
  simp only [Sys.semState, Prod.mk.injEq] at hs
  obtain ⟨h1, h2, h3⟩ := hs
  exact ⟨hr, hst, by rw [h1, h2]; exact h.val, by rw [h1, h3]; exact h.waiting,
    by rw [h1]; exact h.passed⟩

/-- One semaphore's value, queue and record change together. -/
theorem Inv.set {H : History Nat} {P : List Nat} (h : Inv c A) (hr : Rep k' A') (hst : A'.Stable)
    (hs : A'.sems ⊆ s :: A.sems) (hval : A'.val = update A.val s H.value)
    (hwaiting : A'.waiting = update A.waiting s H.queue) (hP : P = H.passed) :
    Inv ⟨k', update c.calls s H, update c.passed s P⟩ A' := by
  refine ⟨hr, hst, fun u hu => ?_, fun u hu => ?_, fun u hu => ?_⟩
  all_goals
    by_cases hus : u = s
    · subst hus
      simp only [hval, hwaiting, update_self, hP]
    · have hu' := (List.mem_cons.1 (hs hu)).resolve_left hus
      simp only [hval, hwaiting, update_of_ne hus, h.val u hu', h.waiting u hu', h.passed u hu']

theorem Inv.semOpen {init : Nat} (h : Inv c A) (hr : Rep k' (A.createSem s init))
    (hst : (A.createSem s init).Stable) (hinit : init < 2 ^ 31) :
    Inv (c.record k' (.semOpen (some s) init)) (A.createSem s init) := by
  refine h.set hr hst (List.Subset.refl _) ?_ ?_ ?_
  · have hv : toInt32 init = init := toInt32_of_range (by omega) (by omega)
    simp [Sys.createSem, hv, History.value]
  · simp [Sys.createSem, History.queue]
  · simp [History.passed]

/-- The caller passes, or it joins the queue and loses the processor. -/
theorem Inv.wait {node : Ptr} (h : Inv c A) (hs : s ∈ A.sems) (hr : Rep k' (A.wait s))
    (hst : (A.wait s).Stable) : Inv (c.record k' (.wait s node)) (A.wait s) := by
  obtain ⟨t, hrun, -⟩ := h.stable
  have hv := h.val s hs
  have hw := h.waiting s hs
  have hp := h.passed s hs
  obtain ⟨hsem, hkeep⟩ := h.stable.wait_spec hst hrun hs
  simp only [Sys.semState, Prod.mk.injEq] at hsem
  obtain ⟨h1, h2, h3⟩ := hsem
  rw [← hr.running] at hkeep
  unfold record
  simp only [h.rep.running, hrun]
  by_cases hlt : A.val s - 1 < 0
  · rw [if_pos hlt] at h3
    have hset := h.set (s := s) (H := (c.calls s).wait t) (P := c.passed s) hr hst (h1 ▸ by simp)
      (by rw [h2, hv, History.value_wait])
      (by rw [h3, hw, History.queue_wait, if_pos (hv ▸ hlt)])
      (by rw [hp, History.passed_wait, if_pos (hv ▸ hlt)])
    rw [update_eq_self] at hset
    rwa [if_neg fun hk => absurd (hkeep.1 hk) (by omega)]
  · rw [if_neg hlt] at h3
    have hlt' : ¬ (c.calls s).value - 1 < 0 := hv ▸ hlt
    rw [if_pos (hkeep.2 (by omega))]
    refine h.set hr hst (by rw [h1]; simp) (by rw [h2, History.value_wait, hv]) ?_ ?_
    · rw [History.queue_wait, if_neg hlt', ← hw, update_eq_self, h3]
    · rw [History.passed_wait, if_neg hlt', hp]

/-- The oldest waiting caller passes. -/
theorem Inv.signal (h : Inv c A) (hs : s ∈ A.sems) (hmax : A.val s < 2 ^ 31 - 1)
    (hr : Rep k' (A.signal s)) (hst : (A.signal s).Stable) :
    Inv (c.record k' (.signal s)) (A.signal s) := by
  obtain ⟨t, -, hinv⟩ := h.stable
  have hv := h.val s hs
  have hw := h.waiting s hs
  have hvk : (c.kernel.sem s).val = A.val s := h.rep.val s
  obtain ⟨hsem, -⟩ := hinv.signal_spec hs hmax
  simp only [Sys.semState, Prod.mk.injEq] at hsem
  obtain ⟨h1, h2, h3⟩ := hsem
  -- the oldest waiting thread is released, if there is one
  have hrel : released c.kernel s = (A.waiting s).head?.toList := by
    unfold released
    rw [hvk]
    cases hinv.signal_cases hs hmax with
    | inl hb =>
      obtain ⟨hlt, ⟨u, rest, hu⟩, -⟩ := hb
      obtain ⟨k₁, hrem, -⟩ := remove_rep h.rep hs hu
      rw [if_pos hlt, hrem, hu]
      rfl
    | inr hp =>
      have := hinv.val s hs
      rw [if_neg (by omega), List.eq_nil_of_length_eq_zero (l := A.waiting s) (by omega)]
      rfl
  unfold record
  refine h.set hr hst (by rw [h1]; simp) (by rw [h2, History.value_signal, hv]) ?_ ?_
  · rw [h3, History.queue_signal, hw]
  · rw [hrel, History.passed_signal, h.passed s hs, hw]

theorem Inv.step {e : Entry} (h : Inv c A) (hok : c.Ok e) :
    ∃ c', c.step e = some c' ∧ Inv c' (A.step e) := by
  obtain ⟨k', hk, hr, hst⟩ := step_rep h.rep h.stable hok.1
  refine ⟨c.record k' e, by simp only [Counted.step, hk, Option.map_some], ?_⟩
  obtain ⟨hok, hopen⟩ := hok
  cases e with
  | createThread | startThread | dispatch | exit | timer | sleep =>
    exact h.frame hr hst (A.step_semState trivial)
  | semOpen semaphore init =>
    obtain ⟨-, hinit, s, rfl, -⟩ := hok
    exact h.semOpen hr hst hinit
  | wait s node =>
    obtain ⟨-, hs, -⟩ := hok
    exact h.wait (h.rep.sems ▸ hs) hr hst
  | signal s =>
    obtain ⟨hs, hmax⟩ := hok
    exact h.signal (h.rep.sems ▸ hs) (h.rep.val s ▸ hmax) hr hst
  | semClose s => exact absurd rfl (hopen s)
  | threadDestroy t => exact h.frame hr hst rfl

theorem Inv.run {es : List Entry} (h : ∃ A, Inv c A)
    (hrun : Run Counted.Ok Counted.step c es c') : ∃ A, Inv c' A := by
  refine hrun.inv (fun c => ∃ A, Inv c A) (fun c e c' ⟨A, hc⟩ hok he => ?_) h
  obtain ⟨c'', he', hc'⟩ := hc.step hok
  rw [he] at he'
  exact ⟨_, Option.some.inj he' ▸ hc'⟩

end Counted

/-! ## Boot -/

/-- The counts that `main` gives to the console's semaphores. -/
def Boot.calls (e : Boot) (s : Nat) : History Nat where
  init := if s = e.txBuff ∨ s = e.rxEmpty then 4096 else 0
  signals := 0
  callers := []

theorem Boot.sys_val {e : Boot} (h : e.Ok) : ∀ s ∈ e.sys.sems, e.sys.val s = (e.calls s).value := by
  have h0 : toInt32 0 = 0 := by decide
  have h4096 : toInt32 4096 = 4096 := by decide
  have hs := h.sems
  simp only [List.nodup_cons, List.mem_cons, List.not_mem_nil, not_or, or_false] at hs
  intro s hm
  simp only [Boot.sys_sems, List.mem_cons, List.not_mem_nil, or_false] at hm
  simp [Boot.sys, Sys.createThread, Sys.createSem, Sys.put, Sys.modTcb, Sys.reset,
    Function.update_apply, h0, h4096, Boot.calls, History.value]
  grind

theorem Boot.counted {e : Boot} {k₀ : Kernel} (h : e.Ok) (hboot : e.kernel = some k₀) :
    Counted.Inv ⟨k₀, e.calls, fun _ => []⟩ e.sys := by
  obtain ⟨k₀', hk, hr⟩ := Boot.rep h
  rw [hboot, Option.some.injEq] at hk
  subst hk
  refine ⟨hr, Boot.stable h, Boot.sys_val h, fun s _ => ?_, fun s _ => ?_⟩
  · rw [e.sys_waiting]
    simp [Boot.calls, History.queue]
  · simp [Boot.calls, History.passed]

/-! ## The result -/

/-- A signal on a semaphore with waiting threads makes the oldest one ready; on another one it moves
no thread. -/
theorem signal_lists {k : Kernel} (hr : Rep k A) (hst : A.Stable) (hs : s ∈ A.sems)
    (hmax : A.val s < 2 ^ 31 - 1) : ∃ k', KernelSem.signal k s = some k' ∧
      (A.val s < 0 → ∃ t rest, A.waiting s = t :: rest ∧
        Lists k' (A.ready ++ [t]) (update A.waiting s rest) (A.sleeping.map Prod.fst)) ∧
      (0 ≤ A.val s → Lists k' A.ready A.waiting (A.sleeping.map Prod.fst)) := by
  obtain ⟨t, hrun, hinv⟩ := hst
  obtain ⟨k', hk, hr'⟩ := signal_rep hr hs (hinv.waiting_cons hs)
  have hl := hr'.lists
  refine ⟨k', hk, ?_⟩
  rcases hinv.signal_cases hs hmax with ⟨hlt, ⟨u, rest, hu⟩, he⟩ | ⟨hge, he⟩
  · rw [he] at hl
    simp only [Sys.deblock, hu, Sys.put, Sys.modTcb] at hl
    exact ⟨fun _ => ⟨u, rest, hu, hl⟩, fun hge => absurd hge (by omega)⟩
  · rw [he] at hl
    exact ⟨fun hlt => absurd hlt (by omega), fun _ => hl⟩

/-- **Semaphores count, first come, first served.** In every state of a run without closing, for
every semaphore: its value is its initial value plus the signals minus the waits; no thread waits
unless the value is negative, and then as many distinct threads do; the callers of `wait` are those
that have passed, followed by the waiting ones, the oldest first; as many have passed as there were
counts. Every signal returns and releases the thread that waits longest, if there is one. -/
theorem sem_counting {e : Boot} {k₀ : Kernel} {es : List Entry} {c : Counted} (he : e.Ok)
    (hboot : e.kernel = some k₀)
    (hrun : Run Counted.Ok Counted.step ⟨k₀, e.calls, fun _ => []⟩ es c) :
    ∃ R W S, Lists c.kernel R W S ∧ ∀ s ∈ c.kernel.sems,
      (c.kernel.sem s).val =
        (c.calls s).init + (c.calls s).signals - (c.calls s).callers.length ∧
      (0 ≤ (c.kernel.sem s).val → W s = []) ∧
      ((c.kernel.sem s).val < 0 → (W s).length = -(c.kernel.sem s).val ∧ (W s).Nodup) ∧
      c.passed s ++ W s = (c.calls s).callers ∧
      (c.passed s).length =
        min (c.calls s).callers.length ((c.calls s).init + (c.calls s).signals) ∧
      ((c.kernel.sem s).val < 2 ^ 31 - 1 → ∃ k', KernelSem.signal c.kernel s = some k' ∧
        ((c.kernel.sem s).val < 0 →
          ∃ t rest, W s = t :: rest ∧ Lists k' (R ++ [t]) (update W s rest) S) ∧
        (0 ≤ (c.kernel.sem s).val → Lists k' R W S)) := by
  obtain ⟨A, h⟩ := Counted.Inv.run ⟨_, Boot.counted he hboot⟩ hrun
  obtain ⟨t, -, hinv⟩ := h.stable
  refine ⟨_, _, _, h.rep.lists, fun s hs => ?_⟩
  rw [h.rep.sems] at hs
  have hlen := (hinv.val s hs).2
  rw [h.rep.val s]
  refine ⟨h.val s hs, fun hge => ?_, fun hlt => ⟨?_, hinv.waiting_nodup hs⟩, ?_, ?_, fun hmax => ?_⟩
  · exact List.eq_nil_of_length_eq_zero (by omega)
  · omega
  · rw [h.passed s hs, h.waiting s hs, History.passed_append_queue]
  · rw [h.passed s hs, History.passed_length]
  · exact signal_lists h.rep h.stable hs hmax

/-- Two threads wait on `txFull`, which has no count, and one signal comes. -/
theorem sem_counting_boot128 : ∃ k₀ c, boot128.kernel = some k₀ ∧
    Run Counted.Ok Counted.step ⟨k₀, boot128.calls, fun _ => []⟩
      [.wait 1 (some 0x87009000), .wait 1 (some 0x8700a000), .signal 1] c ∧
    ∃ R W S, Lists c.kernel R W S ∧ c.passed 1 ++ W 1 = [0x87002000, 0x87000000] ∧
      (c.passed 1).length = 1 := by
  obtain ⟨k₀, c, hboot, hrun, hs, hi, hc⟩ : ∃ k₀ c, boot128.kernel = some k₀ ∧
      Run Counted.Ok Counted.step ⟨k₀, boot128.calls, fun _ => []⟩
        [.wait 1 (some 0x87009000), .wait 1 (some 0x8700a000), .signal 1] c ∧
      1 ∈ c.kernel.sems ∧ (c.calls 1).init + (c.calls 1).signals = 1 ∧
        (c.calls 1).callers = [0x87002000, 0x87000000] := by
    refine ⟨_, _, rfl, .cons ?_ rfl (.cons ?_ rfl (.cons ?_ rfl .nil)), ?_, rfl, rfl⟩
    · exact ⟨⟨by decide, by decide, _, rfl, by decide⟩, fun _ he => by cases he⟩
    · exact ⟨⟨by decide, by decide, _, rfl, by decide⟩, fun _ he => by cases he⟩
    · exact ⟨⟨by decide, by decide⟩, fun _ he => by cases he⟩
    · decide
  obtain ⟨R, W, S, hl, h⟩ := sem_counting boot128_ok hboot hrun
  obtain ⟨-, -, -, hcallers, hpassed, -⟩ := h 1 hs
  rw [hc] at hcallers hpassed
  rw [hi] at hpassed
  exact ⟨k₀, c, hboot, hrun, R, W, S, hl, hcallers, hpassed⟩

end SlabKernel
