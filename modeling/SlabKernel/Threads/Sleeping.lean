import SlabKernel.Lib.Deadlines
import SlabKernel.Threads.Runs

/-!
# Sleeping is exact

`Slept` runs the kernel and records the number of timer ticks and every call of `Sleeping::add`
with its deadline. `sleep_exact`: in every run the sleep list stands for the pending deadlines, in
stable order, and each tick makes exactly the threads ready whose deadline it is.

`addChecked` and `removeChecked` are `add` and `remove` with subtractions that fail instead of
wrapping around; on the states of a run they agree with the code's.
-/

namespace SlabKernel

open Function (update)
open Runs Deadlines

/-! ## Subtractions of times -/

namespace Sleeping

/-- A subtraction of times that fails where it would wrap around. -/
def subChecked (a b : Nat) : Option Nat := if b ≤ a then some (sub64 a b) else none

/-- `addLoop` with checked subtractions. -/
def addLoopChecked (node : Nat) : Nat → Nat → Kernel → Option Kernel
  | 0, _, _ => none
  | fuel + 1, curr, k =>
    match (k.sleepQueue curr).next with
    | none =>
      let k := k.modSleep curr fun x => { x with next := some node }
      some (k.modSleep node fun x => { x with prev := some curr })
    | some next => do
      let time := (k.sleepQueue node).time
      if time < (k.sleepQueue next).time then
        let rest ← subChecked (k.sleepQueue next).time time
        let k := k.modSleep node fun x => { x with next := some next }
        let k := k.modSleep next fun x => { x with prev := some node }
        let k := k.modSleep curr fun x => { x with next := some node }
        let k := k.modSleep node fun x => { x with prev := some curr }
        some (k.modSleep next fun x => { x with time := rest })
      else
        let rest ← subChecked time (k.sleepQueue next).time
        addLoopChecked node fuel next (k.modSleep node fun x => { x with time := rest })

/-- `insertNode` with checked subtractions. -/
def insertNodeChecked (k : Kernel) (n : Nat) : Option Kernel :=
  match k.sleepHead with
  | none => some { k with sleepHead := some n }
  | some head => do
    let time := (k.sleepQueue n).time
    if time < (k.sleepQueue head).time then
      let rest ← subChecked (k.sleepQueue head).time time
      let k := k.modSleep n fun x => { x with next := some head }
      let k := k.modSleep head fun x => { x with time := rest }
      let k := k.modSleep head fun x => { x with prev := some n }
      some { k with sleepHead := some n }
    else
      let rest ← subChecked time (k.sleepQueue head).time
      addLoopChecked n addrSpace head (k.modSleep n fun x => { x with time := rest })

/-- `add` with checked subtractions. -/
def addChecked (k : Kernel) (time : Nat) (node : Ptr) : Option Kernel := do
  let n ← node
  let t ← k.running
  insertNodeChecked ({ k with sleeps := n :: k.sleeps }.modSleep n fun _ =>
    { tcb := t, prev := none, next := none, time }) n

/-- `remove` with a checked subtraction. -/
def removeChecked (k : Kernel) : Option Kernel :=
  match k.sleepHead with
  | none => some k
  | some head => do
    let time ← subChecked (k.sleepQueue head).time 1
    removeLoop addrSpace (some head) (k.modSleep head fun x => { x with time })

variable {a b : Nat}

theorem subChecked_of_le (h : b ≤ a) : subChecked a b = some (sub64 a b) := if_pos h

/-- A change of the links leaves the times alone. -/
theorem modSleep_time {k : Kernel} {n m : Nat} {f : SleepQueue → SleepQueue}
    (hf : ∀ x, (f x).time = x.time) : ((k.modSleep n f).sleepQueue m).time =
      (k.sleepQueue m).time := by
  by_cases hm : m = n
  · subst hm
    simp [Kernel.modSleep, hf]
  · simp [Kernel.modSleep, hm]

/-- Setting the time of `n` to a value computed from its time. -/
theorem modSleep_set (k : Kernel) (n time : Nat) (f : Nat → Nat) (h : (k.sleepQueue n).time = time) :
    (k.modSleep n fun x => { x with time := f time }) =
      k.modSleep n fun x => { x with time := f x.time } := by
  simp [Kernel.modSleep, h]

/-- The comparison before each subtraction of `add` protects it. -/
theorem addLoopChecked_eq (node fuel curr : Nat) (k : Kernel) :
    addLoopChecked node fuel curr k = addLoop node fuel curr k := by
  induction fuel generalizing curr k with
  | zero => rfl
  | succ fuel ih =>
    unfold addLoopChecked addLoop
    cases (k.sleepQueue curr).next with
    | none => rfl
    | some next =>
      simp only
      by_cases hlt : (k.sleepQueue node).time < (k.sleepQueue next).time
      · rw [if_pos hlt, if_pos hlt, subChecked_of_le (Nat.le_of_lt hlt)]
        refine congrArg some (modSleep_set _ _ _ (fun x => sub64 x _) ?_)
        rw [modSleep_time, modSleep_time, modSleep_time, modSleep_time] <;> exact fun _ => rfl
      · rw [if_neg hlt, if_neg hlt, subChecked_of_le (Nat.le_of_not_lt hlt)]
        simp only [Option.bind_eq_bind, Option.bind_some, ih]
        rw [modSleep_set k node _ (fun x => sub64 x _) rfl]

theorem insertNodeChecked_eq (k : Kernel) (n : Nat) : insertNodeChecked k n = insertNode k n := by
  unfold insertNodeChecked insertNode
  cases k.sleepHead with
  | none => rfl
  | some head =>
    simp only
    by_cases hlt : (k.sleepQueue n).time < (k.sleepQueue head).time
    · rw [if_pos hlt, if_pos hlt, subChecked_of_le (Nat.le_of_lt hlt)]
      simp only [Option.bind_eq_bind, Option.bind_some]
      rw [modSleep_set _ head _ (fun x => sub64 x _)]
      exact modSleep_time fun _ => rfl
    · rw [if_neg hlt, if_neg hlt, subChecked_of_le (Nat.le_of_not_lt hlt)]
      simp only [Option.bind_eq_bind, Option.bind_some, addLoopChecked_eq]
      rw [modSleep_set k n _ (fun x => sub64 x _) rfl]

theorem addChecked_eq (k : Kernel) (time : Nat) (node : Ptr) :
    addChecked k time node = add k time node := by
  unfold addChecked add
  simp only [insertNodeChecked_eq]

/-- The subtraction of `remove` is safe if the first sleeper has a tick left. -/
theorem removeChecked_eq {k : Kernel}
    (h : ∀ n, k.sleepHead = some n → 1 ≤ (k.sleepQueue n).time) :
    removeChecked k = remove k := by
  unfold removeChecked remove
  cases hh : k.sleepHead with
  | none => rfl
  | some head =>
    simp only [subChecked_of_le (h head hh), Option.bind_eq_bind, Option.bind_some]
    rw [modSleep_set k head _ (fun x => sub64 x 1) rfl]

end Sleeping

/-! ## The record of a run -/

/-- The kernel, the number of timer ticks, and the callers of `add` with their deadlines, the oldest
call first. -/
structure Slept where
  kernel : Kernel
  ticks : Nat
  calls : List (Nat × Nat)

namespace Slept

/-- The record after the entry, which leads to `k'`. -/
def record (c : Slept) (k' : Kernel) (e : Entry) : Slept :=
  match e, c.kernel.running with
  | .timer, _ => { c with kernel := k', ticks := c.ticks + 1 }
  | .sleep time _, some t => { c with kernel := k', calls := c.calls ++ [(t, c.ticks + time)] }
  | _, _ => { c with kernel := k' }

def step (c : Slept) (e : Entry) : Option Slept := (c.kernel.step e).map fun k' => c.record k' e

def Ok (c : Slept) (e : Entry) : Prop := c.kernel.Ok e

/-- The calls whose threads still sleep. -/
def pending (c : Slept) : List (Nat × Nat) := c.calls.filter fun x => c.ticks < x.2

/-- The threads due at the next tick, in the order of their calls. -/
def dueNext (c : Slept) : List Nat := (c.calls.filter fun x => x.2 = c.ticks + 1).map Prod.fst

end Slept

/-! ## The abstract steps -/

namespace Sys

variable (A : Sys)

@[simp] theorem sleeping_dispatch : A.dispatch.sleeping = A.sleeping := by
  have hs : ∀ B : Sys, B.switch.sleeping = B.sleeping := fun B => by
    unfold switch
    split <;> rfl
  unfold dispatch requeue
  rw [hs]
  split
  · rfl
  · split <;> rfl

theorem sleeping_createThread (t : Nat) (startRoutine arg stackSpace : Ptr) (id : Int)
    (start : Bool) :
    (A.createThread t startRoutine arg stackSpace id start).sleeping = A.sleeping := by
  unfold createThread
  simp only
  split <;> rfl

theorem sleeping_startThread (t : Nat) : (A.startThread t).sleeping = A.sleeping := by
  unfold startThread
  split <;> rfl

theorem sleeping_exit : A.exit.sleeping = A.sleeping := by
  unfold exit
  split
  · rfl
  · rw [sleeping_dispatch]; rfl

theorem sleeping_wait (s : Nat) : (A.wait s).sleeping = A.sleeping := by
  unfold wait park
  simp only
  split
  · rw [sleeping_dispatch]
    split <;> rfl
  · rfl

theorem sleeping_signal (s : Nat) : (A.signal s).sleeping = A.sleeping := by
  unfold signal deblock
  simp only
  split
  · split <;> rfl
  · rfl

theorem sleeping_semClose (s : Nat) : (A.semClose s).sleeping = A.sleeping := by
  unfold semClose
  rw [release_foldl]

theorem sleeping_sleep {t : Nat} (time : Nat) (h : A.running = some t) :
    (A.sleep time).sleeping = insertSleep t time A.sleeping := by
  unfold sleep lull
  rw [sleeping_dispatch, h]

theorem sleeping_timer : A.timer.sleeping = A.wake.sleeping := by
  have hw : ({ A with timeSliceCounter := (A.timeSliceCounter + 1) % 2 ^ 64 } : Sys).wake.sleeping =
      A.wake.sleeping := by
    unfold wake
    simp only
    split
    · rfl
    · rw [wakeLoop_eq, wakeLoop_eq]
  unfold timer preempt
  split
  · exact hw
  · split
    · rw [sleeping_dispatch]
      exact hw
    · exact hw

/-- On 64-bit times the code's insertion is the insertion into a delta list. -/
theorem insertSleep_eq {t time : Nat} {l : List (Nat × Nat)} (ht : time < 2 ^ 64)
    (hl : ∀ e ∈ l, e.2 < 2 ^ 64) : insertSleep t time l = insertDelta t time l := by
  induction l generalizing time with
  | nil => rfl
  | cons e l ih =>
    obtain ⟨u, d⟩ := e
    have hd : d < 2 ^ 64 := hl _ (.head _)
    unfold insertSleep insertDelta
    split
    · rw [sub64_of_le (by omega) (by omega)]
    · rw [sub64_of_le (by omega) (by omega), ih (by omega) fun e he => hl e (.tail _ he)]

end Sys

/-! ## The invariant -/

namespace Slept

variable {c c' : Slept} {A A' : Sys} {k' : Kernel} {t : Nat}

/-- The sleep list is a stable sort of the pending calls. -/
structure Inv (c : Slept) (A : Sys) : Prop where
  rep : Rep c.kernel A
  stable : A.Stable
  bound : ∀ x ∈ c.calls, x.2 < c.ticks + 2 ^ 64
  sorted : StableSort c.pending (absolute c.ticks A.sleeping)

theorem Inv.frame (h : Inv c A) (hr : Rep k' A') (hst : A'.Stable)
    (hs : A'.sleeping = A.sleeping) : Inv { c with kernel := k' } A' :=
  ⟨hr, hst, h.bound, by rw [hs]; exact h.sorted⟩

theorem Inv.mem_calls (h : Inv c A) {x : Nat × Nat} (hx : x ∈ absolute c.ticks A.sleeping) :
    x ∈ c.calls ∧ c.ticks < x.2 := by
  have := List.mem_filter.1 ((h.sorted.mem_iff x).1 hx)
  simpa using this

theorem Inv.delta_lt (h : Inv c A) : ∀ e ∈ A.sleeping, e.2 < 2 ^ 64 :=
  Deadlines.delta_lt fun _ hx => h.bound _ (h.mem_calls hx).1

/-- The first sleeper has a tick left. -/
theorem Inv.head_pos {d : Nat} {l : List (Nat × Nat)} (h : Inv c A)
    (hl : A.sleeping = (t, d) :: l) : 1 ≤ d := by
  have hx : (t, c.ticks + d) ∈ absolute c.ticks A.sleeping := by
    rw [hl]
    exact .head _
  have := (h.mem_calls hx).2
  simp only at this
  omega

theorem Inv.sleep {time : Nat} {node : Ptr} (h : Inv c A) (hrun : A.running = some t)
    (htime : 1 ≤ time) (htime' : time < 2 ^ 64) (hr : Rep k' (A.sleep time))
    (hst : (A.sleep time).Stable) : Inv (c.record k' (.sleep time node)) (A.sleep time) := by
  unfold record
  simp only [h.rep.running, hrun]
  refine ⟨hr, hst, fun x hx => ?_, ?_⟩
  · rcases List.mem_append.1 hx with hx | hx
    · exact h.bound x hx
    · obtain rfl := List.mem_singleton.1 hx
      simp only
      omega
  · rw [A.sleeping_sleep time hrun, Sys.insertSleep_eq htime' h.delta_lt, absolute_insertDelta]
    unfold pending
    rw [List.filter_append, List.filter_cons_of_pos (by simp only [decide_eq_true_eq]; omega),
      List.filter_nil]
    exact h.sorted.insertAt

/-- The list with the first distance lowered, as `remove` finds it. -/
theorem Inv.tick (h : Inv c A) : ∃ l, A.wake = A.wakeLoop l ∧
    absolute (c.ticks + 1) l = absolute c.ticks A.sleeping := by
  unfold Sys.wake
  cases hl : A.sleeping with
  | nil =>
    refine ⟨[], ?_, rfl⟩
    simp only [Sys.wakeLoop, ← hl]
  | cons e l =>
    obtain ⟨t, d⟩ := e
    have hd := h.head_pos hl
    have hd' := h.delta_lt (t, d) (by rw [hl]; exact .head _)
    have hs : sub64 d 1 = d - 1 := sub64_of_le hd (by omega)
    exact ⟨(t, d - 1) :: l, by simp only [hs], absolute_succ hd⟩

/-- A tick wakes the threads that are due, in the order of their calls. -/
theorem Inv.wake (h : Inv c A) : A.wake.ready = A.ready ++ c.dueNext ∧
    StableSort (c.calls.filter fun x => c.ticks + 1 < x.2)
      (absolute (c.ticks + 1) A.wake.sleeping) := by
  obtain ⟨l, hl, habs⟩ := h.tick
  rw [hl, Sys.wakeLoop_eq]
  refine ⟨?_, ?_⟩
  · have hdue : Sys.due l = ((absolute (c.ticks + 1) l).filter fun x => x.2 = c.ticks + 1).map
        Prod.fst := by
      rw [filter_absolute_due, List.map_map]
      rfl
    simp only [hdue, habs, h.sorted.stable, dueNext, pending, List.filter_filter]
    congr 2
    refine List.filter_congr fun x _ => ?_
    simp only [← Bool.decide_and, decide_eq_decide]
    omega
  · rw [← filter_absolute_later, habs]
    have hf := h.sorted.filter fun x => c.ticks + 1 < x.2
    unfold pending at hf
    rw [List.filter_filter] at hf
    have he : (c.calls.filter fun x => c.ticks + 1 < x.2) =
        c.calls.filter fun x => decide (c.ticks + 1 < x.2) && decide (c.ticks < x.2) := by
      refine List.filter_congr fun x _ => ?_
      simp only [← Bool.decide_and, decide_eq_decide]
      omega
    rwa [he]

theorem Inv.timer (h : Inv c A) (hr : Rep k' A.timer) (hst : A.timer.Stable) :
    Inv (c.record k' .timer) A.timer := by
  refine ⟨hr, hst, fun x hx => ?_, ?_⟩
  · have : x.2 < c.ticks + 2 ^ 64 := h.bound x hx
    change x.2 < c.ticks + 1 + 2 ^ 64
    omega
  · rw [A.sleeping_timer]
    exact h.wake.2

theorem Inv.step {e : Entry} (h : Inv c A) (hok : c.Ok e) :
    ∃ c', c.step e = some c' ∧ Inv c' (A.step e) := by
  obtain ⟨k', hk, hr, hst⟩ := step_rep h.rep h.stable hok
  refine ⟨c.record k' e, by simp only [Slept.step, hk, Option.map_some], ?_⟩
  cases e with
  | createThread thread startRoutine arg stackSpace id start =>
    obtain ⟨-, -, t, rfl, -⟩ := hok
    exact h.frame hr hst (A.sleeping_createThread t startRoutine arg stackSpace id start)
  | startThread handle =>
    obtain ⟨-, t, rfl, -⟩ := hok
    exact h.frame hr hst (A.sleeping_startThread t)
  | dispatch => exact h.frame hr hst (Sys.sleeping_dispatch _)
  | exit => exact h.frame hr hst A.sleeping_exit
  | timer => exact h.timer hr hst
  | sleep time node =>
    obtain ⟨-, htime, htime', -⟩ := hok
    obtain ⟨t, hrun, -⟩ := h.stable
    exact h.sleep hrun htime htime' hr hst
  | semOpen semaphore init =>
    obtain ⟨-, -, s, rfl, -⟩ := hok
    exact h.frame hr hst rfl
  | wait s node => exact h.frame hr hst (A.sleeping_wait s)
  | signal s => exact h.frame hr hst (A.sleeping_signal s)
  | semClose s => exact h.frame hr hst (A.sleeping_semClose s)
  | threadDestroy t => exact h.frame hr hst rfl

theorem Inv.run {es : List Entry} (h : ∃ A, Inv c A)
    (hrun : Run Slept.Ok Slept.step c es c') : ∃ A, Inv c' A := by
  refine hrun.inv (fun c => ∃ A, Inv c A) (fun c e c' ⟨A, hc⟩ hok he => ?_) h
  obtain ⟨c'', he', hc'⟩ := hc.step hok
  rw [he] at he'
  exact ⟨_, Option.some.inj he' ▸ hc'⟩

/-- `Sleeping::remove` on a state of a run. -/
theorem Inv.remove (h : Inv c A) (n : Nat) : ∃ k' l,
    Sleeping.remove { c.kernel with timeSliceCounter := n } = some k' ∧ Sleepers k' l ∧
    Lists k' (A.ready ++ c.dueNext) A.waiting (l.map Prod.fst) ∧
    StableSort (c.calls.filter fun x => c.ticks + 1 < x.2) (absolute (c.ticks + 1) l) := by
  obtain ⟨t, hrun, hinv⟩ := h.stable
  have hlen : A.sleeping.length ≤ addrSpace :=
    Nat.le_trans hinv.sleeping_length (Nat.pow_le_pow_right (by decide) (by decide))
  have hnd : (A.ready ++ A.sleeping.map Prod.fst).Nodup := by
    refine hinv.queued_nodup.sublist ?_
    exact (List.Sublist.refl _).append (List.sublist_append_right _ _)
  have h₀ : Rep { c.kernel with timeSliceCounter := n } { A with timeSliceCounter := n } :=
    { h.rep with counter := rfl }
  have h' : Inv { c with kernel := { c.kernel with timeSliceCounter := n } }
      { A with timeSliceCounter := n } := ⟨h₀, ⟨t, hrun, { hinv with }⟩, h.bound, h.sorted⟩
  obtain ⟨k', he, hr⟩ := wake_rep h₀ hlen hnd
  obtain ⟨hready, hsort⟩ := h'.wake
  have hlists := hr.lists
  have hw : ({ A with timeSliceCounter := n } : Sys).wake.waiting = A.waiting := by
    obtain ⟨l, hl, -⟩ := ({ A with timeSliceCounter := n } : Sys).wake_eq
    rw [hl, Sys.wakeLoop_eq]
  rw [hready, hw] at hlists
  exact ⟨k', _, he, hr.sleeping, hlists, hsort⟩

/-- The first node has a tick left. -/
theorem Inv.head_time (h : Inv c A) {n : Nat} (hn : c.kernel.sleepHead = some n) :
    1 ≤ (c.kernel.sleepQueue n).time := by
  obtain ⟨S, hS, hmap, -⟩ := h.rep.sleeping
  cases S with
  | nil =>
    have hnone : c.kernel.sleepHead = none := hS
    rw [hnone] at hn
    cases hn
  | cons m S =>
    have hm : c.kernel.sleepHead = some m := hS.1
    obtain rfl := Option.some.inj (hn.symm.trans hm)
    exact h.head_pos hmap.symm

end Slept

theorem Boot.slept {e : Boot} {k₀ : Kernel} (he : e.Ok) (hboot : e.kernel = some k₀) :
    Slept.Inv ⟨k₀, 0, []⟩ e.sys := by
  obtain ⟨k, hk, hr⟩ := Boot.rep he
  rw [hboot] at hk
  obtain rfl := Option.some.inj hk
  exact ⟨hr, Boot.stable he, fun _ hx => absurd hx List.not_mem_nil, .nil⟩

/-! ## The result -/

/-- **A sleeping thread wakes exactly at its deadline.** In every state of a run: the nodes of the
sleep list hold threads and distances, whose deadlines are those of the pending calls of `add`,
sorted, the equal ones in the order of the calls; the first distance is at least 1, and no
subtraction of times in `remove` and in `add` wraps around. A sleeping thread is neither running nor
ready. The next tick, whatever the time slice counter is, puts exactly the threads that are due then
into the ready queue, in the order of their calls, and the others stay, sorted. -/
theorem sleep_exact {e : Boot} {k₀ : Kernel} {es : List Entry} {c : Slept} (he : e.Ok)
    (hboot : e.kernel = some k₀) (hrun : Run Slept.Ok Slept.step ⟨k₀, 0, []⟩ es c) :
    ∃ R W l, Sleepers c.kernel l ∧ Lists c.kernel R W (l.map Prod.fst) ∧
      (c.kernel.running.toList ++ (R ++ l.map Prod.fst)).Nodup ∧
      StableSort c.pending (absolute c.ticks l) ∧
      (∀ x ∈ l.head?, 1 ≤ x.2) ∧
      (∀ n, Sleeping.removeChecked { c.kernel with timeSliceCounter := n } =
        Sleeping.remove { c.kernel with timeSliceCounter := n }) ∧
      (∀ t time node, Sleeping.addChecked (c.kernel.modTcb t fun x => { x with asleep := true })
        time node = Sleeping.add (c.kernel.modTcb t fun x => { x with asleep := true }) time node) ∧
      (∀ n, ∃ k' l', Sleeping.remove { c.kernel with timeSliceCounter := n } = some k' ∧
        Sleepers k' l' ∧ Lists k' (R ++ c.dueNext) W (l'.map Prod.fst) ∧
        StableSort (c.calls.filter fun x => c.ticks + 1 < x.2) (absolute (c.ticks + 1) l')) ∧
      ∀ e, c.Ok e → ∃ c', c.step e = some c' := by
  obtain ⟨A, h⟩ := Slept.Inv.run ⟨_, Boot.slept he hboot⟩ hrun
  obtain ⟨t, ht, hinv⟩ := h.stable
  refine ⟨A.ready, A.waiting, A.sleeping, h.rep.sleeping, h.rep.lists, ?_, h.sorted, ?_, ?_, ?_,
    fun n => h.remove n, ?_⟩
  · rw [h.rep.running, ht]
    change (t :: (A.ready ++ A.sleeping.map Prod.fst)).Nodup
    refine hinv.nodup.sublist (List.Sublist.cons_cons t ?_)
    exact (List.Sublist.refl _).append (List.sublist_append_right _ _)
  · intro x hx
    cases hl : A.sleeping with
    | nil =>
      rw [hl] at hx
      cases hx
    | cons y l =>
      rw [hl] at hx
      obtain rfl := Option.some.inj hx
      exact h.head_pos hl
  · exact fun n => Sleeping.removeChecked_eq fun m hm => h.head_time hm
  · exact fun t time node => Sleeping.addChecked_eq _ _ _
  · intro e hok
    obtain ⟨c', hc', -⟩ := h.step hok
    exact ⟨c', hc'⟩

/-- The main thread sleeps for 3 ticks, another one for 1, and after the first tick a third one for
2: at the third tick the main thread and the third one wake, in this order. -/
theorem sleep_exact_boot128 : ∃ k₀ c, boot128.kernel = some k₀ ∧
    Run Slept.Ok Slept.step ⟨k₀, 0, []⟩
      [.sleep 3 (some 0x87009000), .sleep 1 (some 0x87009020), .timer,
        .sleep 2 (some 0x87009040), .timer] c ∧
    ∃ (R : List Nat) (W : Nat → List Nat) (k' : Kernel) (l' : List (Nat × Nat)),
      Sleeping.remove { c.kernel with timeSliceCounter := 0 } = some k' ∧
      Lists k' (R ++ [0x87002000, 0x87001000]) W (l'.map Prod.fst) := by
  obtain ⟨k₀, c, hboot, hrun, hdue⟩ : ∃ k₀ c, boot128.kernel = some k₀ ∧
      Run Slept.Ok Slept.step ⟨k₀, 0, []⟩
        [.sleep 3 (some 0x87009000), .sleep 1 (some 0x87009020), .timer,
          .sleep 2 (some 0x87009040), .timer] c ∧
      c.dueNext = [0x87002000, 0x87001000] := by
    refine ⟨_, _, rfl, .cons ?_ rfl (.cons ?_ rfl (.cons trivial rfl (.cons ?_ rfl
      (.cons trivial rfl .nil)))), rfl⟩
    · exact ⟨by decide, by decide, by decide, _, rfl, by decide⟩
    · exact ⟨by decide, by decide, by decide, _, rfl, by decide⟩
    · exact ⟨by decide, by decide, by decide, _, rfl, by decide⟩
  obtain ⟨R, W, l, -, -, -, -, -, -, -, hnext, -⟩ := sleep_exact boot128_ok hboot hrun
  obtain ⟨k', l', he, -, hlists, -⟩ := hnext 0
  rw [hdue] at hlists
  exact ⟨k₀, c, hboot, hrun, R, W, k', l', he, hlists⟩

end SlabKernel
