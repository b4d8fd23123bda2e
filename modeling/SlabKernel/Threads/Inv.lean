import Mathlib.Data.List.Perm.Subperm
import SlabKernel.Lib.Queues
import SlabKernel.Threads.Spec

/-!
# The invariant of the abstract scheduler

`Inv A r`: with the threads `r` on the processor, no thread is in two places, the flags of the
waiting and the sleeping threads are set, the values of the semaphores count the waiting threads,
and the idle thread is in its place. A kernel entry takes the running thread to a new place
(`requeue`, `park`, `lull`, or nowhere at its exit), which gives `Inv A []`; then `switch` runs the
oldest ready thread (`Inv.switch`). `Exact` adds that every started thread has a place and that the
flags say which; closing a semaphore breaks it, all else keeps it.
-/

namespace SlabKernel

open Function (update update_self update_apply update_of_ne)
open Queues

/-- The RAM of the machine, 128 MB from 0x80000000 on. -/
def ramStart : Nat := 0x80000000

def ramEnd : Nat := ramStart + 2 ^ 27

namespace Sys

/-- The threads in the queues. -/
def queued (A : Sys) : List Nat :=
  A.ready ++ (A.sems.flatMap A.waiting ++ A.sleeping.map Prod.fst)

/-- The invariant, with the threads `r` on the processor. -/
structure Inv (A : Sys) (r : List Nat) : Prop where
  nodup : (r ++ A.queued).Nodup
  live : ∀ t ∈ r ++ A.queued, t ∈ A.tcbs
  started : ∀ t ∈ r ++ A.queued, (A.tcb t).started = true ∨ (A.tcb t).fun_ = none
  ram : ∀ t ∈ A.tcbs, ramStart ≤ t ∧ t < ramEnd
  sems : A.sems.Nodup
  waiting : ∀ s ∈ A.sems, ∀ t ∈ A.waiting s,
    (A.tcb t).blocked = true ∧ (A.tcb t).holder = some s
  asleep : ∀ t ∈ A.sleeping.map Prod.fst, (A.tcb t).asleep = true
  val : ∀ s ∈ A.sems, A.val s < 2 ^ 31 ∧ (A.waiting s).length = (-A.val s).toNat
  idle : ∃ i, A.idle = some i ∧ (A.tcb i).runnable = true ∧ i ∈ r ++ A.queued

/-- Some thread runs, and the invariant holds. -/
def Stable (A : Sys) : Prop := ∃ t, A.running = some t ∧ Inv A [t]

variable {A A' : Sys} {r r' : List Nat} {s t u : Nat}

/-! ## Places -/

theorem mem_queued : t ∈ A.queued ↔
    t ∈ A.ready ∨ (∃ s ∈ A.sems, t ∈ A.waiting s) ∨ t ∈ A.sleeping.map Prod.fst := by
  simp only [queued, List.mem_append, List.mem_flatMap]

theorem Inv.not_mem (h : Inv A [t]) : t ∉ A.queued := (List.nodup_cons.1 h.nodup).1

theorem Inv.queued_nodup (h : Inv A r) : A.queued.Nodup := (List.nodup_append.1 h.nodup).2.1

theorem Inv.ready_apart (h : Inv A r) (ht : t ∈ A.ready) :
    (∀ s ∈ A.sems, t ∉ A.waiting s) ∧ t ∉ A.sleeping.map Prod.fst := by
  have hd := (List.nodup_append.1 h.queued_nodup).2.2
  constructor
  · intro s hs hw
    exact hd t ht t (List.mem_append_left _ (List.mem_flatMap.2 ⟨s, hs, hw⟩)) rfl
  · intro hl
    exact hd t ht t (List.mem_append_right _ hl) rfl

theorem Inv.waiting_nodup (h : Inv A r) (hs : s ∈ A.sems) : (A.waiting s).Nodup := by
  have h1 := (List.nodup_append.1 h.queued_nodup).2.1
  have h2 := ((contents_perm A.waiting hs).nodup_iff).1 (List.nodup_append.1 h1).1
  exact (List.nodup_append.1 h2).1

theorem Inv.ready_waiting_nodup (h : Inv A r) (hs : s ∈ A.sems) :
    (A.ready ++ A.waiting s).Nodup := by
  refine List.nodup_append.2 ⟨(List.nodup_append.1 h.queued_nodup).1, h.waiting_nodup hs, ?_⟩
  rintro u hu _ hw rfl
  exact (h.ready_apart hu).1 s hs hw

theorem Inv.sleeping_nodup (h : Inv A r) : (A.sleeping.map Prod.fst).Nodup :=
  (List.nodup_append.1 (List.nodup_append.1 h.queued_nodup).2.1).2.1

/-- Distinct live threads are at most as many as the RAM has addresses. -/
theorem Inv.length_le (h : Inv A r) {l : List Nat} (hnd : l.Nodup) (hl : ∀ t ∈ l, t ∈ A.queued) :
    l.length ≤ 2 ^ 27 := by
  have hsub : l ⊆ List.range' ramStart (2 ^ 27) := fun t ht => by
    have := h.ram t (h.live t (List.mem_append_right _ (hl t ht)))
    exact List.mem_range'_1.2 this
  simpa using (hnd.subperm hsub).length_le

theorem Inv.waiting_length (h : Inv A r) (hs : s ∈ A.sems) : (A.waiting s).length ≤ 2 ^ 27 :=
  h.length_le (h.waiting_nodup hs) fun _ ht => mem_queued.2 (.inr (.inl ⟨s, hs, ht⟩))

theorem Inv.sleeping_length (h : Inv A r) : A.sleeping.length ≤ 2 ^ 27 := by
  rw [← List.length_map (f := Prod.fst)]
  exact h.length_le h.sleeping_nodup fun _ ht => mem_queued.2 (.inr (.inr ht))

theorem runnable_iff {x : TCB} :
    x.runnable = true ↔ x.finished = false ∧ x.blocked = false ∧ x.asleep = false := by
  simp [TCB.runnable, and_assoc]

/-- A queued thread that can run is ready. -/
theorem Inv.ready_of_runnable (h : Inv A r) (hq : t ∈ A.queued)
    (hr : (A.tcb t).runnable = true) : t ∈ A.ready := by
  obtain ⟨-, hb, ha⟩ := runnable_iff.1 hr
  rcases mem_queued.1 hq with hm | ⟨s, hs, hm⟩ | hm
  · exact hm
  · rw [(h.waiting s hs t hm).1] at hb; cases hb
  · rw [h.asleep t hm] at ha; cases ha

/-! ## Moves -/

/-- The threads change places, none comes and none goes. -/
theorem Inv.move (h : Inv A r) (hp : (r' ++ A'.queued).Perm (r ++ A.queued))
    (htcbs : A'.tcbs = A.tcbs) (hidle : A'.idle = A.idle)
    (hstarted : ∀ t ∈ r ++ A.queued, (A'.tcb t).started = (A.tcb t).started ∧
      (A'.tcb t).fun_ = (A.tcb t).fun_)
    (hrun : ∀ i, A.idle = some i → (A.tcb i).runnable = true → (A'.tcb i).runnable = true)
    (sems : A'.sems.Nodup)
    (waiting : ∀ s ∈ A'.sems, ∀ t ∈ A'.waiting s,
      (A'.tcb t).blocked = true ∧ (A'.tcb t).holder = some s)
    (asleep : ∀ t ∈ A'.sleeping.map Prod.fst, (A'.tcb t).asleep = true)
    (val : ∀ s ∈ A'.sems, A'.val s < 2 ^ 31 ∧ (A'.waiting s).length = (-A'.val s).toNat) :
    Inv A' r' where
  nodup := hp.nodup_iff.2 h.nodup
  live t ht := by rw [htcbs]; exact h.live t (hp.mem_iff.1 ht)
  started t ht := by
    have ht' := hp.mem_iff.1 ht
    rw [(hstarted t ht').1, (hstarted t ht').2]
    exact h.started t ht'
  ram := by rw [htcbs]; exact h.ram
  sems := sems
  waiting := waiting
  asleep := asleep
  val := val
  idle := by
    obtain ⟨i, hi, hr, hm⟩ := h.idle
    exact ⟨i, hidle.trans hi, hrun i hi hr, hp.mem_iff.2 hm⟩

/-- A thread that cannot run leaves the processor. -/
theorem Inv.leave (h : Inv A [t]) (hr : (A.tcb t).runnable = false) : Inv A [] where
  nodup := h.queued_nodup
  live u hu := h.live u (.tail _ hu)
  started u hu := h.started u (.tail _ hu)
  ram := h.ram
  sems := h.sems
  waiting := h.waiting
  asleep := h.asleep
  val := h.val
  idle := by
    obtain ⟨i, hi, hri, hm⟩ := h.idle
    refine ⟨i, hi, hri, (List.mem_cons.1 hm).resolve_left fun he => ?_⟩
    rw [he, hr] at hri
    cases hri

theorem queued_put (A : Sys) (t : Nat) : (A.put t).queued.Perm (t :: A.queued) := by
  simp only [queued, put, List.append_assoc, List.singleton_append]
  exact List.perm_middle

theorem Inv.requeue (h : Inv A [t]) (hrun : A.running = some t) : Inv A.requeue [] := by
  unfold Sys.requeue
  rw [hrun]
  simp only
  split
  · exact h.move (queued_put A t) rfl rfl (fun _ _ => ⟨rfl, rfl⟩) (fun _ _ hr => hr) h.sems
      h.waiting h.asleep h.val
  · rename_i hr
    exact h.leave (by simpa using hr)

/-- The oldest ready thread runs; there is one, as the idle thread is ready. -/
theorem Inv.switch (h : Inv A []) : Stable A.switch := by
  obtain ⟨i, -, hr, hm⟩ := h.idle
  have hi := h.ready_of_runnable hm hr
  unfold Sys.switch
  cases hrd : A.ready with
  | nil => rw [hrd] at hi; cases hi
  | cons t R =>
    refine ⟨t, rfl, ?_⟩
    refine h.move (List.Perm.of_eq ?_) rfl rfl (fun _ _ => ⟨rfl, rfl⟩) (fun _ _ hr => hr) h.sems
      h.waiting h.asleep h.val
    simp only [queued, hrd, List.nil_append, List.cons_append]

theorem Stable.dispatch (h : Stable A) : Stable A.dispatch := by
  obtain ⟨t, hrun, hinv⟩ := h
  exact (hinv.requeue hrun).switch

/-! ## Threads -/

/-- A change of the TCB of `t` that keeps what the invariant says of `t`. -/
theorem Inv.modTcb (h : Inv A r) (t : Nat) (f : TCB → TCB)
    (hf : ∀ x, (f x).started = x.started ∧ (f x).fun_ = x.fun_ ∧ (f x).blocked = x.blocked ∧
      (f x).holder = x.holder ∧ (f x).asleep = x.asleep)
    (hi : A.idle ≠ some t) : Inv (A.modTcb t f) r := by
  have hu : ∀ u, ((A.modTcb t f).tcb u).started = (A.tcb u).started ∧
      ((A.modTcb t f).tcb u).fun_ = (A.tcb u).fun_ ∧
      ((A.modTcb t f).tcb u).blocked = (A.tcb u).blocked ∧
      ((A.modTcb t f).tcb u).holder = (A.tcb u).holder ∧
      ((A.modTcb t f).tcb u).asleep = (A.tcb u).asleep := by
    intro u
    by_cases hut : u = t
    · subst hut
      simp only [Sys.modTcb, update_self]
      exact hf _
    · simp [Sys.modTcb, hut]
  refine h.move (.refl _) rfl rfl (fun u _ => ⟨(hu u).1, (hu u).2.1⟩) (fun i hi' hr => ?_) h.sems
    (fun s hs u hm => ?_) (fun u hm => ?_) h.val
  · have hit : i ≠ t := fun he => hi (he ▸ hi')
    simpa [Sys.modTcb, hit] using hr
  · rw [(hu u).2.2.1, (hu u).2.2.2.1]
    exact h.waiting s hs u hm
  · rw [(hu u).2.2.2.2]
    exact h.asleep u hm

/-- A started thread without a place becomes ready. -/
theorem Inv.enqueue (h : Inv A r) (ht : t ∉ r ++ A.queued) (hl : t ∈ A.tcbs) :
    Inv ((A.put t).modTcb t fun x => { x with started := true }) r := by
  have hp : (r ++ (A.put t).queued).Perm (t :: (r ++ A.queued)) :=
    ((queued_put A t).append_left r).trans List.perm_middle
  have hne : ∀ u ∈ r ++ A.queued, u ≠ t := fun u hu he => ht (he ▸ hu)
  have hsame : ∀ u ∈ r ++ A.queued,
      ((A.put t).modTcb t fun x => { x with started := true }).tcb u = A.tcb u := fun u hu =>
    update_of_ne (hne u hu) _ _
  refine ⟨hp.nodup_iff.2 (List.nodup_cons.2 ⟨ht, h.nodup⟩), fun u hu => ?_, fun u hu => ?_, h.ram,
    h.sems, fun s hs u hu => ?_, fun u hu => ?_, h.val, ?_⟩
  · rcases List.mem_cons.1 (hp.mem_iff.1 hu) with rfl | hu
    · exact hl
    · exact h.live u hu
  · rcases List.mem_cons.1 (hp.mem_iff.1 hu) with rfl | hu
    · simp [Sys.modTcb]
    · rw [hsame u hu]
      exact h.started u hu
  · rw [hsame u (List.mem_append_right _ (mem_queued.2 (.inr (.inl ⟨s, hs, hu⟩))))]
    exact h.waiting s hs u hu
  · rw [hsame u (List.mem_append_right _ (mem_queued.2 (.inr (.inr hu))))]
    exact h.asleep u hu
  · obtain ⟨i, hi, hr, hm⟩ := h.idle
    refine ⟨i, hi, ?_, hp.mem_iff.2 (.tail _ hm)⟩
    rwa [hsame i hm]

/-- The TCB of a thread without a place, and the set of the live threads, change. -/
theorem Inv.setTcb {tcbs : List Nat} (h : Inv A r) (tcb : Nat → TCB)
    (hsame : ∀ u ∈ r ++ A.queued, tcb u = A.tcb u) (hlive : ∀ u ∈ r ++ A.queued, u ∈ tcbs)
    (hram : ∀ u ∈ tcbs, ramStart ≤ u ∧ u < ramEnd) : Inv { A with tcb, tcbs } r := by
  refine ⟨h.nodup, hlive, fun u hu => ?_, hram, h.sems, fun s hs u hu => ?_, fun u hu => ?_, h.val,
    ?_⟩
  · rw [show ({ A with tcb, tcbs } : Sys).tcb u = A.tcb u from hsame u hu]
    exact h.started u hu
  · rw [show ({ A with tcb, tcbs } : Sys).tcb u = A.tcb u from
      hsame u (List.mem_append_right _ (mem_queued.2 (.inr (.inl ⟨s, hs, hu⟩))))]
    exact h.waiting s hs u hu
  · rw [show ({ A with tcb, tcbs } : Sys).tcb u = A.tcb u from
      hsame u (List.mem_append_right _ (mem_queued.2 (.inr (.inr hu))))]
    exact h.asleep u hu
  · obtain ⟨i, hi, hr, hm⟩ := h.idle
    refine ⟨i, hi, ?_, hm⟩
    rwa [show ({ A with tcb, tcbs } : Sys).tcb i = A.tcb i from hsame i hm]

theorem Inv.createThread (h : Inv A r) (ht : t ∉ A.tcbs) (hram : ramStart ≤ t ∧ t < ramEnd)
    (startRoutine arg stackSpace : Ptr) (id : Int) (start : Bool) :
    Inv (A.createThread t startRoutine arg stackSpace id start) r := by
  have hq : t ∉ r ++ A.queued := fun hm => ht (h.live t hm)
  have hA := h.setTcb (update A.tcb t { A.tcb t with
      stack := if startRoutine.isSome then stackSpace else none
      fun_ := startRoutine
      funArg := arg
      pid := id })
    (fun u hu => update_of_ne (fun he : u = t => hq (he ▸ hu)) _ _)
    (fun u hu => .tail _ (h.live u hu)) fun u hu => by
      rcases List.mem_cons.1 hu with rfl | hu
      · exact hram
      · exact h.ram u hu
  unfold Sys.createThread
  simp only
  split
  · exact hA.enqueue hq (.head _)
  · exact hA

theorem Inv.startThread (h : Inv A r) (ht : t ∈ A.tcbs) (hf : (A.tcb t).fun_ ≠ none) :
    Inv (A.startThread t) r := by
  unfold Sys.startThread
  split
  · exact h
  · rename_i hs
    refine h.enqueue (fun hm => ?_) ht
    rcases h.started t hm with hst | hn
    · exact hs hst
    · exact hf hn

theorem Stable.exit (h : Stable A) (hi : A.running ≠ A.idle) : Stable A.exit := by
  obtain ⟨t, hrun, hinv⟩ := h
  unfold Sys.exit
  rw [hrun] at hi ⊢
  exact Stable.dispatch ⟨t, hrun, hinv.modTcb t _ (fun _ => ⟨rfl, rfl, rfl, rfl, rfl⟩) hi.symm⟩

theorem Inv.threadDestroy (h : Inv A r) (ht : t ∉ r ++ A.queued) : Inv (A.threadDestroy t) r := by
  have hne : ∀ u ∈ r ++ A.queued, u ≠ t := fun u hu he => ht (he ▸ hu)
  exact h.setTcb _ (fun u hu => update_of_ne (hne u hu) _ _)
    (fun u hu => (List.mem_erase_of_ne (hne u hu)).2 (h.live u hu))
    fun u hu => h.ram u (List.mem_of_mem_erase hu)

/-! ## Semaphores -/

theorem toInt32_val (h : Inv A r) (hs : s ∈ A.sems) :
    toInt32 (A.val s - 1) = A.val s - 1 ∧ -2 ^ 27 ≤ A.val s := by
  have h1 := h.val s hs
  have h2 := h.waiting_length hs
  exact ⟨toInt32_of_range (by omega) (by omega), by omega⟩

theorem Inv.createSem {init : Nat} (h : Inv A r) (hs : s ∉ A.sems) (hi : init < 2 ^ 31) :
    Inv (A.createSem s init) r := by
  have hq : (A.createSem s init).queued = A.queued := by
    simp only [queued, Sys.createSem, List.flatMap_cons, update_self, List.nil_append]
    rw [contents_update_of_notMem A.waiting [] hs]
  refine h.move (by rw [hq]) rfl rfl (fun _ _ => ⟨rfl, rfl⟩) (fun _ _ hr => hr)
    (List.nodup_cons.2 ⟨hs, h.sems⟩) (fun u hu t ht => ?_) h.asleep fun u hu => ?_
  · rcases List.mem_cons.1 hu with rfl | hu
    · simp [Sys.createSem] at ht
    · have hus : u ≠ s := fun he => hs (he ▸ hu)
      exact h.waiting u hu t (by simpa [Sys.createSem, hus] using ht)
  · rcases List.mem_cons.1 hu with rfl | hu
    · simp only [Sys.createSem, update_self]
      rw [toInt32_of_range (by omega) (by omega)]
      exact ⟨by omega, by simp⟩
    · have hus : u ≠ s := fun he => hs (he ▸ hu)
      simpa [Sys.createSem, hus] using h.val u hu

theorem requeue_of_not_runnable (hrun : A.running = some t) (hr : (A.tcb t).runnable = false) :
    A.requeue = A := by
  unfold Sys.requeue
  simp [hrun, hr]

/-- The running thread leaves the processor for the queue of `s`. -/
theorem Inv.park {v : Int} (h : Inv A [t]) (hrun : A.running = some t) (hi : A.idle ≠ some t)
    (hs : s ∈ A.sems) (hv : v = A.val s - 1) (hlt : v < 0) :
    Inv (({ A with val := update A.val s v } : Sys).park s) [] := by
  have hW := h.waiting
  unfold Sys.park
  simp only [hrun]
  have hne : ∀ u ∈ A.queued, u ≠ t := fun u hu he => h.not_mem (he ▸ hu)
  have hp : ({ A with waiting := update A.waiting s (A.waiting s ++ [t]) } : Sys).queued.Perm
      ([t] ++ A.queued) := by
    have h1 := contents_update_perm A.waiting (A.waiting s ++ [t]) h.sems hs
    have h2 := contents_perm A.waiting hs
    rw [List.perm_iff_count] at h1 h2 ⊢
    intro a
    have h1 := h1 a
    have h2 := h2 a
    simp only [queued, List.count_append] at h1 h2 ⊢
    omega
  refine h.move hp rfl rfl (fun u hu => ?_) (fun i hi' hr => ?_) h.sems (fun u hu w hw => ?_)
    (fun u hu => ?_) fun u hu => ?_
  · by_cases hut : u = t
    · subst hut; simp [Sys.modTcb]
    · simp [Sys.modTcb, hut]
  · have hit : i ≠ t := fun he => hi (he ▸ hi')
    simpa [Sys.modTcb, hit] using hr
  · have hw : w ∈ update A.waiting s (A.waiting s ++ [t]) u := hw
    by_cases hus : u = s
    · subst hus
      rw [update_self] at hw
      rcases List.mem_append.1 hw with hw | hw
      · have hwt := hne w (mem_queued.2 (.inr (.inl ⟨u, hs, hw⟩)))
        simpa [Sys.modTcb, hwt] using hW u hs w hw
      · rw [List.mem_singleton.1 hw]
        simp [Sys.modTcb]
    · rw [update_of_ne hus] at hw
      have hwt := hne w (mem_queued.2 (.inr (.inl ⟨u, hu, hw⟩)))
      simpa [Sys.modTcb, hwt] using hW u hu w hw
  · have hut := hne u (mem_queued.2 (.inr (.inr hu)))
    simpa [Sys.modTcb, hut] using h.asleep u hu
  · have := h.val u hu
    by_cases hus : u = s
    · subst hus
      simp only [Sys.modTcb, update_self, List.length_append, List.length_singleton]
      omega
    · simpa [Sys.modTcb, hus] using this

/-- `wait` passes, or the running thread joins the queue of `s` and another one runs. -/
theorem Inv.wait_cases (h : Inv A r) (hrun : A.running = some t) (hs : s ∈ A.sems) :
    (A.val s - 1 < 0 ∧
      A.wait s = (({ A with val := update A.val s (A.val s - 1) } : Sys).park s).switch) ∨
    (0 ≤ A.val s - 1 ∧ A.wait s = { A with val := update A.val s (A.val s - 1) }) := by
  have hv := (toInt32_val h hs).1
  have hrq : (({ A with val := update A.val s (A.val s - 1) } : Sys).park s).requeue = _ :=
    requeue_of_not_runnable (t := t) (by simp [Sys.park, hrun, Sys.modTcb])
      (by simp [Sys.park, hrun, Sys.modTcb, TCB.runnable])
  unfold Sys.wait Sys.dispatch
  simp only [update_self, hv]
  split
  · rename_i hlt
    exact .inl ⟨hlt, by rw [hrq]⟩
  · rename_i hlt
    exact .inr ⟨by omega, rfl⟩

/-- Only the value of `s` changes, and no thread waits before or after. -/
theorem Inv.setVal {v : Int} (h : Inv A r) (hs : s ∈ A.sems) (hv : 0 ≤ v) (hv' : v < 2 ^ 31)
    (hv₀ : 0 ≤ A.val s) : Inv { A with val := update A.val s v } r := by
  refine { h with val := fun u hu => ?_ }
  have := h.val u hu
  by_cases hus : u = s
  · subst hus
    simp only [update_self]
    omega
  · simpa [hus] using this

theorem Stable.wait (h : Stable A) (hi : A.running ≠ A.idle) (hs : s ∈ A.sems) :
    Stable (A.wait s) := by
  obtain ⟨t, hrun, hinv⟩ := h
  rcases hinv.wait_cases hrun hs with ⟨hlt, he⟩ | ⟨hge, he⟩
  · rw [he]
    exact (hinv.park hrun (by rw [← hrun]; exact hi.symm) hs rfl hlt).switch
  · rw [he]
    have := (hinv.val s hs).1
    exact ⟨t, hrun, hinv.setVal hs hge (by omega) (by omega)⟩

/-- The oldest thread on `s` becomes ready. -/
theorem Inv.deblock {v : Int} {rest : List Nat} (h : Inv A r) (hs : s ∈ A.sems)
    (hv : v = A.val s + 1) (hw : A.waiting s = t :: rest) :
    Inv (({ A with val := update A.val s v } : Sys).deblock s) r := by
  have htq : t ∈ A.queued := mem_queued.2 (.inr (.inl ⟨s, hs, hw ▸ .head _⟩))
  have hnd := h.waiting_nodup hs
  rw [hw, List.nodup_cons] at hnd
  unfold Sys.deblock
  simp only [hw]
  have hp : ({ A with waiting := update A.waiting s rest, ready := A.ready ++ [t] } : Sys).queued.Perm
      A.queued := by
    have h1 := contents_update_perm A.waiting rest h.sems hs
    have h2 := contents_perm A.waiting hs
    rw [hw] at h2
    rw [List.perm_iff_count] at h1 h2 ⊢
    intro a
    have h1 := h1 a
    have h2 := h2 a
    simp only [queued, List.count_append, List.count_cons, List.count_nil] at h1 h2 ⊢
    omega
  refine h.move (hp.append_left r) rfl rfl (fun u hu => ?_) (fun i hi' hr => ?_) h.sems
    (fun u hu w hw' => ?_) (fun u hu => ?_) fun u hu => ?_
  · by_cases hut : u = t
    · subst hut; simp [Sys.modTcb, Sys.put]
    · simp [Sys.modTcb, Sys.put, hut]
  · by_cases hit : i = t
    · subst hit
      simp only [Sys.modTcb, Sys.put, update_self]
      exact runnable_iff.2 ⟨(runnable_iff.1 hr).1, rfl, (runnable_iff.1 hr).2.2⟩
    · simpa [Sys.modTcb, Sys.put, hit] using hr
  · -- no other queue holds `t`
    have hwu : w ∈ A.waiting u ∧ w ≠ t := by
      by_cases hus : u = s
      · subst hus
        have hwr : w ∈ rest := by simpa [Sys.modTcb, Sys.put] using hw'
        exact ⟨hw ▸ .tail _ hwr, fun he => hnd.1 (he ▸ hwr)⟩
      · have hwu : w ∈ A.waiting u := by simpa [Sys.modTcb, Sys.put, hus] using hw'
        refine ⟨hwu, fun he => ?_⟩
        have h1 := (h.waiting u hu w hwu).2
        rw [he, (h.waiting s hs t (hw ▸ .head _)).2] at h1
        exact hus (Option.some.inj h1).symm
    simpa [Sys.modTcb, Sys.put, hwu.2] using h.waiting u hu w hwu.1
  · by_cases hut : u = t
    · subst hut
      simpa [Sys.modTcb, Sys.put] using h.asleep u hu
    · simpa [Sys.modTcb, Sys.put, hut] using h.asleep u hu
  · have := h.val u hu
    by_cases hus : u = s
    · subst hus
      simp only [Sys.modTcb, Sys.put, update_self]
      rw [hw, List.length_cons] at this
      omega
    · simpa [Sys.modTcb, Sys.put, hus] using this

/-- Some thread waits when the value is negative. -/
theorem Inv.waiting_cons (h : Inv A r) (hs : s ∈ A.sems) (hlt : A.val s < 0) :
    ∃ t rest, A.waiting s = t :: rest ∧ t ∉ A.ready := by
  have hval := h.val s hs
  cases hw : A.waiting s with
  | nil => rw [hw, List.length_nil] at hval; omega
  | cons t rest =>
    exact ⟨t, rest, rfl, fun hm => (h.ready_apart hm).1 s hs (hw ▸ .head _)⟩

/-- `signal` makes the oldest waiting thread ready, or there is none. -/
theorem Inv.signal_cases (h : Inv A r) (hs : s ∈ A.sems) (hmax : A.val s < 2 ^ 31 - 1) :
    (A.val s < 0 ∧ (∃ t rest, A.waiting s = t :: rest) ∧
      A.signal s = ({ A with val := update A.val s (A.val s + 1) } : Sys).deblock s) ∨
    (0 ≤ A.val s ∧ A.signal s = { A with val := update A.val s (A.val s + 1) }) := by
  have hv : toInt32 (A.val s + 1) = A.val s + 1 :=
    toInt32_of_range (by have := (toInt32_val h hs).2; omega) (by omega)
  unfold Sys.signal
  simp only [hv]
  split
  · rename_i hlt
    obtain ⟨t, rest, hw, -⟩ := h.waiting_cons hs hlt
    exact .inl ⟨hlt, ⟨t, rest, hw⟩, rfl⟩
  · rename_i hlt
    exact .inr ⟨by omega, rfl⟩

theorem Inv.signal (h : Inv A r) (hs : s ∈ A.sems) (hmax : A.val s < 2 ^ 31 - 1) :
    Inv (A.signal s) r := by
  rcases h.signal_cases hs hmax with ⟨-, ⟨t, rest, hw⟩, he⟩ | ⟨hge, he⟩
  · rw [he]
    exact h.deblock hs rfl hw
  · rw [he]
    exact h.setVal hs (by omega) (by omega) hge

theorem Inv.semClose (h : Inv A r) (hs : s ∈ A.sems) : Inv (A.semClose s) r := by
  unfold Sys.semClose
  rw [release_foldl]
  have hp : ({ A with
      ready := A.ready ++ A.waiting s
      sems := A.sems.erase s
      waiting := update A.waiting s [] } : Sys).queued.Perm A.queued := by
    have h1 := contents_perm A.waiting hs
    rw [List.perm_iff_count] at h1 ⊢
    intro a
    have h1 := h1 a
    simp only [queued, List.count_append,
      contents_update_of_notMem A.waiting [] h.sems.not_mem_erase] at h1 ⊢
    omega
  refine h.move (hp.append_left r) rfl rfl (fun u _ => ?_) (fun i _ hr => ?_) (h.sems.erase s)
    (fun u hu w hw => ?_) (fun u hu => ?_) fun u hu => ?_
  · simp only
    split <;> exact ⟨rfl, rfl⟩
  · simp only
    split
    · exact hr
    · exact hr
  · obtain ⟨hus, hu'⟩ := (h.sems.mem_erase_iff).1 hu
    simp only [update_of_ne hus] at hw ⊢
    have hws : w ∉ A.waiting s := by
      intro hm
      have h1 := (h.waiting u hu' w hw).2
      rw [(h.waiting s hs w hm).2] at h1
      exact hus (Option.some.inj h1).symm
    rw [if_neg hws]
    exact h.waiting u hu' w hw
  · simp only
    split
    · exact h.asleep u hu
    · exact h.asleep u hu
  · obtain ⟨hus, hu'⟩ := (h.sems.mem_erase_iff).1 hu
    simpa [hus] using h.val u hu'

/-! ## Sleeping -/

theorem insertSleep_perm (t time : Nat) (l : List (Nat × Nat)) :
    ((insertSleep t time l).map Prod.fst).Perm (t :: l.map Prod.fst) := by
  induction l generalizing time with
  | nil => exact .refl _
  | cons e l ih =>
    obtain ⟨u, d⟩ := e
    unfold insertSleep
    split
    · exact .refl _
    · exact ((ih _).cons u).trans (.swap _ _ _)

theorem Inv.lull {time : Nat} (h : Inv A [t]) (hrun : A.running = some t)
    (hi : A.idle ≠ some t) : Inv (A.lull time) [] := by
  unfold Sys.lull
  simp only [hrun]
  have hne : ∀ u ∈ A.queued, u ≠ t := fun u hu he => h.not_mem (he ▸ hu)
  have hins := insertSleep_perm t time A.sleeping
  have hp : ({ A with sleeping := insertSleep t time A.sleeping } : Sys).queued.Perm
      ([t] ++ A.queued) := by
    rw [List.perm_iff_count] at hins ⊢
    intro a
    have := hins a
    simp only [queued, List.count_append, List.count_cons, List.count_nil] at this ⊢
    omega
  refine h.move hp rfl rfl (fun u hu => ?_) (fun i hi' hr => ?_) h.sems (fun u hu w hw => ?_)
    (fun u hu => ?_) h.val
  · by_cases hut : u = t
    · subst hut; simp [Sys.modTcb]
    · simp [Sys.modTcb, hut]
  · have hit : i ≠ t := fun he => hi (he ▸ hi')
    simpa [Sys.modTcb, hit] using hr
  · have hwt := hne w (mem_queued.2 (.inr (.inl ⟨u, hu, hw⟩)))
    simpa [Sys.modTcb, hwt] using h.waiting u hu w hw
  · rcases List.mem_cons.1 (hins.mem_iff.1 hu) with rfl | hu
    · simp [Sys.modTcb]
    · have hut := hne u (mem_queued.2 (.inr (.inr hu)))
      simpa [Sys.modTcb, hut] using h.asleep u hu

theorem sleep_eq {time : Nat} (hrun : A.running = some t) : A.sleep time = (A.lull time).switch := by
  have hrq : (A.lull time).requeue = A.lull time :=
    requeue_of_not_runnable (t := t) (by simp [Sys.lull, hrun, Sys.modTcb])
      (by simp [Sys.lull, hrun, Sys.modTcb, TCB.runnable])
  unfold Sys.sleep Sys.dispatch
  rw [hrq]

theorem Stable.sleep (h : Stable A) (time : Nat) (hi : A.running ≠ A.idle) :
    Stable (A.sleep time) := by
  obtain ⟨t, hrun, hinv⟩ := h
  rw [sleep_eq hrun]
  exact (hinv.lull hrun (by rw [← hrun]; exact hi.symm)).switch

theorem Inv.wake (h : Inv A r) : Inv A.wake r := by
  obtain ⟨l, hl, hfst⟩ := A.wake_eq
  have hnd := h.sleeping_nodup
  rw [← hfst, ← due_append] at hnd
  have hsub : ∀ u, u ∈ due l ++ (l.dropWhile fun e => e.2 = 0).map Prod.fst →
      u ∈ A.sleeping.map Prod.fst := by
    rw [due_append, hfst]
    exact fun _ hu => hu
  rw [hl, wakeLoop_eq]
  have hp : ({ A with ready := A.ready ++ due l, sleeping := l.dropWhile fun e => e.2 = 0 } :
      Sys).queued.Perm A.queued := by
    rw [List.perm_iff_count]
    intro a
    simp only [queued, List.count_append, ← hfst, ← due_append l]
    omega
  refine h.move (hp.append_left r) rfl rfl (fun u _ => ?_) (fun i _ hr => ?_) h.sems
    (fun s hs u hu => ?_) (fun u hu => ?_) h.val
  · simp only
    split <;> exact ⟨rfl, rfl⟩
  · simp only
    split
    · exact runnable_iff.2 ⟨(runnable_iff.1 hr).1, (runnable_iff.1 hr).2.1, rfl⟩
    · exact hr
  · simp only
    split
    · exact h.waiting s hs u hu
    · exact h.waiting s hs u hu
  · have hud : u ∉ due l := fun hm => (List.nodup_append.1 hnd).2.2 u hm u hu rfl
    simp only [if_neg hud]
    exact h.asleep u (hsub u (List.mem_append_right _ hu))

theorem Stable.timer (h : Stable A) : Stable A.timer := by
  obtain ⟨t, hrun, hinv⟩ := h
  let A₀ : Sys := { A with timeSliceCounter := (A.timeSliceCounter + 1) % 2 ^ 64 }
  have hA₀ : Inv A₀ [t] := { hinv with }
  have hrun₁ : A₀.wake.running = some t := A₀.wake_running.trans hrun
  change Stable A₀.wake.preempt
  unfold Sys.preempt
  simp only [hrun₁]
  split
  · exact Stable.dispatch ⟨t, rfl, { hA₀.wake with }⟩
  · exact ⟨t, hrun₁, hA₀.wake⟩

end Sys

end SlabKernel
