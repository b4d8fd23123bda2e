import SlabKernel.Threads.Runs

/-!
# No thread is lost

In runs without closing and destroying, `Exact` joins the invariant: every started thread that has
not finished has a place, and its flags say which. `no_thread_lost` is the result about the kernel.
-/

namespace SlabKernel

open Function (update update_self update_of_ne)
open PtrList Runs

namespace Sys

variable {A A' : Sys} {r r' : List Nat} {s t u m : Nat}

/-- Every started thread has a place, and its flags say which; `m` is the main thread. -/
structure Exact (m : Nat) (A : Sys) (r : List Nat) : Prop where
  main : m ∈ A.tcbs
  placed : ∀ t ∈ A.tcbs, (A.tcb t).started = true ∨ t = m → (A.tcb t).finished = false →
    t ∈ r ++ A.queued
  blocked : ∀ t, (A.tcb t).blocked = true → ∃ s ∈ A.sems, t ∈ A.waiting s
  asleep : ∀ t, (A.tcb t).asleep = true → t ∈ A.sleeping.map Prod.fst
  fresh : ∀ t, t ∉ A.tcbs → (A.tcb t).started = false

/-- The threads change places; only finished threads lose theirs. -/
theorem Exact.move (h : Exact m A r) (htcbs : A'.tcbs = A.tcbs)
    (hst : ∀ t, (A'.tcb t).started = (A.tcb t).started)
    (hfin : ∀ t, (A'.tcb t).finished = false → (A.tcb t).finished = false)
    (hsub : ∀ t ∈ r ++ A.queued, (A'.tcb t).finished = false → t ∈ r' ++ A'.queued)
    (blocked : ∀ t, (A'.tcb t).blocked = true → ∃ s ∈ A'.sems, t ∈ A'.waiting s)
    (asleep : ∀ t, (A'.tcb t).asleep = true → t ∈ A'.sleeping.map Prod.fst) :
    Exact m A' r' where
  main := htcbs ▸ h.main
  placed t ht hs hf := by
    rw [htcbs] at ht
    rw [hst] at hs
    exact hsub t (h.placed t ht hs (hfin t hf)) hf
  blocked := blocked
  asleep := asleep
  fresh t ht := by
    rw [htcbs] at ht
    rw [hst]
    exact h.fresh t ht

/-- The threads change places, and one of them its flags. -/
theorem Exact.moveOne {f : TCB → TCB} (h : Exact m A r) (htcbs : A'.tcbs = A.tcbs)
    (htcb : A'.tcb = update A.tcb t (f (A.tcb t)))
    (hf : (f (A.tcb t)).started = (A.tcb t).started ∧
      ((f (A.tcb t)).finished = false → (A.tcb t).finished = false))
    (hsub : ∀ u ∈ r ++ A.queued, u ∈ r' ++ A'.queued)
    (hblocked : (f (A.tcb t)).blocked = true → ∃ s ∈ A'.sems, t ∈ A'.waiting s)
    (blocked : ∀ u, u ≠ t → (A.tcb u).blocked = true → ∃ s ∈ A'.sems, u ∈ A'.waiting s)
    (hasleep : (f (A.tcb t)).asleep = true → t ∈ A'.sleeping.map Prod.fst)
    (asleep : ∀ u, u ≠ t → (A.tcb u).asleep = true → u ∈ A'.sleeping.map Prod.fst) :
    Exact m A' r' := by
  refine h.move htcbs (fun u => ?_) (fun u => ?_) (fun u hu _ => hsub u hu) (fun u => ?_) fun u => ?_
  all_goals
    rw [htcb]
    by_cases hut : u = t
  · rw [hut, update_self]
    exact hf.1
  · rw [update_of_ne hut]
  · rw [hut, update_self]
    exact hf.2
  · rw [update_of_ne hut]
    exact id
  · rw [hut, update_self]
    exact hblocked
  · rw [update_of_ne hut]
    exact blocked u hut
  · rw [hut, update_self]
    exact hasleep
  · rw [update_of_ne hut]
    exact asleep u hut

/-- The running thread has no flag set but that it may have finished. -/
theorem Exact.running_flags (h : Exact m A [t]) (hinv : Inv A [t]) :
    (A.tcb t).blocked = false ∧ (A.tcb t).asleep = false := by
  refine ⟨Bool.eq_false_iff.2 fun hb => ?_, Bool.eq_false_iff.2 fun ha => ?_⟩
  · exact hinv.not_mem (mem_queued.2 (.inr (.inl (h.blocked t hb))))
  · exact hinv.not_mem (mem_queued.2 (.inr (.inr (h.asleep t ha))))

theorem Exact.requeue (h : Exact m A [t]) (hinv : Inv A [t]) (hrun : A.running = some t) :
    Exact m A.requeue [] := by
  unfold Sys.requeue
  rw [hrun]
  simp only
  split
  · refine h.move rfl (fun _ => rfl) (fun _ hf => hf) (fun u hu _ => ?_) h.blocked h.asleep
    exact (queued_put A t).mem_iff.2 hu
  · rename_i hr
    refine h.move rfl (fun _ => rfl) (fun _ hf => hf) (fun u hu hf => ?_) h.blocked h.asleep
    refine (List.mem_cons.1 hu).resolve_left fun hut => hr ?_
    rw [hut] at hf
    exact runnable_iff.2 ⟨hf, h.running_flags hinv⟩

theorem Exact.switch (h : Exact m A []) (hrun : A.switch.running = some t) (hne : A.ready ≠ []) :
    Exact m A.switch [t] := by
  unfold Sys.switch at hrun ⊢
  cases hrd : A.ready with
  | nil => exact absurd hrd hne
  | cons u R =>
    simp only [hrd, Option.some.injEq] at hrun
    subst hrun
    refine h.move rfl (fun _ => rfl) (fun _ hf => hf) (fun v hv _ => ?_) h.blocked h.asleep
    simpa [queued, hrd] using hv

/-- A stable scheduler in which every thread has its place. -/
def Total (m : Nat) (A : Sys) : Prop := ∃ t, A.running = some t ∧ Inv A [t] ∧ Exact m A [t]

theorem Total.of_switch (hinv : Inv A []) (h : Exact m A []) : Total m A.switch := by
  obtain ⟨t, hrun, hst⟩ := hinv.switch
  obtain ⟨i, -, hr, hm⟩ := hinv.idle
  have hne : A.ready ≠ [] := List.ne_nil_of_mem (hinv.ready_of_runnable hm hr)
  exact ⟨t, hrun, hst, h.switch hrun hne⟩

theorem Total.dispatch (h : Total m A) : Total m A.dispatch := by
  obtain ⟨t, hrun, hinv, hex⟩ := h
  exact .of_switch (hinv.requeue hrun) (hex.requeue hinv hrun)

/-- A started thread without a place becomes ready. -/
theorem Exact.enqueue (h : Exact m A r) (ht : t ∈ A.tcbs) :
    Exact m ((A.put t).modTcb t fun x => { x with started := true }) r := by
  have hq := ((queued_put A t).append_left r).trans List.perm_middle
  have hflags : ∀ u, (((A.put t).modTcb t fun x => { x with started := true }).tcb u) =
      if u = t then { A.tcb t with started := true } else A.tcb u := fun u =>
    Function.update_apply _ _ _ u
  refine ⟨h.main, fun u hu hs hf => hq.mem_iff.2 ?_, fun u hb => h.blocked u ?_,
    fun u ha => h.asleep u ?_, fun u hu => ?_⟩
  · by_cases hut : u = t
    · exact hut ▸ .head _
    · rw [hflags, if_neg hut] at hs hf
      exact .tail _ (h.placed u hu hs hf)
  · rw [hflags] at hb
    split at hb
    · rename_i hut; rw [hut]; exact hb
    · exact hb
  · rw [hflags] at ha
    split at ha
    · rename_i hut; rw [hut]; exact ha
    · exact ha
  · have hut : u ≠ t := fun he => hu (he ▸ ht)
    rw [hflags, if_neg hut]
    exact h.fresh u hu

theorem Exact.createThread (h : Exact m A r) (ht : t ∉ A.tcbs) (startRoutine arg stackSpace : Ptr)
    (id : Int) (start : Bool) :
    Exact m (A.createThread t startRoutine arg stackSpace id start) r := by
  have hA : Exact m ({ A with tcbs := t :: A.tcbs }.modTcb t fun x => { x with
      stack := if startRoutine.isSome then stackSpace else none
      fun_ := startRoutine
      funArg := arg
      pid := id }) r := by
    refine ⟨.tail _ h.main, fun u hu hs hf => ?_, fun u hb => h.blocked u ?_,
      fun u ha => h.asleep u ?_, fun u hu => ?_⟩
    · have hut : u ≠ t := by
        intro he
        subst he
        rcases hs with hs | hs
        · simp [Sys.modTcb, h.fresh u ht] at hs
        · exact ht (hs ▸ h.main)
      simp only [Sys.modTcb, update_of_ne hut] at hs hf
      exact h.placed u ((List.mem_cons.1 hu).resolve_left hut) hs hf
    · by_cases hut : u = t
      · subst hut; simpa [Sys.modTcb] using hb
      · simpa [Sys.modTcb, hut] using hb
    · by_cases hut : u = t
      · subst hut; simpa [Sys.modTcb] using ha
      · simpa [Sys.modTcb, hut] using ha
    · obtain ⟨hut, hu⟩ := not_or.1 (fun hm => hu (List.mem_cons.2 hm))
      simpa [Sys.modTcb, hut] using h.fresh u hu
  unfold Sys.createThread
  simp only
  split
  · exact hA.enqueue (.head _)
  · exact hA

theorem Exact.startThread (h : Exact m A r) (ht : t ∈ A.tcbs) : Exact m (A.startThread t) r := by
  unfold Sys.startThread
  split
  · exact h
  · exact h.enqueue ht

theorem Exact.createSem {init : Nat} (h : Exact m A r) (hs : s ∉ A.sems) :
    Exact m (A.createSem s init) r := by
  have hw : ∀ u ∈ A.sems, update A.waiting s [] u = A.waiting u := fun u hu =>
    update_of_ne (fun he : u = s => hs (he ▸ hu)) _ _
  have hq : (A.createSem s init).queued = A.queued := by
    simp only [queued, Sys.createSem, List.flatMap_cons, update_self, List.nil_append]
    rw [Queues.contents_update_of_notMem A.waiting [] hs]
  refine h.move rfl (fun _ => rfl) (fun _ hf => hf) (fun u hu _ => hq ▸ hu) (fun u hb => ?_)
    h.asleep
  obtain ⟨v, hv, hm⟩ := h.blocked u hb
  exact ⟨v, .tail _ hv, by simpa only [Sys.createSem, hw v hv] using hm⟩

theorem Total.exit (h : Total m A) (hi : A.running ≠ A.idle) : Total m A.exit := by
  obtain ⟨t, hrun, hinv, hex⟩ := h
  unfold Sys.exit
  rw [hrun] at hi ⊢
  refine Total.dispatch ⟨t, hrun, hinv.modTcb t _ (fun _ => ⟨rfl, rfl, rfl, rfl, rfl⟩) hi.symm, ?_⟩
  refine hex.moveOne (f := fun x => { x with finished := true }) rfl rfl ⟨rfl, fun hf => ?_⟩
    (fun _ hu => hu) (hex.blocked t) (fun u _ => hex.blocked u) (hex.asleep t)
    fun u _ => hex.asleep u
  cases hf

theorem Exact.park {v : Int} (h : Exact m A [t]) (hrun : A.running = some t) (hs : s ∈ A.sems) :
    Exact m (({ A with val := update A.val s v } : Sys).park s) [] := by
  unfold Sys.park
  simp only [hrun]
  have hw : ∀ u ∈ A.sems, ∀ w ∈ A.waiting u,
      w ∈ update A.waiting s (A.waiting s ++ [t]) u := by
    intro u _ w hm
    by_cases hus : u = s
    · subst hus
      rw [update_self]
      exact List.mem_append_left _ hm
    · rwa [update_of_ne hus]
  have ht : t ∈ update A.waiting s (A.waiting s ++ [t]) s := by simp
  refine h.moveOne (f := fun x => { x with blocked := true, holder := some s }) rfl rfl ⟨rfl, id⟩
    (fun u hu => ?_) (fun _ => ⟨s, hs, ht⟩) (fun u _ hb => ?_) (h.asleep t) fun u _ => h.asleep u
  · apply mem_queued.2
    rcases List.mem_cons.1 hu with rfl | hu
    · exact .inr (.inl ⟨s, hs, ht⟩)
    · rcases mem_queued.1 hu with hm | ⟨w, hw', hm⟩ | hm
      · exact .inl hm
      · exact .inr (.inl ⟨w, hw', hw w hw' u hm⟩)
      · exact .inr (.inr hm)
  · obtain ⟨w, hw', hm⟩ := h.blocked u hb
    exact ⟨w, hw', hw w hw' u hm⟩

/-- Only values that say nothing about places change. -/
theorem Exact.frame (h : Exact m A r) (val : Nat → Int) (timeSliceCounter : Nat) :
    Exact m { A with val, timeSliceCounter } r := { h with }

theorem Total.wait (h : Total m A) (hi : A.running ≠ A.idle) (hs : s ∈ A.sems) :
    Total m (A.wait s) := by
  obtain ⟨t, hrun, hinv, hex⟩ := h
  rcases hinv.wait_cases hrun hs with ⟨hlt, he⟩ | ⟨hge, he⟩
  · rw [he]
    exact .of_switch (hinv.park hrun (by rw [← hrun]; exact hi.symm) hs rfl hlt)
      (hex.park hrun hs)
  · rw [he]
    have := (hinv.val s hs).1
    exact ⟨t, hrun, hinv.setVal hs hge (by omega) (by omega), hex.frame _ _⟩

theorem Exact.deblock {v : Int} {rest : List Nat} (h : Exact m A r) (hs : s ∈ A.sems)
    (hw : A.waiting s = t :: rest) :
    Exact m (({ A with val := update A.val s v } : Sys).deblock s) r := by
  unfold Sys.deblock
  simp only [hw]
  have hmem : ∀ u ∈ A.sems, ∀ w ∈ A.waiting u, w ≠ t → w ∈ update A.waiting s rest u := by
    intro u _ w hm hwt
    by_cases hus : u = s
    · subst hus
      rw [update_self]
      rw [hw] at hm
      exact (List.mem_cons.1 hm).resolve_left hwt
    · rwa [update_of_ne hus]
  refine h.moveOne (f := fun x => { x with holder := none, blocked := false }) rfl rfl ⟨rfl, id⟩
    (fun u hu => ?_) (fun hb => ?_) (fun u hut hb => ?_) (h.asleep t) fun u _ => h.asleep u
  · rcases List.mem_append.1 hu with hu | hu
    · exact List.mem_append_left _ hu
    · refine List.mem_append_right _ (mem_queued.2 ?_)
      by_cases hut : u = t
      · exact .inl (List.mem_append_right _ (by simp [hut]))
      · rcases mem_queued.1 hu with hm | ⟨w, hw', hm⟩ | hm
        · exact .inl (List.mem_append_left _ hm)
        · exact .inr (.inl ⟨w, hw', hmem w hw' u hm hut⟩)
        · exact .inr (.inr hm)
  · cases hb
  · obtain ⟨w, hw', hm⟩ := h.blocked u hb
    exact ⟨w, hw', hmem w hw' u hm hut⟩

theorem Exact.signal (h : Exact m A r) (hinv : Inv A r) (hs : s ∈ A.sems)
    (hmax : A.val s < 2 ^ 31 - 1) : Exact m (A.signal s) r := by
  rcases hinv.signal_cases hs hmax with ⟨-, ⟨t, rest, hw⟩, he⟩ | ⟨-, he⟩
  · rw [he]
    exact h.deblock hs hw
  · rw [he]
    exact h.frame _ _

theorem Exact.lull {time : Nat} (h : Exact m A [t]) (hrun : A.running = some t) :
    Exact m (A.lull time) [] := by
  unfold Sys.lull
  simp only [hrun]
  have hins := insertSleep_perm t time A.sleeping
  refine h.moveOne (f := fun x => { x with asleep := true }) rfl rfl ⟨rfl, id⟩ (fun u hu => ?_)
    (h.blocked t) (fun u _ => h.blocked u)
    (fun _ => hins.mem_iff.2 (.head _)) fun u _ ha => hins.mem_iff.2 (.tail _ (h.asleep u ha))
  · apply mem_queued.2
    rcases List.mem_cons.1 hu with rfl | hu
    · exact .inr (.inr (hins.mem_iff.2 (.head _)))
    · rcases mem_queued.1 hu with hm | hm | hm
      · exact .inl hm
      · exact .inr (.inl hm)
      · exact .inr (.inr (hins.mem_iff.2 (.tail _ hm)))

theorem Total.sleep {time : Nat} (h : Total m A) (hi : A.running ≠ A.idle) :
    Total m (A.sleep time) := by
  obtain ⟨t, hrun, hinv, hex⟩ := h
  rw [sleep_eq hrun]
  exact .of_switch (hinv.lull hrun (by rw [← hrun]; exact hi.symm)) (hex.lull hrun)

theorem Exact.wake (h : Exact m A r) : Exact m A.wake r := by
  obtain ⟨l, hl, hfst⟩ := A.wake_eq
  rw [hl, wakeLoop_eq]
  have hmem : ∀ u ∈ A.sleeping.map Prod.fst,
      u ∈ due l ∨ u ∈ (l.dropWhile fun e => e.2 = 0).map Prod.fst := by
    intro u hu
    rw [← hfst, ← due_append] at hu
    exact List.mem_append.1 hu
  refine h.move rfl (fun u => ?_) (fun u hf => ?_) (fun u hu _ => ?_) (fun u hb => ?_) fun u ha => ?_
  · simp only
    split <;> rfl
  · simp only at hf
    split at hf
    · exact hf
    · exact hf
  · rcases List.mem_append.1 hu with hu | hu
    · exact List.mem_append_left _ hu
    · refine List.mem_append_right _ (mem_queued.2 ?_)
      rcases mem_queued.1 hu with hm | hm | hm
      · exact .inl (List.mem_append_left _ hm)
      · exact .inr (.inl hm)
      · rcases hmem u hm with hm | hm
        · exact .inl (List.mem_append_right _ hm)
        · exact .inr (.inr hm)
  · simp only at hb
    split at hb
    · exact h.blocked u hb
    · exact h.blocked u hb
  · simp only at ha
    split at ha
    · cases ha
    · rename_i hd
      exact (hmem u (h.asleep u ha)).resolve_left hd

theorem Total.timer (h : Total m A) : Total m A.timer := by
  obtain ⟨t, hrun, hinv, hex⟩ := h
  let A₀ : Sys := { A with timeSliceCounter := (A.timeSliceCounter + 1) % 2 ^ 64 }
  have hA₀ : Inv A₀ [t] := { hinv with }
  have hE₀ : Exact m A₀ [t] := hex.frame _ _
  have hrun₁ : A₀.wake.running = some t := A₀.wake_running.trans hrun
  change Total m A₀.wake.preempt
  unfold Sys.preempt
  simp only [hrun₁]
  split
  · exact Total.dispatch ⟨t, rfl, { hA₀.wake with }, { hE₀.wake with }⟩
  · exact ⟨t, hrun₁, hA₀.wake, hE₀.wake⟩

end Sys

/-! ## Runs -/

/-- Neither a semaphore nor a thread is destroyed. -/
def Entry.Plain : Entry → Prop
  | .semClose _ => False
  | .threadDestroy _ => False
  | _ => True

/-- The entries of a run without destruction. -/
def Kernel.OkPlain (k : Kernel) (e : Entry) : Prop := k.Ok e ∧ e.Plain

variable {k k' : Kernel} {A : Sys} {m t : Nat}

theorem step_total {e : Entry} (h : Rep k A) (ht : A.Total m) (hok : k.OkPlain e) :
    (A.step e).Total m := by
  obtain ⟨u, hrun, hinv, hex⟩ := id ht
  obtain ⟨k', -, -, v, hv, hinv'⟩ := step_rep h ⟨u, hrun, hinv⟩ hok.1
  have hidle : (k.running ≠ k.idleThread) = (A.running ≠ A.idle) := by rw [h.running, h.idle]
  obtain ⟨hok, hpl⟩ := hok
  have hsame : (A.step e).running = A.running → (A.step e).Exact m [u] → (A.step e).Total m := by
    intro hr hx
    rw [hr, hrun, Option.some.injEq] at hv
    exact ⟨u, hr.trans hrun, hv ▸ hinv', hx⟩
  cases e with
  | createThread thread startRoutine arg stackSpace id start =>
    obtain ⟨-, -, w, rfl, hw, -⟩ := hok
    rw [h.tcbs] at hw
    refine hsame ?_ (hex.createThread hw startRoutine arg stackSpace id start)
    unfold Sys.step Sys.createThread
    simp only
    split <;> rfl
  | startThread handle =>
    obtain ⟨-, w, rfl, hw, -⟩ := hok
    rw [h.tcbs] at hw
    refine hsame ?_ (hex.startThread hw)
    unfold Sys.step Sys.startThread
    simp only
    split <;> rfl
  | dispatch => exact Sys.Total.dispatch ⟨u, hrun, { hinv with }, hex.frame _ _⟩
  | exit => exact ht.exit (hidle ▸ hok)
  | timer => exact ht.timer
  | sleep time node => exact ht.sleep (hidle ▸ hok.1)
  | semOpen semaphore init =>
    obtain ⟨-, -, s, rfl, hs⟩ := hok
    rw [h.sems] at hs
    exact hsame rfl (hex.createSem hs)
  | wait s node =>
    obtain ⟨hi, hs, -⟩ := hok
    rw [h.sems] at hs
    exact ht.wait (hidle ▸ hi) hs
  | signal s =>
    obtain ⟨hs, hmax⟩ := hok
    rw [h.sems] at hs
    rw [h.val] at hmax
    refine hsame ?_ (hex.signal hinv hs hmax)
    unfold Sys.step Sys.signal Sys.deblock
    simp only
    split
    · split <;> rfl
    · rfl
  | semClose s => exact hpl.elim
  | threadDestroy w => exact hpl.elim

/-- The kernel represents a stable scheduler in which every thread has its place. -/
def AllPlaced (m : Nat) (k : Kernel) : Prop := ∃ A, Rep k A ∧ A.Total m

theorem AllPlaced.step {e : Entry} (h : AllPlaced m k) (hok : k.OkPlain e) :
    ∃ k', k.step e = some k' ∧ AllPlaced m k' := by
  obtain ⟨A, hr, ht⟩ := h
  obtain ⟨t, hrun, hinv, -⟩ := id ht
  obtain ⟨k', he, hr', -⟩ := step_rep hr ⟨t, hrun, hinv⟩ hok.1
  exact ⟨k', he, _, hr', step_total hr ht hok⟩

theorem AllPlaced.run {es : List Entry} (h : AllPlaced m k)
    (hrun : Run Kernel.OkPlain Kernel.step k es k') : AllPlaced m k' := by
  refine hrun.inv (AllPlaced m) (fun k e k' hk hok he => ?_) h
  obtain ⟨k'', he', hk'⟩ := hk.step hok
  rw [he] at he'
  exact Option.some.inj he' ▸ hk'

theorem Boot.total {e : Boot} (h : e.Ok) : e.sys.Total e.mainThread := by
  obtain ⟨t, hrun, hinv⟩ := Boot.stable h
  obtain rfl : e.mainThread = t := Option.some.inj hrun
  have hflags : ∀ t, (e.sys.tcb t).blocked = false ∧ (e.sys.tcb t).asleep = false := by
    intro t
    simp [Boot.sys, Sys.createThread_tcb, Sys.createSem, Sys.reset, TCB.ctor]
    grind
  refine ⟨e.mainThread, rfl, hinv, ?_, fun t ht hs hf => ?_, fun t hb => ?_, fun t ha => ?_,
    fun t ht => ?_⟩
  · simp [e.sys_tcbs]
  · rw [e.sys_places]
    rw [e.sys_tcbs] at ht
    simp only [List.mem_cons, List.not_mem_nil, or_false] at ht ⊢
    tauto
  · rw [(hflags t).1] at hb
    cases hb
  · rw [(hflags t).2] at ha
    cases ha
  · simp only [e.sys_tcbs, List.mem_cons, List.not_mem_nil, or_false, not_or] at ht
    obtain ⟨h1, h2, h3, h4⟩ := ht
    simp [Boot.sys, Sys.createThread_tcb, h1, h2, h3, h4, Sys.createSem, Sys.reset, TCB.ctor]

/-- **No thread is lost or duplicated.** In every state of a run without destruction, every admitted
entry returns, and a thread that is started, or is the main thread, and has not finished is in
exactly one place, exactly once: running, ready, in the queue of one semaphore, or asleep. Its flags
and its holder say which. -/
theorem no_thread_lost {e : Boot} {k₀ : Kernel} {es : List Entry} (he : e.Ok)
    (hboot : e.kernel = some k₀) (hrun : Run Kernel.OkPlain Kernel.step k₀ es k) :
    (∀ x, k.OkPlain x → ∃ k', k.step x = some k') ∧
    ∃ R W S, Lists k R W S ∧
      ∀ t ∈ k.tcbs, (k.tcb t).started = true ∨ t = e.mainThread → (k.tcb t).finished = false →
        (k.running.toList ++ (R ++ (k.sems.flatMap W ++ S))).count t = 1 ∧
        ((k.tcb t).blocked = true ↔ ∃ s ∈ k.sems, t ∈ W s) ∧
        (∀ s ∈ k.sems, t ∈ W s → (k.tcb t).holder = some s) ∧
        ((k.tcb t).asleep = true ↔ t ∈ S) := by
  obtain ⟨k₀', hk, hr₀⟩ := Boot.rep he
  rw [hboot, Option.some.injEq] at hk
  subst hk
  have hall := AllPlaced.run ⟨_, hr₀, Boot.total he⟩ hrun
  obtain ⟨A, hr, t₀, hrun₀, hinv, hex⟩ := id hall
  refine ⟨fun x hx => ?_, _, _, _, hr.lists, fun t ht hs hf => ?_⟩
  · obtain ⟨k', hk', -⟩ := hall.step hx
    exact ⟨k', hk'⟩
  have hst : (k.tcb t).started = (A.tcb t).started := by rw [← hr.tcb t]; rfl
  have hfin : (k.tcb t).finished = (A.tcb t).finished := by rw [← hr.tcb t]; rfl
  have hbl : (k.tcb t).blocked = (A.tcb t).blocked := by rw [← hr.tcb t]; rfl
  have hho : (k.tcb t).holder = (A.tcb t).holder := by rw [← hr.tcb t]; rfl
  have has : (k.tcb t).asleep = (A.tcb t).asleep := by rw [← hr.tcb t]; rfl
  rw [hst] at hs
  rw [hfin] at hf
  rw [hr.tcbs] at ht
  rw [hbl, hho, has, hr.running, hrun₀, hr.sems]
  refine ⟨List.count_eq_one_of_mem hinv.nodup (hex.placed t ht hs hf), ⟨hex.blocked t, ?_⟩,
    fun s hs hm => (hinv.waiting s hs t hm).2, ⟨hex.asleep t, hinv.asleep t⟩⟩
  intro hand
  obtain ⟨s, hs, hm⟩ := hand
  exact (hinv.waiting s hs t hm).1

/-- The main thread creates a thread and sleeps; the thread that runs next waits and is released. -/
theorem no_thread_lost_boot128 : ∃ k₀ k, boot128.kernel = some k₀ ∧
    Run Kernel.OkPlain Kernel.step k₀
      [.createThread (some 0x87007000) (some 0x80002000) none (some 0x87008000) 0 true,
        .sleep 3 (some 0x87009000), .timer, .wait 1 (some 0x8700a000), .signal 1] k ∧
    ∃ R W S, Lists k R W S ∧
      (k.running.toList ++ (R ++ (k.sems.flatMap W ++ S))).count 0x87000000 = 1 := by
  obtain ⟨k₀, k, hboot, hrun, ht, hs, hf⟩ : ∃ k₀ k, boot128.kernel = some k₀ ∧
      Run Kernel.OkPlain Kernel.step k₀
        [.createThread (some 0x87007000) (some 0x80002000) none (some 0x87008000) 0 true,
          .sleep 3 (some 0x87009000), .timer, .wait 1 (some 0x8700a000), .signal 1] k ∧
      0x87000000 ∈ k.tcbs ∧ (k.tcb 0x87000000).started = true ∧
        (k.tcb 0x87000000).finished = false := by
    refine ⟨_, _, rfl, .cons ?_ rfl (.cons ?_ rfl (.cons ?_ rfl (.cons ?_ rfl
      (.cons ?_ rfl .nil)))), ?_, ?_, ?_⟩
    · exact ⟨⟨by decide, by decide, _, rfl, by decide, by decide, by decide⟩, trivial⟩
    · exact ⟨⟨by decide, by decide, by decide, _, rfl, by decide⟩, trivial⟩
    · exact ⟨trivial, trivial⟩
    · exact ⟨⟨by decide, by decide, _, rfl, by decide⟩, trivial⟩
    · exact ⟨⟨by decide, by decide⟩, trivial⟩
    · decide
    · decide
    · decide
  obtain ⟨-, R, W, S, hl, h⟩ := no_thread_lost boot128_ok hboot hrun
  exact ⟨k₀, k, hboot, hrun, R, W, S, hl, (h _ ht (.inl hs) hf).1⟩

end SlabKernel
