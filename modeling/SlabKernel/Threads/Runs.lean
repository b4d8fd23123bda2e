import SlabKernel.Lib.Run
import SlabKernel.Threads.Inv
import SlabKernel.Threads.Refine

/-!
# Runs of the kernel

`Kernel.Ok k e`: the environment may make the entry `e` in the state `k`. `Represented k`: the
kernel represents a stable abstract scheduler. It holds after boot (`Boot.represented`), and every
admitted entry returns and keeps it (`Represented.step`), so every run does (`Represented.run`).

`Lists k R W S` reads the lists off the memory: following the pointers gives the ready threads `R`,
the waiting threads `W s` of each semaphore, and the sleeping threads `S`.
-/

namespace SlabKernel

open Function (update update_self update_of_ne)
open PtrList Runs

/-! ## The environment -/

/-- The lists that the pointers of `k` link. -/
structure Lists (k : Kernel) (R : List Nat) (W : Nat → List Nat) (S : List Nat) : Prop where
  ready : Linked (fun t => (k.tcb t).next) k.head R
  waiting : ∀ s ∈ k.sems, ∃ N, Linked (fun n => (k.blockedQueue n).next) (k.sem s).head N ∧
    N.map (fun n => (k.blockedQueue n).tcb) = W s
  sleeping : ∃ N, Linked (fun n => (k.sleepQueue n).next) k.sleepHead N ∧
    N.map (fun n => (k.sleepQueue n).tcb) = S

/-- The thread is in no queue. -/
def Kernel.Free (k : Kernel) (t : Nat) : Prop :=
  ∃ R W S, Lists k R W S ∧ t ∉ R ∧ (∀ s ∈ k.sems, t ∉ W s) ∧ t ∉ S

/-- The entries of the environment: objects are allocated where none is live, handles are live, and
the idle thread does nothing but dispatch. The counts stay below `INT_MAX`. -/
def Kernel.Ok (k : Kernel) : Entry → Prop
  | .createThread thread startRoutine _ _ _ _ => k.running ≠ k.idleThread ∧ startRoutine ≠ none ∧
    ∃ t, thread = some t ∧ t ∉ k.tcbs ∧ ramStart ≤ t ∧ t < ramEnd
  | .startThread handle => k.running ≠ k.idleThread ∧
    ∃ t, handle = some t ∧ t ∈ k.tcbs ∧ (k.tcb t).fun_ ≠ none
  | .dispatch => True
  | .exit => k.running ≠ k.idleThread
  | .timer => True
  | .sleep time node => k.running ≠ k.idleThread ∧ 1 ≤ time ∧ time < 2 ^ 64 ∧
    ∃ n, node = some n ∧ n ∉ k.sleeps
  | .semOpen semaphore init => k.running ≠ k.idleThread ∧ init < 2 ^ 31 ∧
    ∃ s, semaphore = some s ∧ s ∉ k.sems
  | .wait s node => k.running ≠ k.idleThread ∧ s ∈ k.sems ∧ ∃ n, node = some n ∧ n ∉ k.nodes
  | .signal s => s ∈ k.sems ∧ (k.sem s).val < 2 ^ 31 - 1
  | .semClose s => k.running ≠ k.idleThread ∧ s ∈ k.sems
  | .threadDestroy t => k.running ≠ k.idleThread ∧ t ∈ k.tcbs ∧ k.running ≠ some t ∧ k.Free t

/-! ## Steps -/

variable {k k' : Kernel} {A : Sys} {t s : Nat}

theorem Rep.lists (h : Rep k A) : Lists k A.ready A.waiting (A.sleeping.map Prod.fst) := by
  refine ⟨h.ready.linked, fun s hs => ?_, ?_⟩
  · obtain ⟨N, hN, -⟩ := h.waiting
    exact ⟨N s, (hN s hs).1.linked, (hN s hs).2.1⟩
  · obtain ⟨N, hl, hmap, -⟩ := h.sleeping
    refine ⟨N, hl, ?_⟩
    rw [← hmap, List.map_map]
    rfl

/-- The memory has one set of lists. -/
theorem Lists.unique {R R' : List Nat} {W W' : Nat → List Nat} {S S' : List Nat}
    (h : Lists k R W S) (h' : Lists k R' W' S') : R = R' ∧ (∀ s ∈ k.sems, W s = W' s) ∧ S = S' := by
  refine ⟨Linked.unique h.ready h'.ready, fun s hs => ?_, ?_⟩
  · obtain ⟨N, hN, hW⟩ := h.waiting s hs
    obtain ⟨N', hN', hW'⟩ := h'.waiting s hs
    rw [← hW, ← hW', Linked.unique hN hN']
  · obtain ⟨N, hN, hS⟩ := h.sleeping
    obtain ⟨N', hN', hS'⟩ := h'.sleeping
    rw [← hS, ← hS', Linked.unique hN hN']

theorem Rep.free_iff (h : Rep k A) : k.Free t ↔ t ∉ A.queued := by
  rw [Sys.mem_queued, not_or, not_or]
  constructor
  · intro hx
    obtain ⟨R, W, S, hl, hR, hW, hS⟩ := hx
    obtain ⟨rfl, hWA, rfl⟩ := hl.unique h.lists
    refine ⟨hR, fun ⟨s, hs, hm⟩ => ?_, hS⟩
    rw [← h.sems] at hs
    exact hW s hs (hWA s hs ▸ hm)
  · intro hx
    obtain ⟨hR, hW, hS⟩ := hx
    exact ⟨_, _, _, h.lists, hR, fun s hs hm => hW ⟨s, h.sems ▸ hs, hm⟩, hS⟩

/-- If no thread waits or sleeps, only the ready queue counts. -/
theorem Kernel.Free.of_ready {R : List Nat} (hR : Linked (fun t => (k.tcb t).next) k.head R)
    (hW : ∀ s ∈ k.sems, (k.sem s).head = none) (hS : k.sleepHead = none) (ht : t ∉ R) :
    k.Free t :=
  ⟨R, fun _ => [], [], ⟨hR, fun s hs => ⟨[], hW s hs, rfl⟩, [], hS, rfl⟩, ht,
    fun _ _ => List.not_mem_nil, List.not_mem_nil⟩

/-- **One entry of the kernel is one step of the abstract scheduler**, which stays stable. -/
theorem step_rep {e : Entry} (h : Rep k A) (hst : A.Stable) (hok : k.Ok e) :
    ∃ k', k.step e = some k' ∧ Rep k' (A.step e) ∧ (A.step e).Stable := by
  obtain ⟨t, hrun, hinv⟩ := id hst
  have hidle : (k.running ≠ k.idleThread) = (A.running ≠ A.idle) := by rw [h.running, h.idle]
  cases e with
  | createThread thread startRoutine arg stackSpace id start =>
    obtain ⟨hi, -, u, rfl, hu, hram⟩ := hok
    rw [h.tcbs] at hu
    have hinv' := hinv.createThread hu hram startRoutine arg stackSpace id start
    have hur : u ∉ A.ready := fun hm =>
      hu (hinv.live u (.tail _ (Sys.mem_queued.2 (.inl hm))))
    obtain ⟨k', he, hr⟩ := createThread_rep h hur startRoutine arg stackSpace id start
    refine ⟨k', by simp only [Kernel.step, he, Option.map_some], hr, t, ?_, hinv'⟩
    unfold Sys.step Sys.createThread
    simp only
    split
    · exact hrun
    · exact hrun
  | startThread handle =>
    obtain ⟨hi, u, rfl, hu, hf⟩ := hok
    rw [h.tcbs] at hu
    have hf' : (A.tcb u).fun_ ≠ none := by rw [← h.tcb u]; exact hf
    have hur : (A.tcb u).started = false → u ∉ A.ready := fun hs hm => by
      rcases hinv.started u (.tail _ (Sys.mem_queued.2 (.inl hm))) with h1 | h1
      · rw [hs] at h1; cases h1
      · exact hf' h1
    obtain ⟨r, k', he, hr⟩ := startThread_rep h hur
    refine ⟨k', by simp only [Kernel.step, he, Option.map_some], hr, t, ?_,
      hinv.startThread hu hf'⟩
    unfold Sys.step Sys.startThread
    simp only
    split
    · exact hrun
    · exact hrun
  | dispatch =>
    have hst' : ({ A with timeSliceCounter := 0 } : Sys).Stable := ⟨t, hrun, { hinv with }⟩
    obtain ⟨u, hu, -⟩ := id hst'.dispatch
    obtain ⟨k', he, hr⟩ := dispatch_rep (t := t)
      (show Rep { k with timeSliceCounter := 0 } { A with timeSliceCounter := 0 } from
        { h with counter := rfl }) hrun
      (fun _ hm => hinv.not_mem (Sys.mem_queued.2 (.inl hm))) (by rw [hu]; simp)
    exact ⟨k', he, hr, hst'.dispatch⟩
  | exit =>
    have hst' := hst.exit (hidle ▸ hok)
    obtain ⟨u, hu, -⟩ := id hst'
    obtain ⟨k', he, hr⟩ := suspend_rep h hrun (by rw [hu]; simp)
    exact ⟨k', he, hr, hst'⟩
  | timer =>
    have hst' := hst.timer
    obtain ⟨u, hu, -⟩ := id hst'
    have hlen : A.sleeping.length ≤ addrSpace :=
      Nat.le_trans hinv.sleeping_length (Nat.pow_le_pow_right (by decide) (by decide))
    have hnd : (t :: (A.ready ++ A.sleeping.map Prod.fst)).Nodup := by
      refine hinv.nodup.sublist (List.Sublist.cons_cons _ ?_)
      exact (List.Sublist.refl _).append (List.sublist_append_right _ _)
    obtain ⟨k', he, hr⟩ := timer_rep h hrun hlen hnd (by rw [hu]; simp)
    exact ⟨k', he, hr, hst'⟩
  | sleep time node =>
    obtain ⟨hi, -, -, n, rfl, hn⟩ := hok
    have hst' := hst.sleep time (hidle ▸ hi)
    obtain ⟨u, hu, -⟩ := id hst'
    have hlen : A.sleeping.length ≤ addrSpace :=
      Nat.le_trans hinv.sleeping_length (Nat.pow_le_pow_right (by decide) (by decide))
    obtain ⟨k', he, hr⟩ := timeSleep_rep h hrun hn hlen (by rw [hu]; simp)
    exact ⟨k', he, hr, hst'⟩
  | semOpen semaphore init =>
    obtain ⟨hi, hinit, s, rfl, hs⟩ := hok
    rw [h.sems] at hs
    obtain ⟨k', he, hr⟩ := createSem_rep h hs init
    exact ⟨k', he, hr, t, hrun, hinv.createSem hs hinit⟩
  | wait s node =>
    obtain ⟨hi, hs, n, rfl, hn⟩ := hok
    rw [h.sems] at hs
    have hst' := hst.wait (hidle ▸ hi) hs
    obtain ⟨u, hu, -⟩ := id hst'
    obtain ⟨k', he, hr⟩ := wait_rep h hs hn hrun (by rw [hu]; simp)
    exact ⟨k', he, hr, hst'⟩
  | signal s =>
    obtain ⟨hs, hmax⟩ := hok
    rw [h.sems] at hs
    rw [h.val] at hmax
    obtain ⟨k', he, hr⟩ := signal_rep h hs (hinv.waiting_cons hs)
    refine ⟨k', he, hr, t, ?_, hinv.signal hs hmax⟩
    unfold Sys.step Sys.signal Sys.deblock
    simp only
    split
    · split
      · exact hrun
      · exact hrun
    · exact hrun
  | semClose s =>
    obtain ⟨hi, hs⟩ := hok
    rw [h.sems] at hs
    have hlen : (A.waiting s).length ≤ addrSpace :=
      Nat.le_trans (hinv.waiting_length hs) (Nat.pow_le_pow_right (by decide) (by decide))
    obtain ⟨k', he, hr⟩ := semDestroy_rep h hs hinv.sems (hinv.ready_waiting_nodup hs) hlen
    refine ⟨k', he, hr, t, ?_, hinv.semClose hs⟩
    change ((A.waiting s).foldl Sys.release A).running = some t
    rw [Sys.release_foldl]
    exact hrun
  | threadDestroy u =>
    obtain ⟨hi, hu, hne, hfree⟩ := hok
    rw [h.free_iff] at hfree
    rw [h.running, hrun] at hne
    have hur : u ∉ A.ready := fun hm => hfree (Sys.mem_queued.2 (.inl hm))
    refine ⟨_, rfl, threadDestroy_rep h hur, t, hrun, hinv.threadDestroy ?_⟩
    simp only [List.singleton_append, List.mem_cons, not_or]
    exact ⟨fun he => hne (he ▸ rfl), hfree⟩

/-- The kernel represents a stable abstract scheduler. -/
def Represented (k : Kernel) : Prop := ∃ A, Rep k A ∧ A.Stable

theorem Represented.step {e : Entry} (h : Represented k) (hok : k.Ok e) :
    ∃ k', k.step e = some k' ∧ Represented k' := by
  obtain ⟨A, hr, hst⟩ := h
  obtain ⟨k', he, hr', hst'⟩ := step_rep hr hst hok
  exact ⟨k', he, _, hr', hst'⟩

theorem Represented.run {es : List Entry} (h : Represented k)
    (hrun : Run Kernel.Ok Kernel.step k es k') : Represented k' := by
  refine hrun.inv Represented (fun k e k' hk hok he => ?_) h
  obtain ⟨k'', he', hk'⟩ := hk.step hok
  rw [he] at he'
  exact Option.some.inj he' ▸ hk'

/-! ## Boot -/

/-- The allocators give distinct objects, the TCBs in the RAM. -/
structure Boot.Ok (e : Boot) : Prop where
  sems : [e.txFull, e.txBuff, e.rxBuff, e.rxEmpty, e.uartReceive, e.uartTransmit].Nodup
  tcbs : [e.putcThread, e.getcThread, e.mainThread, e.idleThread].Nodup
  ram : ∀ t ∈ [e.putcThread, e.getcThread, e.mainThread, e.idleThread],
    ramStart ≤ t ∧ t < ramEnd

/-- The abstract scheduler before `main`. -/
def Sys.reset : Sys where
  tcb _ := TCB.ctor
  val _ := 0
  running := none
  idle := none
  ready := []
  waiting _ := []
  sleeping := []
  timeSliceCounter := 0
  tcbs := []
  sems := []

/-- The abstract scheduler after boot. -/
def Boot.sys (e : Boot) : Sys :=
  { (((((((((((Sys.reset.createSem e.txFull 0).createSem e.txBuff 4096).createSem e.rxBuff
      0).createSem e.rxEmpty 4096).createSem e.uartReceive 0).createSem e.uartTransmit
      0).createThread e.putcThread (some e.consoleput) none e.putcStack 1 true).createThread
      e.getcThread (some e.consoleget) none e.getcStack 1 true).createThread e.mainThread none none
      none 0 true).createThread e.idleThread (some e.idle) none e.idleStack 0 true)) with
    running := some e.mainThread
    idle := some e.idleThread }

theorem reset_rep : Rep Kernel.reset Sys.reset where
  tcb _ := rfl
  ready := ⟨rfl, rfl⟩
  running := rfl
  idle := rfl
  counter := rfl
  tcbs := rfl
  sems := rfl
  val _ := rfl
  waiting := ⟨fun _ => [], fun _ hs => absurd hs List.not_mem_nil, fun _ hs =>
    absurd hs List.not_mem_nil⟩
  sleeping := ⟨[], rfl, rfl, List.nil_subset _⟩

theorem Boot.rep {e : Boot} (h : e.Ok) : ∃ k, e.kernel = some k ∧ Rep k e.sys := by
  have hs := h.sems
  have ht := h.tcbs
  simp only [List.nodup_cons, List.mem_cons, List.not_mem_nil, not_or, or_false] at hs ht
  have r₀ : Sys.reset.ready = [] := rfl
  have s₀ : Sys.reset.sems = [] := rfl
  obtain ⟨k₁, e₁, h₁⟩ := createSem_rep reset_rep (s := e.txFull) (by simp [s₀]) 0
  obtain ⟨k₂, e₂, h₂⟩ := createSem_rep h₁ (s := e.txBuff) (by simp [s₀]; grind) 4096
  obtain ⟨k₃, e₃, h₃⟩ := createSem_rep h₂ (s := e.rxBuff) (by simp [s₀]; grind) 0
  obtain ⟨k₄, e₄, h₄⟩ := createSem_rep h₃ (s := e.rxEmpty) (by simp [s₀]; grind) 4096
  obtain ⟨k₅, e₅, h₅⟩ := createSem_rep h₄ (s := e.uartReceive) (by simp [s₀]; grind) 0
  obtain ⟨k₆, e₆, h₆⟩ := createSem_rep h₅ (s := e.uartTransmit) (by simp [s₀]; grind) 0
  obtain ⟨k₇, e₇, h₇⟩ := createThread_rep h₆ (t := e.putcThread) (by simp [r₀])
    (some e.consoleput) none e.putcStack 1 true
  obtain ⟨k₈, e₈, h₈⟩ := createThread_rep h₇ (t := e.getcThread) (by simp [r₀]; grind)
    (some e.consoleget) none e.getcStack 1 true
  obtain ⟨k₉, e₉, h₉⟩ := createThread_rep h₈ (t := e.mainThread) (by simp [r₀]; grind)
    none none none 0 true
  obtain ⟨k₁₀, e₁₀, h₁₀⟩ := createThread_rep h₉ (t := e.idleThread) (by simp [r₀]; grind)
    (some e.idle) none e.idleStack 0 true
  refine ⟨{ k₁₀ with idleThread := some e.idleThread, running := some e.mainThread }, ?_,
    { h₁₀ with running := rfl, idle := rfl }⟩
  unfold Boot.kernel
  simp only [e₁, e₂, e₃, e₄, e₅, e₆, e₇, e₈, e₉, e₁₀, Option.bind_eq_bind, Option.bind_some, pure]

theorem Boot.sys_tcbs (e : Boot) :
    e.sys.tcbs = [e.idleThread, e.mainThread, e.getcThread, e.putcThread] := rfl

theorem Boot.sys_sems (e : Boot) : e.sys.sems =
    [e.uartTransmit, e.uartReceive, e.rxEmpty, e.rxBuff, e.txBuff, e.txFull] := rfl

theorem Boot.sys_waiting (e : Boot) (s : Nat) : e.sys.waiting s = [] := by
  simp [Boot.sys, Sys.createThread, Sys.createSem, Sys.put, Sys.modTcb, Sys.reset,
    Function.update_apply]

/-- After boot the console's threads and the idle thread are ready, and the main thread runs. -/
theorem Boot.sys_places (e : Boot) : [e.mainThread] ++ e.sys.queued =
    [e.mainThread, e.putcThread, e.getcThread, e.idleThread] := by
  have hready : e.sys.ready = [e.putcThread, e.getcThread, e.idleThread] := by
    simp [Boot.sys, Sys.reset]
  have hsl : e.sys.sleeping = [] := rfl
  simp [Sys.queued, hready, hsl, List.flatMap_eq_nil_iff.2 fun s _ => e.sys_waiting s]

theorem Boot.stable {e : Boot} (h : e.Ok) : e.sys.Stable := by
  have ht := h.tcbs
  simp only [List.nodup_cons, List.mem_cons, List.not_mem_nil, not_or, or_false] at ht
  have htcb : ∀ t ∈ [e.mainThread, e.putcThread, e.getcThread, e.idleThread],
      (e.sys.tcb t).started = true ∨ (e.sys.tcb t).fun_ = none := by
    intro t hm
    simp only [List.mem_cons, List.not_mem_nil, or_false] at hm
    have h1 : e.mainThread ≠ e.idleThread := ht.2.2.1
    obtain rfl | rfl | rfl | rfl := hm <;> simp [Boot.sys, Sys.createThread_tcb, *]
  have hidle : (e.sys.tcb e.idleThread).runnable = true := by
    have h1 : e.idleThread ≠ e.mainThread := Ne.symm ht.2.2.1
    have h2 : e.idleThread ≠ e.getcThread := Ne.symm ht.2.1.2
    have h3 : e.idleThread ≠ e.putcThread := Ne.symm ht.1.2.2
    simp [Boot.sys, Sys.createThread_tcb, h1, h2, h3, Sys.createSem, Sys.reset, TCB.runnable,
      TCB.ctor]
  refine ⟨e.mainThread, rfl, ?_⟩
  refine ⟨?_, ?_, ?_, ?_, ?_, ?_, ?_, ?_, e.idleThread, rfl, hidle, ?_⟩
  · rw [e.sys_places]
    simp
    grind
  · rw [e.sys_places, e.sys_tcbs]
    simp
  · rw [e.sys_places]
    exact htcb
  · rw [e.sys_tcbs]
    intro t ht'
    exact h.ram t (by simp at ht' ⊢; tauto)
  · rw [e.sys_sems]
    exact List.nodup_reverse.1 h.sems
  · intro s _ t ht'
    rw [e.sys_waiting] at ht'
    exact absurd ht' List.not_mem_nil
  · intro t ht'
    exact absurd ht' List.not_mem_nil
  · intro s _
    have h0 : toInt32 0 = 0 := by decide
    have h4096 : toInt32 4096 = 4096 := by decide
    have hv : e.sys.val s = 0 ∨ e.sys.val s = 4096 := by
      simp [Boot.sys, Sys.createThread, Sys.createSem, Sys.put, Sys.modTcb, Sys.reset,
        Function.update_apply, h0, h4096]
      grind
    rw [e.sys_waiting]
    rcases hv with hv | hv <;> rw [hv] <;> decide
  · rw [e.sys_places]
    simp

theorem Boot.represented {e : Boot} (h : e.Ok) :
    ∃ k, e.kernel = some k ∧ Represented k := by
  obtain ⟨k, he, hr⟩ := Boot.rep h
  exact ⟨k, he, _, hr, Boot.stable h⟩

/-- A boot of the machine with small addresses for the semaphores. -/
def boot128 : Boot where
  txFull := 1
  txBuff := 2
  rxBuff := 3
  rxEmpty := 4
  uartReceive := 5
  uartTransmit := 6
  putcThread := 0x87000000
  getcThread := 0x87001000
  mainThread := 0x87002000
  idleThread := 0x87003000
  consoleput := 0x80001000
  consoleget := 0x80001100
  idle := 0x80001200
  putcStack := some 0x87004000
  getcStack := some 0x87005000
  idleStack := some 0x87006000

theorem boot128_ok : boot128.Ok where
  sems := by decide
  tcbs := by decide
  ram := by decide

/-- The run of the abstract scheduler beside a run of the kernel. -/
theorem Rep.run {es : List Entry} (h : Rep k A) (hst : A.Stable)
    (hrun : Run Kernel.Ok Kernel.step k es k') :
    Rep k' (es.foldl Sys.step A) ∧ (es.foldl Sys.step A).Stable := by
  induction hrun generalizing A with
  | nil => exact ⟨h, hst⟩
  | cons hok hs _ ih =>
    obtain ⟨k₁, he, hr, hst₁⟩ := step_rep h hst hok
    rw [hs, Option.some.injEq] at he
    exact ih (he ▸ hr) hst₁

/-- **The kernel refines the abstract scheduler.** In every run from boot the linked lists, flags and
counters of the kernel are those of the scheduler that works on lists, after the same entries; the
scheduler is stable, and each entry that the environment may make next returns. -/
theorem kernel_refines_scheduler {e : Boot} {k₀ : Kernel} {es : List Entry} (he : e.Ok)
    (hboot : e.kernel = some k₀) (hrun : Run Kernel.Ok Kernel.step k₀ es k) :
    Rep k (es.foldl Sys.step e.sys) ∧ (es.foldl Sys.step e.sys).Stable ∧
      ∀ entry, k.Ok entry → k.step entry ≠ none := by
  obtain ⟨k₁, hk, hrep⟩ := Boot.rep he
  rw [hboot, Option.some.injEq] at hk
  obtain ⟨hr, hst⟩ := (hk ▸ hrep).run (Boot.stable he) hrun
  refine ⟨hr, hst, fun entry hok => ?_⟩
  obtain ⟨k', hs, -⟩ := step_rep hr hst hok
  rw [hs]
  exact Option.some_ne_none k'

/-- The main thread sleeps, the first two threads wait, and the idle thread runs for two ticks. -/
theorem kernel_refines_scheduler_boot128 : ∃ k₀ k, boot128.kernel = some k₀ ∧
    Run Kernel.Ok Kernel.step k₀ [.sleep 2 (some 0x87008000), .wait 1 (some 0x87009000),
      .wait 3 (some 0x8700a000), .timer, .timer] k ∧
    Rep k ([.sleep 2 (some 0x87008000), .wait 1 (some 0x87009000), .wait 3 (some 0x8700a000),
      .timer, .timer].foldl Sys.step boot128.sys) ∧ k.running = some 0x87002000 := by
  obtain ⟨k₀, k, hboot, hrun, hk⟩ : ∃ k₀ k, boot128.kernel = some k₀ ∧
      Run Kernel.Ok Kernel.step k₀ [.sleep 2 (some 0x87008000), .wait 1 (some 0x87009000),
        .wait 3 (some 0x8700a000), .timer, .timer] k ∧ k.running = some 0x87002000 := by
    refine ⟨_, _, rfl, .cons ?_ rfl (.cons ?_ rfl (.cons ?_ rfl (.cons trivial rfl
      (.cons trivial rfl .nil)))), ?_⟩
    · exact ⟨by decide, by decide, by decide, _, rfl, by decide⟩
    · exact ⟨by decide, by decide, _, rfl, by decide⟩
    · exact ⟨by decide, by decide, _, rfl, by decide⟩
    · decide
  exact ⟨k₀, k, hboot, hrun, (kernel_refines_scheduler boot128_ok hboot hrun).1, hk⟩

end SlabKernel
