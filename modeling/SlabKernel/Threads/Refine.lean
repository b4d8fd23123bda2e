import SlabKernel.Lib.PtrList
import SlabKernel.Threads.Spec

/-!
# The kernel refines the abstract scheduler

`Rep k A`: the linked lists in the memory of `k` hold the lists of `A`, and all else agrees. Each
function of the code has one lemma: from a represented state it returns, and its new state
represents the abstract one (`put_rep`, `dispatch_rep`, `insert_rep`, `remove_rep`, ...). The side
conditions are those under which the code's pointers stay well formed: a thread that is put is not
ready already, a node that is allocated is not in use.
-/

namespace SlabKernel

open Function (update update_self update_apply update_of_ne)
open PtrList

/-- The blocked queue of each live semaphore, its nodes `N s` live and its own. -/
def Waiting (k : Kernel) (W : Nat → List Nat) : Prop :=
  ∃ N : Nat → List Nat,
    (∀ s ∈ k.sems, Queue (fun n => (k.blockedQueue n).next) (k.sem s).head (k.sem s).tail (N s) ∧
      (N s).map (fun n => (k.blockedQueue n).tcb) = W s ∧ N s ⊆ k.nodes) ∧
    ∀ s ∈ k.sems, ∀ s' ∈ k.sems, s ≠ s' → (N s).Disjoint (N s')

/-- A node of the sleep list as the abstract scheduler sees it. -/
def SleepQueue.entry (n : SleepQueue) : Nat × Nat := (n.tcb, n.time)

/-- The sleep list, its nodes live. -/
def Sleepers (k : Kernel) (l : List (Nat × Nat)) : Prop :=
  ∃ S : List Nat, Linked (fun n => (k.sleepQueue n).next) k.sleepHead S ∧
    S.map (fun n => (k.sleepQueue n).entry) = l ∧ S ⊆ k.sleeps

/-- The kernel `k` represents the abstract scheduler `A`. -/
structure Rep (k : Kernel) (A : Sys) : Prop where
  tcb : ∀ t, (k.tcb t).unlinked = A.tcb t
  ready : Queue (fun t => (k.tcb t).next) k.head k.tail A.ready
  running : k.running = A.running
  idle : k.idleThread = A.idle
  counter : k.timeSliceCounter = A.timeSliceCounter
  tcbs : k.tcbs = A.tcbs
  sems : k.sems = A.sems
  val : ∀ s, (k.sem s).val = A.val s
  waiting : Waiting k A.waiting
  sleeping : Sleepers k A.sleeping

variable {k : Kernel} {A : Sys} {t s : Nat}

/-! ## TCBs -/

/-- A change of a TCB that leaves its links alone. -/
theorem modTcb_rep (h : Rep k A) (t : Nat) (f : TCB → TCB)
    (hf : ∀ x, (f x).unlinked = f x.unlinked ∧ (f x).next = x.next) :
    Rep (k.modTcb t f) (A.modTcb t f) := by
  refine { h with tcb := fun u => ?_, ready := h.ready.congr fun u _ => ?_ }
  · simp only [Kernel.modTcb, Sys.modTcb, update_apply]
    split
    · rw [(hf _).1, h.tcb]
    · exact h.tcb u
  · simp only [Kernel.modTcb, update_apply]
    split
    · rename_i hu
      rw [(hf _).2, hu]
    · rfl

/-! ## `Scheduler` -/

theorem put_spec {R : List Nat} (hq : Queue (fun u => (k.tcb u).next) k.head k.tail R)
    (ht : t ∉ R) : ∃ tcb head, Scheduler.put k (some t) = some { k with tcb, head, tail := some t } ∧
      (∀ u, (tcb u).unlinked = (k.tcb u).unlinked) ∧
      Queue (fun u => (tcb u).next) head (some t) (R ++ [t]) := by
  unfold Scheduler.put
  cases htl : k.tail with
  | none =>
    obtain rfl : R = [] := (hq.tail_none).1 htl
    refine ⟨_, _, rfl, fun u => ?_, ?_⟩
    · simp only [Kernel.modTcb, update_apply]
      split
      · rename_i hu
        subst hu
        simp [TCB.unlinked]
      · rfl
    · refine (Queue.singleton t : Queue (update (fun u => (k.tcb u).next) _ _) _ _ _).congr fun u _ => ?_
      simp only [Kernel.modTcb, update_apply]
      split <;> simp
  | some tl =>
    let k₁ := k.modTcb tl fun x => { x with next := some t }
    let k₂ := k₁.modTcb t fun x => { x with prev := some tl }
    let k₃ := k₂.modTcb t fun x => { x with next := none }
    have h₁ : ∀ u, (k₁.tcb u).unlinked = (k.tcb u).unlinked ∧
        (k₁.tcb u).next = update (fun u => (k.tcb u).next) tl (some t) u := by
      intro u
      by_cases hu : u = tl
      · subst hu; simp [k₁, Kernel.modTcb, TCB.unlinked]
      · simp [k₁, Kernel.modTcb, hu]
    have h₂ : ∀ u, (k₂.tcb u).unlinked = (k₁.tcb u).unlinked ∧
        (k₂.tcb u).next = (k₁.tcb u).next := by
      intro u
      by_cases hu : u = t
      · subst hu; simp [k₂, Kernel.modTcb, TCB.unlinked]
      · simp [k₂, Kernel.modTcb, hu]
    have h₃ : ∀ u, (k₃.tcb u).unlinked = (k₂.tcb u).unlinked ∧
        (k₃.tcb u).next = update (fun u => (k₂.tcb u).next) t none u := by
      intro u
      by_cases hu : u = t
      · subst hu; simp [k₃, Kernel.modTcb, TCB.unlinked]
      · simp [k₃, Kernel.modTcb, hu]
    refine ⟨k₃.tcb, k.head, ?_, fun u => ?_, ?_⟩
    · have htail : (k₂.tcb tl).next = some t := by rw [(h₂ tl).2, (h₁ tl).2, update_self]
      simp only
      rw [show (((k.modTcb tl fun x => { x with next := some t }).modTcb t fun x =>
        { x with prev := some tl }).tcb tl).next = some t from htail]
      rfl
    · rw [(h₃ u).1, (h₂ u).1, (h₁ u).1]
    · rw [htl] at hq
      refine (hq.append ht).congr fun u _ => ?_
      rw [(h₃ u).2]
      congr 1
      funext v
      rw [(h₂ v).2, (h₁ v).2]

theorem put_rep (h : Rep k A) (ht : t ∉ A.ready) :
    ∃ k', Scheduler.put k (some t) = some k' ∧ Rep k' (A.put t) := by
  obtain ⟨tcb, head, he, hu, hq⟩ := put_spec h.ready ht
  exact ⟨_, he, { h with tcb := fun u => (hu u).trans (h.tcb u), ready := hq }⟩

theorem get_spec {R : List Nat} (hq : Queue (fun u => (k.tcb u).next) k.head k.tail (t :: R)) :
    ∃ tcb head tail, Scheduler.get k = (some t, { k with tcb, head, tail }) ∧
      (∀ u, (tcb u).unlinked = (k.tcb u).unlinked) ∧
      Queue (fun u => (tcb u).next) head tail R := by
  have hhead : k.head = some t := hq.linked.1
  have ht : t ∉ R := (List.nodup_cons.1 hq.nodup).1
  rw [hhead] at hq
  have hpop := hq.pop
  unfold Scheduler.get
  simp only [hhead]
  cases hn : (k.tcb t).next with
  | none =>
    simp only [hn, if_true] at hpop
    refine ⟨_, _, _, rfl, fun u => ?_, hpop.congr fun u hu => ?_⟩
    · by_cases hu : u = t
      · subst hu; simp [Kernel.modTcb, TCB.unlinked]
      · simp [Kernel.modTcb, hu]
    · have hne : u ≠ t := fun he => ht (he ▸ hu)
      simp [Kernel.modTcb, hne]
  | some n =>
    simp only [hn, reduceCtorEq, if_false] at hpop
    refine ⟨_, _, _, rfl, fun u => ?_, hpop.congr fun u hu => ?_⟩
    · simp only [Kernel.modTcb, update_apply]
      split
      · rename_i hu
        subst hu
        split
        · rename_i hut
          subst hut
          simp [TCB.unlinked]
        · simp [TCB.unlinked]
      · split
        · rename_i hut
          subst hut
          simp [TCB.unlinked]
        · rfl
    · have hne : u ≠ t := fun he => ht (he ▸ hu)
      simp only [Kernel.modTcb, update_apply]
      split
      · rename_i hun
        subst hun
        simp [hne]
      · rfl

theorem switch_rep (h : Rep k A) : Rep { (Scheduler.get k).2 with running := (Scheduler.get k).1 }
    A.switch := by
  unfold Sys.switch
  cases hr : A.ready with
  | nil =>
    have hh : k.head = none := (Linked.none_iff h.ready.linked).2 hr
    unfold Scheduler.get
    simp only [hh]
    exact { h with running := h.idle, ready := by rw [← hh, ← hr]; exact h.ready }
  | cons t R =>
    have hq := h.ready
    rw [hr] at hq
    obtain ⟨tcb, head, tail, he, hu, hq'⟩ := get_spec hq
    rw [he]
    exact { h with tcb := fun u => (hu u).trans (h.tcb u), ready := hq', running := rfl }

/-! ## `TCB` -/

theorem runnable_eq (h : Rep k A) (t : Nat) :
    (!(k.tcb t).finished && !(k.tcb t).blocked && !(k.tcb t).asleep) = (A.tcb t).runnable := by
  rw [← h.tcb t]
  rfl

/-- `dispatch` returns when some thread is left to run. -/
theorem dispatch_rep (h : Rep k A) (hrun : A.running = some t)
    (ht : (A.tcb t).runnable = true → t ∉ A.ready) (hne : A.dispatch.running ≠ none) :
    ∃ k', TCB.dispatch k = some k' ∧ Rep k' A.dispatch := by
  have hq : ∃ k₁, (if (A.tcb t).runnable = true then Scheduler.put k (some t) else some k) =
      some k₁ ∧ Rep k₁ A.requeue := by
    unfold Sys.requeue
    simp only [hrun]
    split
    · rename_i hr
      exact put_rep h (ht hr)
    · exact ⟨k, rfl, h⟩
  obtain ⟨k₁, he, hr₁⟩ := hq
  have hsw := switch_rep hr₁
  obtain ⟨u, hu⟩ := Option.ne_none_iff_exists'.1 hne
  have hu' : (Scheduler.get k₁).1 = some u := hsw.running.trans hu
  refine ⟨_, ?_, hsw⟩
  unfold TCB.dispatch
  simp only [h.running, hrun, Option.bind_eq_bind, Option.bind_some, runnable_eq h, pure]
  cases hr : (A.tcb t).runnable with
  | true =>
    simp only [hr, if_true] at he ⊢
    simp only [he, Option.bind_some, hu']
  | false =>
    simp only [hr, Bool.false_eq_true, if_false, Option.some.injEq] at he ⊢
    simp only [he, Option.bind_some, hu']

theorem suspend_rep (h : Rep k A) (hrun : A.running = some t) (hne : A.exit.running ≠ none) :
    ∃ k', TCB.suspend k = some k' ∧ Rep k' A.exit := by
  unfold Sys.exit at hne ⊢
  unfold TCB.suspend
  simp only [h.running, hrun] at hne ⊢
  have hm := modTcb_rep h t (fun x => { x with finished := true }) fun x => ⟨rfl, rfl⟩
  refine dispatch_rep hm hrun (fun hr => ?_) hne
  simp [Sys.modTcb, TCB.runnable] at hr

theorem createThread_rep (h : Rep k A) (ht : t ∉ A.ready) (startRoutine arg stackSpace : Ptr)
    (id : Int) (start : Bool) :
    ∃ k', TCB.createThread k (some t) startRoutine arg stackSpace id start = some (some t, k') ∧
      Rep k' (A.createThread t startRoutine arg stackSpace id start) := by
  unfold TCB.createThread Sys.createThread
  have h₀ : Rep { k with tcbs := t :: k.tcbs } { A with tcbs := t :: A.tcbs } :=
    { h with tcbs := congrArg _ h.tcbs }
  have hm := modTcb_rep h₀ t (fun x => { x with
      stack := if startRoutine.isSome then stackSpace else none
      fun_ := startRoutine
      funArg := arg
      pid := id }) fun x => ⟨rfl, rfl⟩
  simp only
  split
  · obtain ⟨k₁, he, hr₁⟩ := put_rep hm ht
    simp only [he, Option.bind_eq_bind, Option.bind_some, pure]
    exact ⟨_, rfl, modTcb_rep hr₁ t _ fun x => ⟨rfl, rfl⟩⟩
  · exact ⟨_, rfl, hm⟩

theorem startThread_rep (h : Rep k A) (ht : (A.tcb t).started = false → t ∉ A.ready) :
    ∃ r k', TCB.startThread k (some t) = some (r, k') ∧ Rep k' (A.startThread t) := by
  unfold TCB.startThread Sys.startThread
  have hs : (k.tcb t).started = (A.tcb t).started := by rw [← h.tcb t]; rfl
  simp only [hs]
  split
  · exact ⟨_, _, rfl, h⟩
  · rename_i hf
    obtain ⟨k₁, he, hr₁⟩ := put_rep h (ht (by simpa using hf))
    simp only [he, Option.bind_eq_bind, Option.bind_some, pure]
    exact ⟨_, _, rfl, modTcb_rep hr₁ t _ fun x => ⟨rfl, rfl⟩⟩

/-! ## `KernelSem` -/

theorem createSem_rep (h : Rep k A) (hs : s ∉ A.sems) (init : Nat) :
    ∃ k', KernelSem.createSem k (some s) init = some k' ∧ Rep k' (A.createSem s init) := by
  refine ⟨_, rfl, { h with sems := congrArg _ h.sems, val := fun u => ?_, waiting := ?_ }⟩
  · by_cases hu : u = s
    · simp [Kernel.modSem, Sys.createSem, hu]
    · simp [Kernel.modSem, Sys.createSem, hu, h.val u]
  · obtain ⟨N, hN, hd⟩ := h.waiting
    rw [← h.sems] at hs
    refine ⟨update N s [], fun u hu => ?_, fun u hu v hv hne => ?_⟩
    · simp only [Kernel.modSem, Sys.createSem]
      by_cases hus : u = s
      · subst hus
        simp only [update_self]
        exact ⟨⟨rfl, rfl⟩, rfl, List.nil_subset _⟩
      · simp only [update_of_ne hus]
        exact hN u ((List.mem_cons.1 hu).resolve_left hus)
    · by_cases hus : u = s
      · subst hus; simp
      · by_cases hvs : v = s
        · subst hvs; simp
        · rw [update_of_ne hus, update_of_ne hvs]
          exact hd u ((List.mem_cons.1 hu).resolve_left hus) v
            ((List.mem_cons.1 hv).resolve_left hvs) hne

/-- A change of the value of a semaphore. -/
theorem val_rep (h : Rep k A) (s : Nat) (f : Int → Int) :
    Rep (k.modSem s fun x => { x with val := f x.val })
      { A with val := update A.val s (f (A.val s)) } := by
  refine { h with val := fun u => ?_, waiting := ?_ }
  · simp only [Kernel.modSem, update_apply]
    split
    · exact congrArg f (h.val s)
    · exact h.val u
  · obtain ⟨N, hN, hd⟩ := h.waiting
    refine ⟨N, fun u hu => ?_, hd⟩
    simp only [Kernel.modSem]
    by_cases hus : u = s
    · subst hus
      rw [update_self]
      exact hN u hu
    · rw [update_of_ne hus]
      exact hN u hu

/-- Other queues do not see a change of the memory of one queue. -/
theorem Waiting.set {W : Nat → List Nat} {N : Nat → List Nat} {k' : Kernel} {M : List Nat}
    {ts : List Nat}
    (hN : ∀ s ∈ k.sems, Queue (fun n => (k.blockedQueue n).next) (k.sem s).head (k.sem s).tail
      (N s) ∧ (N s).map (fun n => (k.blockedQueue n).tcb) = W s ∧ N s ⊆ k.nodes)
    (hd : ∀ s ∈ k.sems, ∀ s' ∈ k.sems, s ≠ s' → (N s).Disjoint (N s'))
    (hsems : k'.sems = k.sems)
    (hsem : ∀ u, u ≠ s → k'.sem u = k.sem u)
    (hs : Queue (fun n => (k'.blockedQueue n).next) (k'.sem s).head (k'.sem s).tail M)
    (hts : M.map (fun n => (k'.blockedQueue n).tcb) = ts) (hM : M ⊆ k'.nodes)
    (hfr : ∀ u ∈ k.sems, u ≠ s → ∀ n ∈ N u, k'.blockedQueue n = k.blockedQueue n ∧ n ∈ k'.nodes ∧
      n ∉ M) :
    Waiting k' (update W s ts) := by
  refine ⟨update N s M, fun u hu => ?_, fun u hu v hv hne => ?_⟩
  · rw [hsems] at hu
    by_cases hus : u = s
    · subst hus
      simp only [update_self]
      exact ⟨hs, hts, hM⟩
    · obtain ⟨h1, h2, -⟩ := hN u hu
      simp only [update_of_ne hus, hsem u hus]
      refine ⟨h1.congr fun n hn => by rw [(hfr u hu hus n hn).1], ?_,
        fun n hn => (hfr u hu hus n hn).2.1⟩
      rw [← h2]
      exact List.map_congr_left fun n hn => by rw [(hfr u hu hus n hn).1]
  · rw [hsems] at hu hv
    by_cases hus : u = s
    · subst hus
      rw [update_self, update_of_ne hne.symm]
      exact fun n hn hn' => (hfr v hv hne.symm n hn').2.2 hn
    · by_cases hvs : v = s
      · subst hvs
        rw [update_self, update_of_ne hus]
        exact fun n hn hn' => (hfr u hu hus n hn).2.2 hn'
      · rw [update_of_ne hus, update_of_ne hvs]
        exact hd u hu v hv hne

theorem insert_rep {n : Nat} (h : Rep k A) (hs : s ∈ A.sems) (hn : n ∉ k.nodes) :
    ∃ k', KernelSem.insert k s t (some n) = some k' ∧
      Rep k' { A with waiting := update A.waiting s (A.waiting s ++ [t]) } := by
  obtain ⟨N, hN, hd⟩ := id h.waiting
  rw [← h.sems] at hs
  obtain ⟨hq, hmap, hsub⟩ := hN s hs
  have hnew : ∀ u ∈ k.sems, n ∉ N u := fun u hu hm => hn ((hN u hu).2.2 hm)
  unfold KernelSem.insert
  simp only [Option.bind_eq_bind, Option.bind_some, Kernel.modBlocked, pure]
  cases htl : (k.sem s).tail with
  | none =>
    have hnil : N s = [] := hq.tail_none.1 htl
    refine ⟨_, rfl, { h with val := fun u => ?_, waiting := ?_ }⟩
    · simp only [Kernel.modSem, update_apply]
      split
      · rename_i hu; rw [hu, h.val]
      · exact h.val u
    · refine Waiting.set (M := [n]) hN hd rfl (fun u hu => update_of_ne hu _ _) ?_ ?_ ?_ ?_
      · simp only [Kernel.modSem, update_self]
        exact ⟨⟨rfl, by simp⟩, rfl⟩
      · simp [Kernel.modSem, ← hmap, hnil]
      · simp [Kernel.modSem]
      · intro u hu _ m hm
        have hmn : m ≠ n := fun he => hnew u hu (he ▸ hm)
        refine ⟨by simp [Kernel.modSem, hmn], .tail _ ((hN u hu).2.2 hm), by simpa using hmn⟩
  | some tl =>
    have htlm : tl ∈ N s := by
      have := hq.last
      rw [htl] at this
      exact List.mem_of_getLast? this.symm
    have hne : tl ≠ n := fun he => hnew s hs (he ▸ htlm)
    refine ⟨_, rfl, { h with val := fun u => ?_, waiting := ?_ }⟩
    · simp only [Kernel.modSem, update_apply]
      split
      · rename_i hu; rw [hu, h.val]
      · exact h.val u
    · refine Waiting.set (M := N s ++ [n]) hN hd rfl (fun u hu => update_of_ne hu _ _) ?_ ?_ ?_ ?_
      · simp only [Kernel.modSem, update_self]
        rw [htl] at hq
        refine (hq.append (hnew s hs)).congr fun m _ => ?_
        simp only [update_apply]
        by_cases hmn : m = n
        · subst hmn; simp [hne.symm]
        · simp only [hmn, if_false]
          split <;> rfl
      · simp only [Kernel.modSem, List.map_append, ← hmap]
        congr 1
        · refine List.map_congr_left fun m hm => ?_
          have hmn : m ≠ n := fun he => hnew s hs (he ▸ hm)
          simp only [update_apply, if_neg hmn]
          split
          · rename_i hm'; simp [hm']
          · rfl
        · simp [hne.symm]
      · intro m hm
        rcases List.mem_append.1 hm with hm | hm
        · exact .tail _ (hsub hm)
        · rw [List.mem_singleton.1 hm]
          exact .head _
      · intro u hu hus m hm
        have hmn : m ≠ n := fun he => hnew u hu (he ▸ hm)
        have hms : m ∉ N s := fun hm' => hd u hu s hs hus hm hm'
        have hmt : m ≠ tl := fun he => hms (he ▸ htlm)
        refine ⟨by simp [Kernel.modSem, hmn, hmt], .tail _ ((hN u hu).2.2 hm), ?_⟩
        simp [hms, hmn]

/-- The state after `remove` of the node `n`. -/
theorem remove_eq {n : Nat} (hhead : (k.sem s).head = some n) :
    KernelSem.remove k s = (some (k.blockedQueue n).tcb,
      { k.modTcb (k.blockedQueue n).tcb fun x => { x with holder := none, blocked := false } with
        sem := update k.sem s { k.sem s with
          head := (k.blockedQueue n).next
          tail := if (k.blockedQueue n).next = none then none else (k.sem s).tail }
        nodes := k.nodes.erase n }) := by
  unfold KernelSem.remove
  simp only [hhead, KernelSem.deleteNode, Kernel.modSem, Kernel.modTcb, update_self]
  cases (k.blockedQueue n).next with
  | none => simp
  | some m => simp

theorem remove_rep {rest : List Nat} (h : Rep k A) (hs : s ∈ A.sems)
    (hw : A.waiting s = t :: rest) :
    ∃ k', KernelSem.remove k s = (some t, k') ∧
      Rep k' ({ A with waiting := update A.waiting s rest }.modTcb t fun x =>
        { x with holder := none, blocked := false }) := by
  have hm := modTcb_rep h t (fun x => { x with holder := none, blocked := false }) fun x => ⟨rfl, rfl⟩
  obtain ⟨N, hN, hd⟩ := h.waiting
  rw [← h.sems] at hs
  obtain ⟨hq, hmap, hsub⟩ := hN s hs
  rw [hw] at hmap
  obtain ⟨n, M, hNs, rfl, hmap'⟩ := List.map_eq_cons_iff.1 hmap
  rw [hNs] at hq hsub
  have hhead : (k.sem s).head = some n := hq.linked.1
  have hnM := (List.nodup_cons.1 hq.nodup).1
  refine ⟨_, remove_eq hhead, { hm with val := fun u => ?_, waiting := ?_ }⟩
  · simp only [update_apply]
    split
    · rename_i hu; rw [hu]; exact h.val s
    · exact h.val u
  · refine Waiting.set (M := M) hN hd rfl (fun u hu => update_of_ne hu _ _) ?_ hmap' ?_ ?_
    · rw [hhead] at hq
      simp only [update_self]
      exact hq.pop
    · intro m hmM
      have hmn : m ≠ n := fun he => hnM (he ▸ hmM)
      exact (List.mem_erase_of_ne hmn).2 (hsub (.tail _ hmM))
    · intro u hu hus m hmu
      have hms : m ∉ n :: M := fun hm' => hd u hu s hs hus hmu (hNs ▸ hm')
      rw [List.mem_cons, not_or] at hms
      exact ⟨rfl, (List.mem_erase_of_ne hms.1).2 ((hN u hu).2.2 hmu), hms.2⟩

theorem block_rep {n : Nat} (h : Rep k A) (hs : s ∈ A.sems) (hn : n ∉ k.nodes)
    (hrun : A.running = some t) (hne : (A.park s).dispatch.running ≠ none) :
    ∃ k', KernelSem.block k s (some n) = some k' ∧ Rep k' (A.park s).dispatch := by
  have hm := modTcb_rep h t (fun x => { x with blocked := true, holder := some s })
    fun x => ⟨rfl, rfl⟩
  obtain ⟨k₁, he, hr₁⟩ := insert_rep (t := t) hm hs hn
  have hp : A.park s = { A.modTcb t fun x => { x with blocked := true, holder := some s } with
      waiting := update A.waiting s (A.waiting s ++ [t]), timeSliceCounter := 0 } := by
    unfold Sys.park
    rw [hrun]
  have hr₂ : Rep { k₁ with timeSliceCounter := 0 } (A.park s) := by
    rw [hp]
    exact { hr₁ with counter := rfl }
  obtain ⟨k₂, he₂, hr₃⟩ := dispatch_rep (t := t) hr₂ (by rw [hp]; exact hrun)
    (fun hr => by rw [hp] at hr; simp [Sys.modTcb, TCB.runnable] at hr) hne
  refine ⟨k₂, ?_, hr₃⟩
  unfold KernelSem.block
  simp only [h.running, hrun, Option.bind_eq_bind, Option.bind_some, he]
  exact he₂

theorem wait_rep {n : Nat} (h : Rep k A) (hs : s ∈ A.sems) (hn : n ∉ k.nodes)
    (hrun : A.running = some t) (hne : (A.wait s).running ≠ none) :
    ∃ k', KernelSem.wait k s (some n) = some k' ∧ Rep k' (A.wait s) := by
  have hv := val_rep h s fun v => toInt32 (v - 1)
  have hlt : (toInt32 ((k.sem s).val - 1) < 0) = (toInt32 (A.val s - 1) < 0) := by rw [h.val]
  unfold Sys.wait at hne ⊢
  unfold KernelSem.wait
  simp only [Kernel.modSem, update_self, hlt] at hv hne ⊢
  split
  · rename_i hlt'
    rw [if_pos hlt'] at hne
    exact block_rep hv hs hn hrun hne
  · exact ⟨_, rfl, hv⟩

theorem deblock_rep {rest : List Nat} (h : Rep k A) (hs : s ∈ A.sems)
    (hw : A.waiting s = t :: rest) (ht : t ∉ A.ready) :
    ∃ k', KernelSem.deblock k s = some k' ∧ Rep k' (A.deblock s) := by
  obtain ⟨k₁, he, hr₁⟩ := remove_rep h hs hw
  unfold KernelSem.deblock Sys.deblock
  simp only [he, hw]
  exact put_rep hr₁ ht

/-- `signal` never puts a null thread: some thread waits when the value is negative. -/
theorem signal_rep (h : Rep k A) (hs : s ∈ A.sems)
    (hw : A.val s < 0 → ∃ t rest, A.waiting s = t :: rest ∧ t ∉ A.ready) :
    ∃ k', KernelSem.signal k s = some k' ∧ Rep k' (A.signal s) := by
  have hv := val_rep h s fun v => toInt32 (v + 1)
  unfold KernelSem.signal Sys.signal
  simp only [h.val]
  split
  · rename_i hlt
    obtain ⟨t, rest, hw, ht⟩ := hw hlt
    exact deblock_rep hv hs hw ht
  · exact ⟨_, rfl, hv⟩

/-- The loop of `semDtor` releases the threads of the nodes `M`. -/
theorem semDtorLoop_spec {M : List Nat} {curr : Ptr} {fuel : Nat}
    (hl : Linked (fun n => (k.blockedQueue n).next) curr M) (hf : M.length ≤ fuel)
    (ht : ∀ u, (k.tcb u).unlinked = A.tcb u)
    (hq : Queue (fun u => (k.tcb u).next) k.head k.tail A.ready)
    (hnd : (A.ready ++ M.map fun n => (k.blockedQueue n).tcb).Nodup) :
    ∃ tcb head tail, KernelSem.semDtorLoop fuel curr k =
        some { k with tcb, head, tail, nodes := k.nodes.diff M } ∧
      (∀ u, (tcb u).unlinked =
        ((M.map fun n => (k.blockedQueue n).tcb).foldl Sys.release A).tcb u) ∧
      Queue (fun u => (tcb u).next) head tail
        ((M.map fun n => (k.blockedQueue n).tcb).foldl Sys.release A).ready := by
  induction M generalizing k A curr fuel with
  | nil =>
    obtain rfl : curr = none := hl
    refine ⟨k.tcb, k.head, k.tail, ?_, ht, hq⟩
    cases fuel <;> rfl
  | cons n M ih =>
    obtain ⟨rfl, hl⟩ := hl
    obtain ⟨fuel, rfl⟩ : ∃ m, fuel = m + 1 := ⟨fuel - 1, by simp at hf; omega⟩
    rw [List.map_cons] at hnd
    set t := (k.blockedQueue n).tcb with htn
    have hta : t ∉ A.ready := fun hm => (List.nodup_append.1 hnd).2.2 t hm t (.head _) rfl
    let k₁ := k.modTcb t fun x => { x with close := 1, holder := none }
    have ht₁ : ∀ u, (k₁.tcb u).unlinked =
        (A.modTcb t fun x => { x with close := 1, holder := none }).tcb u := by
      intro u
      simp only [k₁, Kernel.modTcb, Sys.modTcb, update_apply]
      split
      · rw [← ht t]; rfl
      · exact ht u
    have hq₁ : Queue (fun u => (k₁.tcb u).next) k₁.head k₁.tail A.ready := by
      refine hq.congr fun u _ => ?_
      simp only [k₁, Kernel.modTcb, update_apply]
      split
      · rename_i hu; rw [hu]
      · rfl
    obtain ⟨tcb₂, head₂, he₂, hu₂, hq₂⟩ := put_spec hq₁ hta
    have hnd' : ((A.release t).ready ++ M.map fun n => (k.blockedQueue n).tcb).Nodup := by
      simpa [Sys.release, Sys.put, Sys.modTcb] using hnd
    obtain ⟨tcb, head, tail, he, hu, hq'⟩ := ih (A := A.release t)
      (k := KernelSem.deleteNode { k₁ with tcb := tcb₂, head := head₂, tail := some t } n)
      hl (by simpa using hf) (fun u => (hu₂ u).trans (ht₁ u)) hq₂ hnd'
    refine ⟨tcb, head, tail, ?_, hu, hq'⟩
    unfold KernelSem.semDtorLoop
    simp only [← htn, Option.bind_eq_bind, List.diff_cons]
    rw [show Scheduler.put (k.modTcb t fun x => { x with close := 1, holder := none }) (some t) = _
      from he₂]
    exact he

theorem semDestroy_rep (h : Rep k A) (hs : s ∈ A.sems) (hnd : A.sems.Nodup)
    (hw : (A.ready ++ A.waiting s).Nodup) (hlen : (A.waiting s).length ≤ addrSpace) :
    ∃ k', Riscv.semDestroy k s = some k' ∧ Rep k' (A.semClose s) := by
  obtain ⟨N, hN, hd⟩ := h.waiting
  rw [← h.sems] at hs hnd
  obtain ⟨hq, hmap, hsub⟩ := hN s hs
  have hlen' : (N s).length ≤ addrSpace := by rwa [← hmap, List.length_map] at hlen
  obtain ⟨tcb, head, tail, he, hu, hq'⟩ := semDtorLoop_spec hq.linked hlen' h.tcb h.ready
    (by rwa [hmap])
  rw [hmap] at hu hq'
  have hstep : Riscv.semDestroy k s =
      some ({ k with tcb, head, tail, nodes := k.nodes.diff (N s), sems := k.sems.erase s }.modSem s
        fun _ => KernelSem.ctor) := by
    unfold Riscv.semDestroy KernelSem.semDtor
    simp only [he, Option.bind_eq_bind, Option.bind_some, pure]
  refine ⟨_, hstep, ?_⟩
  unfold Sys.semClose
  rw [Sys.release_foldl] at hu hq' ⊢
  refine { h with tcb := hu, ready := hq', sems := ?_, val := fun u => ?_, waiting := ?_ }
  · exact congrArg (List.erase · s) h.sems
  · simp only [Kernel.modSem, update_apply]
    split
    · rfl
    · exact h.val u
  · refine ⟨N, fun u hu => ?_, fun u hu v hv => ?_⟩
    · have hu' := (List.Nodup.mem_erase_iff hnd).1 hu
      obtain ⟨h1, h2, h3⟩ := hN u hu'.2
      simp only [Kernel.modSem, update_of_ne hu'.1]
      exact ⟨h1, h2, fun m hm => List.mem_diff_of_mem (h3 hm) (hd u hu'.2 s hs hu'.1 hm)⟩
    · exact hd u (List.mem_of_mem_erase hu) v (List.mem_of_mem_erase hv)

/-! ## `Sleeping` -/

/-- The loop of `add` puts the node `n` among the nodes `S` behind `c`. -/
theorem addLoop_spec {n c : Nat} {S : List Nat} {fuel : Nat}
    (hl : Linked (fun m => (k.sleepQueue m).next) (k.sleepQueue c).next S)
    (hn : (k.sleepQueue n).next = none) (hnc : n ≠ c) (hnS : n ∉ S) (hcS : c ∉ S)
    (hf : S.length < fuel) :
    ∃ sleepQueue S', Sleeping.addLoop n fuel c k = some { k with sleepQueue } ∧
      Linked (fun m => (sleepQueue m).next) (sleepQueue c).next S' ∧
      S'.map (fun m => (sleepQueue m).entry) =
        Sys.insertSleep (k.sleepQueue n).tcb (k.sleepQueue n).time
          (S.map fun m => (k.sleepQueue m).entry) ∧
      (sleepQueue c).entry = (k.sleepQueue c).entry ∧
      (∀ m, m ≠ n → m ≠ c → m ∉ S → sleepQueue m = k.sleepQueue m) ∧ S' ⊆ n :: S := by
  induction S generalizing c k fuel with
  | nil =>
    obtain ⟨fuel, rfl⟩ : ∃ m, fuel = m + 1 := ⟨fuel - 1, by omega⟩
    have hc : (k.sleepQueue c).next = none := hl
    unfold Sleeping.addLoop
    simp only [hc]
    refine ⟨_, [n], rfl, ?_, ?_, ?_, fun m hmn hmc _ => ?_, fun m hm => hm⟩
    · simp [Kernel.modSleep, hnc, hnc.symm, hn]
    · simp [Kernel.modSleep, hnc, SleepQueue.entry, Sys.insertSleep]
    · simp [Kernel.modSleep, hnc.symm, SleepQueue.entry]
    · simp [Kernel.modSleep, hmn, hmc]
  | cons x S ih =>
    obtain ⟨fuel, rfl⟩ : ∃ m, fuel = m + 1 := ⟨fuel - 1, by omega⟩
    obtain ⟨hc, hl⟩ := hl
    have hxS := (List.nodup_cons.1 (Linked.nodup (p := some x) ⟨rfl, hl⟩)).1
    simp only [List.mem_cons, not_or] at hnS hcS
    unfold Sleeping.addLoop
    simp only [hc]
    split
    · rename_i hlt
      refine ⟨_, n :: x :: S, rfl, ?_, ?_, ?_, fun m hmn hmc hmx => ?_, fun m hm => hm⟩
      · refine ⟨by simp [Kernel.modSleep, hnc.symm, hcS.1], ?_, ?_⟩
        · simp [Kernel.modSleep, hnS.1, hnc]
        · refine Seg.congr (?_ : Seg (fun m => (k.sleepQueue m).next) _ _ _) fun m hm => ?_
          · simpa [Kernel.modSleep, Ne.symm hnS.1, Ne.symm hcS.1] using hl
          · have h1 : m ≠ n := fun he => hnS.2 (he ▸ hm)
            have h2 : m ≠ c := fun he => hcS.2 (he ▸ hm)
            have h3 : m ≠ x := fun he => hxS (he ▸ hm)
            simp [Kernel.modSleep, h1, h2, h3]
      · have hS : ∀ m ∈ S, m ≠ n ∧ m ≠ c ∧ m ≠ x := fun m hm =>
          ⟨fun he => hnS.2 (he ▸ hm), fun he => hcS.2 (he ▸ hm), fun he => hxS (he ▸ hm)⟩
        simp only [List.map_cons, SleepQueue.entry, Sys.insertSleep, if_pos hlt]
        congr 1
        · simp [Kernel.modSleep, hnS.1, hnc]
        congr 1
        · simp [Kernel.modSleep, Ne.symm hnS.1, Ne.symm hcS.1]
        refine List.map_congr_left fun m hm => ?_
        obtain ⟨h1, h2, h3⟩ := hS m hm
        simp [Kernel.modSleep, h1, h2, h3]
      · simp [Kernel.modSleep, hnc.symm, hcS.1, SleepQueue.entry]
      · simp only [List.mem_cons, not_or] at hmx
        simp [Kernel.modSleep, hmn, hmc, hmx.1]
    · rename_i hlt
      -- the node goes behind `x`, with the rest of its time
      obtain ⟨sq, S', he, hl', hmap, hx, hfr, hsub⟩ := ih (c := x)
        (k := k.modSleep n fun y => { y with time := sub64 y.time (k.sleepQueue x).time })
        (by
          refine Seg.congr (?_ : Seg (fun m => (k.sleepQueue m).next) _ _ _) fun m hm => ?_
          · simpa [Kernel.modSleep, Ne.symm hnS.1] using hl
          · have h1 : m ≠ n := fun he => hnS.2 (he ▸ hm)
            simp [Kernel.modSleep, h1])
        (by simp [Kernel.modSleep, hn]) hnS.1 hnS.2 hxS (by simpa using hf)
      have hcn := hfr c hnc.symm hcS.1 hcS.2
      have hcn' : sq c = k.sleepQueue c := by
        rw [hcn]; simp [Kernel.modSleep, hnc.symm]
      refine ⟨sq, x :: S', he, ?_, ?_, ?_, fun m hmn hmc hmx => ?_, ?_⟩
      · rw [hcn', hc]
        exact ⟨rfl, hl'⟩
      · have hS : ∀ m ∈ S, m ≠ n := fun m hm he => hnS.2 (he ▸ hm)
        have hge : Sys.insertSleep (k.sleepQueue n).tcb (k.sleepQueue n).time
            ((k.sleepQueue x).entry :: S.map fun m => (k.sleepQueue m).entry) =
          (k.sleepQueue x).entry :: Sys.insertSleep (k.sleepQueue n).tcb
            (sub64 (k.sleepQueue n).time (k.sleepQueue x).time)
            (S.map fun m => (k.sleepQueue m).entry) := if_neg hlt
        rw [List.map_cons, hx, hmap, List.map_cons, hge]
        simp only [Kernel.modSleep, update_of_ne (Ne.symm hnS.1), update_self]
        congr 2
        refine List.map_congr_left fun m hm => ?_
        rw [update_of_ne (hS m hm)]
      · rw [hcn']
      · simp only [List.mem_cons, not_or] at hmx
        rw [hfr m hmn hmx.1 hmx.2]
        simp [Kernel.modSleep, hmn]
      · intro m hm
        rcases List.mem_cons.1 hm with rfl | hm
        · simp
        · rcases List.mem_cons.1 (hsub hm) with rfl | hm <;> simp_all

theorem insertNode_spec {n : Nat} {S : List Nat}
    (hl : Linked (fun m => (k.sleepQueue m).next) k.sleepHead S)
    (hn : (k.sleepQueue n).next = none) (hnS : n ∉ S) (hf : S.length ≤ addrSpace) :
    ∃ sleepQueue sleepHead S', Sleeping.insertNode k n = some { k with sleepQueue, sleepHead } ∧
      Linked (fun m => (sleepQueue m).next) sleepHead S' ∧
      S'.map (fun m => (sleepQueue m).entry) =
        Sys.insertSleep (k.sleepQueue n).tcb (k.sleepQueue n).time
          (S.map fun m => (k.sleepQueue m).entry) ∧ S' ⊆ n :: S := by
  have hS : ∀ m ∈ S, m ≠ n := fun m hm he => hnS (he ▸ hm)
  unfold Sleeping.insertNode
  cases hh : k.sleepHead with
  | none =>
    obtain rfl : S = [] := (Linked.none_iff hl).1 hh
    exact ⟨_, _, [n], rfl, ⟨rfl, hn⟩, rfl, fun m hm => hm⟩
  | some head =>
    rw [hh] at hl
    obtain ⟨S, rfl, htl⟩ := Linked.cons_of_some hl
    have hhn : head ≠ n := hS head (.head _)
    have hhS := (List.nodup_cons.1 (Linked.nodup (p := some head) ⟨rfl, htl⟩)).1
    simp only
    split
    · rename_i hlt
      refine ⟨_, _, n :: head :: S, rfl, ⟨rfl, ?_, ?_⟩, ?_, fun m hm => hm⟩
      · simp [Kernel.modSleep, hhn.symm]
      · refine Seg.congr (?_ : Seg (fun m => (k.sleepQueue m).next) _ _ _) fun m hm => ?_
        · simpa [Kernel.modSleep, hhn] using htl
        · have h1 : m ≠ head := fun he => hhS (he ▸ hm)
          simp [Kernel.modSleep, hS m (.tail _ hm), h1]
      · rw [List.map_cons, List.map_cons, List.map_cons]
        have hlt' : Sys.insertSleep (k.sleepQueue n).tcb (k.sleepQueue n).time
            ((k.sleepQueue head).entry :: S.map fun m => (k.sleepQueue m).entry) =
          (k.sleepQueue n).entry :: ((k.sleepQueue head).tcb,
            sub64 (k.sleepQueue head).time (k.sleepQueue n).time) ::
              S.map fun m => (k.sleepQueue m).entry := if_pos hlt
        rw [hlt']
        congr 1
        · simp [Kernel.modSleep, hhn.symm, SleepQueue.entry]
        congr 1
        · simp [Kernel.modSleep, hhn, SleepQueue.entry]
        refine List.map_congr_left fun m hm => ?_
        have h1 : m ≠ head := fun he => hhS (he ▸ hm)
        simp [Kernel.modSleep, hS m (.tail _ hm), h1]
    · rename_i hlt
      -- from the head on the list is searched by the loop
      obtain ⟨sq, S', he, hl', hmap, hx, -, hsub⟩ := addLoop_spec (c := head)
        (k := k.modSleep n fun x =>
          { x with time := sub64 x.time (k.sleepQueue head).time })
        (by
          refine Seg.congr (?_ : Seg (fun m => (k.sleepQueue m).next) _ _ _) fun m hm => ?_
          · simpa [Kernel.modSleep, hhn] using htl
          · simp [Kernel.modSleep, hS m (.tail _ hm)])
        (by simp [Kernel.modSleep, hn]) hhn.symm (fun hm => hnS (.tail _ hm)) hhS hf
      have hge : Sys.insertSleep (k.sleepQueue n).tcb (k.sleepQueue n).time
          ((k.sleepQueue head).entry :: S.map fun m => (k.sleepQueue m).entry) =
        (k.sleepQueue head).entry :: Sys.insertSleep (k.sleepQueue n).tcb
          (sub64 (k.sleepQueue n).time (k.sleepQueue head).time)
          (S.map fun m => (k.sleepQueue m).entry) := if_neg hlt
      refine ⟨sq, some head, head :: S', ?_, ⟨rfl, hl'⟩, ?_, ?_⟩
      · rw [he, ← hh]
        rfl
      · rw [List.map_cons, List.map_cons, hge, hx, hmap]
        simp only [Kernel.modSleep, update_of_ne hhn, update_self]
        congr 2
        refine List.map_congr_left fun m hm => ?_
        rw [update_of_ne (hS m (.tail _ hm))]
      · intro m hm
        rcases List.mem_cons.1 hm with rfl | hm
        · simp
        · rcases List.mem_cons.1 (hsub hm) with rfl | hm <;> simp_all

theorem add_rep {n time : Nat} (h : Rep k A) (hrun : A.running = some t) (hn : n ∉ k.sleeps)
    (hlen : A.sleeping.length ≤ addrSpace) :
    ∃ k', Sleeping.add k time (some n) = some k' ∧
      Rep k' { A with sleeping := Sys.insertSleep t time A.sleeping } := by
  obtain ⟨S, hl, hmap, hsub⟩ := h.sleeping
  have hnS : n ∉ S := fun hm => hn (hsub hm)
  have hS : ∀ m ∈ S, m ≠ n := fun m hm he => hnS (he ▸ hm)
  obtain ⟨sq, head, S', he, hl', hmap', hsub'⟩ := insertNode_spec (n := n)
    (k := { k with sleeps := n :: k.sleeps }.modSleep n fun _ => ⟨t, none, none, time⟩)
    (Seg.congr hl fun m hm => by simp [Kernel.modSleep, hS m hm]) (by simp [Kernel.modSleep]) hnS
    (by rwa [← hmap, List.length_map] at hlen)
  have hstep : Sleeping.add k time (some n) = some { k with
      sleeps := n :: k.sleeps, sleepQueue := sq, sleepHead := head } := by
    unfold Sleeping.add
    simp only [Option.bind_eq_bind, Option.bind_some]
    exact Option.bind_eq_some_iff.2 ⟨t, h.running.trans hrun, he⟩
  refine ⟨_, hstep, { h with sleeping := ⟨S', hl', ?_, fun m hm => ?_⟩ }⟩
  · rw [hmap', ← hmap]
    simp only [Kernel.modSleep, update_self]
    congr 1
    refine List.map_congr_left fun m hm => ?_
    rw [update_of_ne (hS m hm)]
  · rcases List.mem_cons.1 (hsub' hm) with rfl | hm
    · exact .head _
    · exact .tail _ (hsub hm)

theorem timeSleep_rep {n time : Nat} (h : Rep k A) (hrun : A.running = some t)
    (hn : n ∉ k.sleeps) (hlen : A.sleeping.length ≤ addrSpace)
    (hne : (A.sleep time).running ≠ none) :
    ∃ k', Riscv.timeSleep k time (some n) = some k' ∧ Rep k' (A.sleep time) := by
  have hm := modTcb_rep h t (fun x => { x with asleep := true }) fun x => ⟨rfl, rfl⟩
  obtain ⟨k₁, he, hr₁⟩ := add_rep hm hrun hn hlen
  have hp : A.lull time = { A.modTcb t fun x => { x with asleep := true } with
      sleeping := Sys.insertSleep t time A.sleeping } := by
    unfold Sys.lull
    rw [hrun]
  have hr₂ : Rep k₁ (A.lull time) := by rw [hp]; exact hr₁
  obtain ⟨k₂, he₂, hr₃⟩ := dispatch_rep (t := t) hr₂ (by rw [hp]; exact hrun)
    (fun hr => by rw [hp] at hr; simp [Sys.modTcb, TCB.runnable] at hr) hne
  refine ⟨k₂, ?_, hr₃⟩
  unfold Riscv.timeSleep
  simp only [h.running, hrun, Option.bind_eq_bind, Option.bind_some, he]
  exact he₂

/-- The loop of `Sleeping::remove` wakes the due threads in front. -/
theorem removeLoop_rep {l : List (Nat × Nat)} {fuel : Nat} (h : Rep k A) (hl : A.sleeping = l)
    (hf : l.length ≤ fuel) (hnd : (A.ready ++ l.map Prod.fst).Nodup) :
    ∃ k', Sleeping.removeLoop fuel k.sleepHead k = some k' ∧ Rep k' (A.wakeLoop l) := by
  induction l generalizing k A fuel with
  | nil =>
    obtain ⟨S, hS, hmap, -⟩ := h.sleeping
    rw [hl, List.map_eq_nil_iff] at hmap
    have hh : k.sleepHead = none := (Linked.none_iff hS).2 hmap
    refine ⟨k, ?_, ?_⟩
    · rw [hh]; cases fuel <;> rfl
    · unfold Sys.wakeLoop
      rw [← hl]
      exact h
  | cons e l ih =>
    obtain ⟨t, d⟩ := e
    obtain ⟨fuel, rfl⟩ : ∃ m, fuel = m + 1 := ⟨fuel - 1, by simp at hf; omega⟩
    obtain ⟨S, hS, hmap, hsub⟩ := h.sleeping
    rw [hl] at hmap
    obtain ⟨c, S, rfl, hce, hmap'⟩ := List.map_eq_cons_iff.1 hmap
    obtain ⟨hh, hS⟩ := hS
    have hct : (k.sleepQueue c).tcb = t := congrArg Prod.fst hce
    have hcd : (k.sleepQueue c).time = d := congrArg Prod.snd hce
    have hcS := (List.nodup_cons.1 (Linked.nodup (p := some c) ⟨rfl, hS⟩)).1
    rw [hh]
    unfold Sleeping.removeLoop Sys.wakeLoop
    simp only [hcd, hct]
    split
    · have ht : t ∉ A.ready := by
        rw [List.map_cons, List.nodup_append] at hnd
        exact fun hm => hnd.2.2 t hm t (.head _) rfl
      have hm := modTcb_rep h t (fun x => { x with asleep := false }) fun x => ⟨rfl, rfl⟩
      obtain ⟨tcb, head, he, hu, hq⟩ := put_spec hm.ready ht
      have hr₁ : Rep (Sleeping.deleteNode { k with
            tcb, head, tail := some t, sleepHead := (k.sleepQueue c).next } c)
          (({ A with sleeping := l }.modTcb t fun x => { x with asleep := false }).put t) := by
        refine { hm with tcb := fun u => (hu u).trans (hm.tcb u), ready := hq, sleeping := ?_ }
        refine ⟨S, hS, hmap', fun m hmS => ?_⟩
        have hmc : m ≠ c := fun he => hcS (he ▸ hmS)
        exact (List.mem_erase_of_ne hmc).2 (hsub (.tail _ hmS))
      obtain ⟨k', he', hr'⟩ := ih hr₁ rfl (by simpa using hf)
        (by simpa [Sys.put, Sys.modTcb] using hnd)
      refine ⟨k', ?_, hr'⟩
      refine Option.bind_eq_some_iff.2 ⟨{ k.modTcb t fun x => { x with asleep := false } with
        tcb, head, tail := some t }, ?_, he'⟩
      rw [show ((k.modTcb t fun x => { x with asleep := false }).sleepQueue c).tcb = t from hct]
      exact he
    · refine ⟨k, rfl, ?_⟩
      rw [← hl]
      exact h

theorem wake_rep (h : Rep k A) (hlen : A.sleeping.length ≤ addrSpace)
    (hnd : (A.ready ++ A.sleeping.map Prod.fst).Nodup) :
    ∃ k', Sleeping.remove k = some k' ∧ Rep k' A.wake := by
  obtain ⟨S, hS, hmap, hsub⟩ := h.sleeping
  unfold Sleeping.remove Sys.wake
  cases hl : A.sleeping with
  | nil =>
    rw [hl, List.map_eq_nil_iff] at hmap
    rw [(Linked.none_iff hS).2 hmap]
    exact ⟨k, rfl, h⟩
  | cons e l =>
    obtain ⟨t, d⟩ := e
    rw [hl] at hmap hlen hnd
    obtain ⟨c, S, rfl, hce, hmap'⟩ := List.map_eq_cons_iff.1 hmap
    obtain ⟨hh, hS⟩ := hS
    have hcS := (List.nodup_cons.1 (Linked.nodup (p := some c) ⟨rfl, hS⟩)).1
    simp only [hh]
    rw [← hh]
    have hr : Rep (k.modSleep c fun x => { x with time := sub64 x.time 1 })
        { A with sleeping := (t, sub64 d 1) :: l } := by
      refine { h with sleeping := ⟨c :: S, ⟨hh, ?_⟩, ?_, hsub⟩ }
      · refine Seg.congr (?_ : Seg (fun m => (k.sleepQueue m).next) _ _ _) fun m hm => ?_
        · simpa [Kernel.modSleep] using hS
        · have hmc : m ≠ c := fun he => hcS (he ▸ hm)
          simp [Kernel.modSleep, hmc]
      · rw [List.map_cons]
        congr 1
        · simp only [Kernel.modSleep, update_self, SleepQueue.entry]
          rw [show (k.sleepQueue c).tcb = t from congrArg Prod.fst hce,
            show (k.sleepQueue c).time = d from congrArg Prod.snd hce]
        rw [← hmap']
        refine List.map_congr_left fun m hm => ?_
        have hmc : m ≠ c := fun he => hcS (he ▸ hm)
        simp [Kernel.modSleep, hmc]
    rw [List.length_cons] at hlen
    rw [List.map_cons] at hnd
    have hfuel : ((t, sub64 d 1) :: l).length ≤ addrSpace := by rwa [List.length_cons]
    obtain ⟨k', he, hr'⟩ := removeLoop_rep hr rfl hfuel (by rwa [List.map_cons])
    refine ⟨k', he, ?_⟩
    unfold Sys.wakeLoop at hr' ⊢
    exact hr'

theorem timer_rep (h : Rep k A) (hrun : A.running = some t) (hlen : A.sleeping.length ≤ addrSpace)
    (hnd : (t :: (A.ready ++ A.sleeping.map Prod.fst)).Nodup) (hne : A.timer.running ≠ none) :
    ∃ k', Riscv.timer k = some k' ∧ Rep k' A.timer := by
  let A₀ : Sys := { A with timeSliceCounter := (A.timeSliceCounter + 1) % 2 ^ 64 }
  have h₀ : Rep { k with timeSliceCounter := (k.timeSliceCounter + 1) % 2 ^ 64 } A₀ :=
    { h with counter := by rw [h.counter] }
  obtain ⟨k₁, he, hr₁⟩ := wake_rep h₀ hlen hnd.of_cons
  have hrun₁ : A₀.wake.running = some t := A₀.wake_running.trans hrun
  have ht : t ∉ A₀.wake.ready := fun hm => (List.nodup_cons.1 hnd).1 <|
    A₀.wake_places ▸ List.mem_append_left _ hm
  have hslice : (k₁.tcb t).timeSlice = (A₀.wake.tcb t).timeSlice := by
    rw [← hr₁.tcb t]
    rfl
  change A₀.wake.preempt.running ≠ none at hne
  change ∃ k', _ ∧ Rep k' A₀.wake.preempt
  unfold Riscv.timer
  unfold Sys.preempt at hne ⊢
  simp only [he, Option.bind_eq_bind, Option.bind_some, hr₁.running, hrun₁, hr₁.counter,
    hslice] at hne ⊢
  split
  · rename_i hge
    rw [if_pos hge] at hne
    exact dispatch_rep (t := t) { hr₁ with running := rfl, counter := rfl } rfl (fun _ => ht) hne
  · exact ⟨k₁, rfl, hr₁⟩

theorem threadDestroy_rep (h : Rep k A) (ht : t ∉ A.ready) :
    Rep (Riscv.threadDestroy k t).2 (A.threadDestroy t) := by
  unfold Riscv.threadDestroy Sys.threadDestroy
  refine { h with tcb := fun u => ?_, ready := h.ready.congr fun u hu => ?_, tcbs := ?_ }
  · simp only [Kernel.modTcb, Sys.modTcb, update_apply]
    split
    · rfl
    · exact h.tcb u
  · have hne : u ≠ t := fun he => ht (he ▸ hu)
    simp only [Kernel.modTcb, update_of_ne hne]
  · exact congrArg (List.erase · t) h.tcbs

end SlabKernel
