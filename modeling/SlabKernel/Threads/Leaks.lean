import Mathlib.Data.List.Count
import SlabKernel.Threads.Counting
import SlabKernel.Threads.Objects
import SlabKernel.Threads.Sleeping

/-!
# The nodes of waiting and of sleeping threads

An entry gives objects back that are live, each once (`freed_subperm`), and the number of live nodes
stays that of the waiting and of the sleeping threads (`Tidy`). The linked nodes are live and as many,
so they are all: no node is lost, and none is given back while it is linked
(`live_nodes_linked`).
-/

namespace SlabKernel

open Function (update update_self)
open PtrList Queues Runs

variable {k k' : Kernel} {A : Sys} {s t : Nat}

/-! ## What is given back -/

theorem KernelSem.blockedNodes_eq {blockedQueue : Nat → BlockedQueue} {N : List Nat} {fuel : Nat}
    {p : Ptr} (h : Linked (fun n => (blockedQueue n).next) p N) (hfuel : N.length ≤ fuel) :
    KernelSem.blockedNodes blockedQueue fuel p = N := by
  induction N generalizing fuel p with
  | nil =>
    obtain rfl : p = none := h
    cases fuel <;> rfl
  | cons n N ih =>
    obtain ⟨rfl, h⟩ := h
    cases fuel with
    | zero => cases hfuel
    | succ fuel =>
      unfold KernelSem.blockedNodes
      rw [ih h (Nat.le_of_succ_le_succ hfuel)]

theorem Sleeping.due_eq {sleepQueue : Nat → SleepQueue} {S : List Nat} {fuel : Nat} {p : Ptr}
    (h : Linked (fun n => (sleepQueue n).next) p S) (hfuel : S.length ≤ fuel) :
    Sleeping.due sleepQueue fuel p = S.takeWhile fun n => (sleepQueue n).time = 0 := by
  induction S generalizing fuel p with
  | nil =>
    obtain rfl : p = none := h
    cases fuel <;> rfl
  | cons n S ih =>
    obtain ⟨rfl, h⟩ := h
    cases fuel with
    | zero => cases hfuel
    | succ fuel =>
      unfold Sleeping.due
      rw [List.takeWhile_cons]
      by_cases htime : (sleepQueue n).time = 0
      · simp only [htime, if_true, decide_true, ih h (Nat.le_of_succ_le_succ hfuel)]
      · simp only [htime, if_false, decide_false, Bool.false_eq_true]

/-- The nodes that `semDtor` gives back are those of the semaphore's queue. -/
theorem Rep.blockedNodes (h : Rep k A) (hst : A.Stable) (hs : s ∈ k.sems) :
    ∃ N, Linked (fun n => (k.blockedQueue n).next) (k.sem s).head N ∧
      N.map (fun n => (k.blockedQueue n).tcb) = A.waiting s ∧ N ⊆ k.nodes ∧
      KernelSem.blockedNodes k.blockedQueue addrSpace (k.sem s).head = N := by
  obtain ⟨t, -, hinv⟩ := hst
  obtain ⟨N, hN, -⟩ := h.waiting
  obtain ⟨hq, hmap, hsub⟩ := hN s hs
  refine ⟨N s, hq.linked, hmap, hsub, KernelSem.blockedNodes_eq hq.linked ?_⟩
  rw [← List.length_map (fun n => (k.blockedQueue n).tcb), hmap]
  exact Nat.le_trans (hinv.waiting_length (h.sems ▸ hs)) (Nat.pow_le_pow_right (by decide) (by decide))

/-- The nodes that the timer gives back are linked, and as many as the threads that wake up. -/
theorem Rep.due (h : Rep k A) (hst : A.Stable) :
    ∃ S, Linked (fun n => (k.sleepQueue n).next) k.sleepHead S ∧ S ⊆ k.sleeps ∧
      (k.freed .timer .sleep).Sublist S ∧
      A.wake.sleeping.length + (k.freed .timer .sleep).length = A.sleeping.length := by
  obtain ⟨t, -, hinv⟩ := hst
  obtain ⟨S, hS, hmap, hsub⟩ := h.sleeping
  have hlen : S.length ≤ addrSpace := by
    rw [← List.length_map (fun n => (k.sleepQueue n).entry), hmap]
    exact Nat.le_trans hinv.sleeping_length (Nat.pow_le_pow_right (by decide) (by decide))
  refine ⟨S, hS, hsub, ?_⟩
  cases S with
  | nil =>
    have hhead : k.sleepHead = none := hS
    have hnil : A.sleeping = [] := hmap.symm
    unfold Sys.wake Kernel.freed
    simp [hhead, hnil]
  | cons n S =>
    obtain ⟨hhead, hS'⟩ := hS
    have hnS := (List.nodup_cons.1 (Linked.nodup (p := some n) ⟨rfl, hS'⟩)).1
    -- the list with its first time lowered
    let q := (k.modSleep n fun x => { x with time := sub64 x.time 1 }).sleepQueue
    have hself : (q n).entry = ((k.sleepQueue n).tcb, sub64 (k.sleepQueue n).time 1) := by
      simp [q, Kernel.modSleep, SleepQueue.entry]
    have hother : ∀ m ∈ S, q m = k.sleepQueue m := fun m hm => by
      have hmn : m ≠ n := fun he => hnS (he ▸ hm)
      simp [q, Kernel.modSleep, hmn]
    have hlinked : Linked (fun m => (q m).next) k.sleepHead (n :: S) := by
      refine ⟨hhead, Seg.congr (?_ : Seg (fun m => (k.sleepQueue m).next) _ _ _) fun m hm => ?_⟩
      · simpa [q, Kernel.modSleep] using hS'
      · rw [hother m hm]
    have hfreed : k.freed .timer .sleep = (n :: S).takeWhile fun m => (q m).time = 0 := by
      have hdue := Sleeping.due_eq hlinked hlen
      unfold Kernel.freed
      simp only [hhead] at hdue ⊢
      exact hdue
    have hentries : (n :: S).map (fun m => (q m).entry) =
        ((k.sleepQueue n).tcb, sub64 (k.sleepQueue n).time 1) ::
          S.map fun m => (k.sleepQueue m).entry := by
      rw [List.map_cons, hself]
      congr 1
      exact List.map_congr_left fun m hm => by rw [hother m hm]
    have hwake : A.wake.sleeping = ((n :: S).dropWhile fun m => (q m).time = 0).map
        fun m => (q m).entry := by
      unfold Sys.wake
      rw [← hmap, List.map_cons]
      simp only [SleepQueue.entry] at hentries ⊢
      rw [Sys.wakeLoop_eq, ← hentries, List.dropWhile_map]
      rfl
    rw [hfreed]
    refine ⟨List.takeWhile_sublist _, ?_⟩
    rw [hwake, List.length_map, ← hmap, List.length_map, Nat.add_comm, ← List.length_append,
      List.takeWhile_append_dropWhile]

/-- An entry gives live objects back, each once. -/
theorem freed_subperm {e : Entry} (h : Rep k A) (hst : A.Stable) (hok : k.Ok e) (c : ObjectKind) :
    (k.freed e c).Subperm (k.objects c) := by
  cases e with
  | timer =>
    cases c with
    | sleep =>
      obtain ⟨S, hS, hsub, hfreed, -⟩ := h.due hst
      exact hfreed.subperm.trans ((Linked.nodup hS).subperm hsub)
    | _ => exact List.nil_subperm
  | signal s =>
    cases c with
    | blocked =>
      obtain ⟨N, hN, -, hsub, -⟩ := h.blockedNodes hst hok.1
      unfold Kernel.freed
      dsimp only
      split
      · refine (Option.toList_nodup _).subperm fun n hn => hsub ?_
        rw [hN.head?, Option.mem_toList] at hn
        exact List.mem_of_head? hn
      · exact List.nil_subperm
    | _ => exact List.nil_subperm
  | semClose s =>
    cases c with
    | blocked =>
      obtain ⟨N, hN, -, hsub, hfreed⟩ := h.blockedNodes hst hok.2
      unfold Kernel.freed
      dsimp only
      rw [hfreed]
      exact (Linked.nodup hN).subperm hsub
    | sem => exact List.singleton_subperm_iff.2 hok.2
    | _ => exact List.nil_subperm
  | threadDestroy t =>
    cases c with
    | tcb => exact List.singleton_subperm_iff.2 hok.2.1
    | _ => exact List.nil_subperm
  | _ => exact List.nil_subperm

/-! ## The number of nodes -/

/-- No object is live twice, and there are as many nodes as waiting and as sleeping threads. -/
structure Tidy (k : Kernel) (A : Sys) : Prop where
  nodup : ∀ c, (k.objects c).Nodup
  nodes : k.nodes.length = (A.sems.flatMap A.waiting).length
  sleeps : k.sleeps.length = A.sleeping.length

theorem step_length {e : Entry} (h : Rep k A) (hst : A.Stable) (hok : k.Ok e)
    (hs : k.step e = some k') (c : ObjectKind) :
    (k'.objects c).length + (k.freed e c).length = (k.taken e c).length + (k.objects c).length := by
  have hsub := (freed_subperm h hst hok c).trans
    (List.sublist_append_right (k.taken e c) (k.objects c)).subperm
  have hperm := List.subperm_append_diff_self_of_count_le (List.subperm_ext_iff.1 hsub)
  rw [step_objects hs c, Nat.add_comm, ← List.length_append, hperm.length_eq, List.length_append]

theorem Sys.insertSleep_length (t time : Nat) (l : List (Nat × Nat)) :
    (Sys.insertSleep t time l).length = 1 + l.length := by
  induction l generalizing time with
  | nil => rfl
  | cons e l ih =>
    obtain ⟨u, d⟩ := e
    unfold Sys.insertSleep
    split
    · simp only [List.length_cons]
      omega
    · rw [List.length_cons, ih, List.length_cons]
      omega

/-- The threads that sleep after an entry. -/
theorem step_sleeping {e : Entry} (h : Rep k A) (hst : A.Stable) (hok : k.Ok e) :
    (A.step e).sleeping.length + (k.freed e .sleep).length =
      (k.taken e .sleep).length + A.sleeping.length := by
  cases e with
  | createThread thread startRoutine arg stackSpace id start =>
    obtain ⟨-, -, t, rfl, -⟩ := hok
    have hsl := A.sleeping_createThread t startRoutine arg stackSpace id start
    exact (congrArg List.length hsl).trans (Nat.zero_add _).symm
  | startThread handle =>
    obtain ⟨-, t, rfl, -⟩ := hok
    exact (congrArg List.length (A.sleeping_startThread t)).trans (Nat.zero_add _).symm
  | dispatch =>
    exact (congrArg List.length (Sys.sleeping_dispatch _)).trans (Nat.zero_add _).symm
  | exit => exact (congrArg List.length A.sleeping_exit).trans (Nat.zero_add _).symm
  | timer =>
    obtain ⟨-, -, -, -, hlen⟩ := h.due hst
    exact (congrArg (List.length · + _) A.sleeping_timer).trans (hlen.trans (Nat.zero_add _).symm)
  | sleep time node =>
    obtain ⟨-, -, -, n, rfl, -⟩ := hok
    obtain ⟨t, hrun, -⟩ := hst
    exact (congrArg List.length (A.sleeping_sleep time hrun)).trans
      (Sys.insertSleep_length t time A.sleeping)
  | semOpen semaphore init =>
    obtain ⟨-, -, s, rfl, -⟩ := hok
    exact (Nat.zero_add _).symm
  | wait s node => exact (congrArg List.length (A.sleeping_wait s)).trans (Nat.zero_add _).symm
  | signal s => exact (congrArg List.length (A.sleeping_signal s)).trans (Nat.zero_add _).symm
  | semClose s => exact (congrArg List.length (A.sleeping_semClose s)).trans (Nat.zero_add _).symm
  | threadDestroy t => exact (Nat.zero_add _).symm

/-- The threads that wait after an entry. -/
theorem step_waiting {e : Entry} (h : Rep k A) (hst : A.Stable) (hok : k.Ok e) :
    ((A.step e).sems.flatMap (A.step e).waiting).length + (k.freed e .blocked).length =
      (k.taken e .blocked).length + (A.sems.flatMap A.waiting).length := by
  obtain ⟨t, hrun, hinv⟩ := id hst
  have hsched : ∀ e : Entry, e.Schedules →
      ((A.step e).sems.flatMap (A.step e).waiting).length = (A.sems.flatMap A.waiting).length :=
    fun e he => by
      have hsem := A.step_semState he
      simp only [Sys.semState, Prod.mk.injEq] at hsem
      rw [hsem.1, hsem.2.2]
  cases e with
  | semOpen semaphore init =>
    obtain ⟨-, -, s, rfl, hs⟩ := hok
    rw [h.sems] at hs
    change ((s :: A.sems).flatMap (update A.waiting s [])).length = 0 + _
    rw [List.flatMap_cons, update_self, List.nil_append, contents_update_of_notMem _ _ hs,
      Nat.zero_add]
  | wait s node =>
    obtain ⟨hi, hs, n, rfl, -⟩ := hok
    rw [h.sems] at hs
    rw [h.running, h.idle] at hi
    obtain ⟨hsem, -⟩ := hst.wait_spec (hst.wait hi hs) hrun hs
    simp only [Sys.semState, Prod.mk.injEq] at hsem
    obtain ⟨hsems, -, hwait⟩ := hsem
    have hblocks : k.Blocks s ↔ A.val s - 1 < 0 := by
      unfold Kernel.Blocks
      rw [h.val, (Sys.toInt32_val hinv hs).1]
    change ((A.wait s).sems.flatMap (A.wait s).waiting).length + 0 =
      (if k.Blocks s then [n] else []).length + _
    simp only [hblocks]
    rw [hsems, hwait]
    split
    · rw [(contents_update_perm A.waiting _ hinv.sems hs).length_eq,
        (contents_perm A.waiting hs).length_eq]
      simp only [List.length_append, List.length_singleton]
      omega
    · exact (Nat.zero_add _).symm
  | signal s =>
    obtain ⟨hs, hmax⟩ := hok
    obtain ⟨N, hN, hmap, -⟩ := h.blockedNodes hst hs
    rw [h.sems] at hs
    rw [h.val] at hmax
    obtain ⟨hsem, -⟩ := hinv.signal_spec hs hmax
    simp only [Sys.semState, Prod.mk.injEq] at hsem
    obtain ⟨hsems, -, hwait⟩ := hsem
    obtain ⟨-, hval⟩ := hinv.val s hs
    change ((A.signal s).sems.flatMap (A.signal s).waiting).length +
      (if (k.sem s).val < 0 then (k.sem s).head.toList else []).length = 0 + _
    rw [hsems, hwait, h.val, hN.head?, (contents_update_perm A.waiting _ hinv.sems hs).length_eq,
      (contents_perm A.waiting hs).length_eq]
    cases N with
    | nil =>
      rw [← hmap] at hval ⊢
      have hge : ¬ A.val s < 0 := by
        simp only [List.map_nil, List.length_nil] at hval
        omega
      rw [if_neg hge]
      simp
    | cons n N =>
      rw [← hmap] at hval ⊢
      have hlt : A.val s < 0 := by
        simp only [List.map_cons, List.length_cons] at hval
        omega
      rw [if_pos hlt]
      simp only [List.map_cons, List.tail_cons, List.length_append, List.length_cons,
        List.head?_cons, Option.toList_some, List.length_nil]
      omega
  | semClose s =>
    obtain ⟨-, hs⟩ := hok
    obtain ⟨N, -, hmap, -, hfreed⟩ := h.blockedNodes hst hs
    rw [h.sems] at hs
    change ((A.sems.erase s).flatMap (update A.waiting s [])).length +
      (KernelSem.blockedNodes k.blockedQueue addrSpace (k.sem s).head).length = 0 + _
    rw [contents_update_of_notMem _ _ hinv.sems.not_mem_erase, hfreed,
      (contents_perm A.waiting hs).length_eq, ← hmap, List.length_append, List.length_map]
    omega
  | threadDestroy t => exact (Nat.zero_add _).symm
  | _ =>
    refine (hsched _ ?_).trans (Nat.zero_add _).symm
    trivial

/-- An entry takes at most one object, and none that is live. -/
theorem taken_fresh {e : Entry} (hok : k.Ok e) (c : ObjectKind) :
    k.taken e c = [] ∨ ∃ p, k.taken e c = [p] ∧ p ∉ k.objects c := by
  cases e with
  | createThread thread startRoutine arg stackSpace id start =>
    obtain ⟨-, -, t, rfl, ht, -⟩ := hok
    cases c with
    | tcb => exact .inr ⟨t, rfl, ht⟩
    | _ => exact .inl rfl
  | sleep time node =>
    obtain ⟨-, -, -, n, rfl, hn⟩ := hok
    cases c with
    | sleep => exact .inr ⟨n, rfl, hn⟩
    | _ => exact .inl rfl
  | semOpen semaphore init =>
    obtain ⟨-, -, s, rfl, hs⟩ := hok
    cases c with
    | sem => exact .inr ⟨s, rfl, hs⟩
    | _ => exact .inl rfl
  | wait s node =>
    obtain ⟨-, -, n, rfl, hn⟩ := hok
    cases c with
    | blocked =>
      by_cases hb : k.Blocks s
      · exact .inr ⟨n, if_pos hb, hn⟩
      · exact .inl (if_neg hb)
    | _ => exact .inl rfl
  | _ => exact .inl rfl

/-- An entry loses no node. -/
theorem Tidy.step {e : Entry} (h : Tidy k A) (hr : Rep k A) (hst : A.Stable) (hok : k.Ok e)
    (hs : k.step e = some k') : Tidy k' (A.step e) := by
  refine ⟨fun c => ?_, ?_, ?_⟩
  · rw [step_objects hs c]
    refine List.Nodup.sublist (List.diff_sublist _ _) ?_
    cases taken_fresh hok c with
    | inl hnil => exact hnil ▸ h.nodup c
    | inr htaken =>
      obtain ⟨p, he, hp⟩ := htaken
      rw [he]
      exact List.nodup_cons.2 ⟨hp, h.nodup c⟩
  · have hlen := step_length hr hst hok hs .blocked
    have hwait := step_waiting hr hst hok
    have hnodes := h.nodes
    simp only [Kernel.objects] at hlen
    omega
  · have hlen := step_length hr hst hok hs .sleep
    have hsleep := step_sleeping hr hst hok
    have hsleeps := h.sleeps
    simp only [Kernel.objects] at hlen
    omega

/-! ## The nodes -/

/-- The live nodes are the linked ones: `N s` those of the queue of `s`, `S` those of the sleep list.
No thread has two. -/
structure Kernel.Links (k : Kernel) (N : Nat → List Nat) (S : List Nat) : Prop where
  waiting : ∀ s ∈ k.sems, Linked (fun n => (k.blockedQueue n).next) (k.sem s).head (N s)
  sleeping : Linked (fun n => (k.sleepQueue n).next) k.sleepHead S
  nodes : k.nodes.Perm (k.sems.flatMap N)
  sleeps : k.sleeps.Perm S
  threads : (k.nodes.map (fun n => (k.blockedQueue n).tcb) ++
    k.sleeps.map fun n => (k.sleepQueue n).tcb).Nodup

/-- The linked nodes are live and as many, so they are all. -/
theorem Tidy.links (h : Tidy k A) (hr : Rep k A) (hst : A.Stable) : ∃ N S, k.Links N S := by
  obtain ⟨t, -, hinv⟩ := hst
  obtain ⟨N, hN, hdisj⟩ := hr.waiting
  obtain ⟨S, hS, hmap, hsub⟩ := hr.sleeping
  have hnd : (k.sems.flatMap N).Nodup := by
    refine List.nodup_flatMap.2 ⟨fun s hs => (hN s hs).1.nodup, ?_⟩
    exact (hr.sems ▸ hinv.sems).pairwise_of_forall_ne fun s hs s' hs' hne => hdisj s hs s' hs' hne
  have hmem : k.sems.flatMap N ⊆ k.nodes := fun n hn => by
    obtain ⟨s, hs, hn⟩ := List.mem_flatMap.1 hn
    exact (hN s hs).2.2 hn
  have hnodes : k.nodes.Perm (k.sems.flatMap N) := by
    refine ((hnd.subperm hmem).perm_of_length_le (Nat.le_of_eq ?_)).symm
    rw [h.nodes, ← hr.sems, List.length_flatMap, List.length_flatMap]
    refine congrArg List.sum (List.map_congr_left fun s hs => ?_)
    rw [← (hN s hs).2.1, List.length_map]
  have hsleeps : k.sleeps.Perm S := by
    refine (((Linked.nodup hS).subperm hsub).perm_of_length_le (Nat.le_of_eq ?_)).symm
    rw [h.sleeps, ← hmap, List.length_map]
  refine ⟨N, S, fun s hs => (hN s hs).1.linked, hS, hnodes, hsleeps, ?_⟩
  have hthreads : (k.nodes.map (fun n => (k.blockedQueue n).tcb) ++
      k.sleeps.map fun n => (k.sleepQueue n).tcb).Perm
      (A.sems.flatMap A.waiting ++ A.sleeping.map Prod.fst) := by
    refine ((hnodes.map _).trans (.of_eq ?_)).append ((hsleeps.map _).trans (.of_eq ?_))
    · rw [List.map_flatMap, ← hr.sems]
      exact List.flatMap_congr fun s hs => (hN s hs).2.1
    · rw [← hmap, List.map_map]
      rfl
  exact hthreads.nodup_iff.2 (List.nodup_append.1 hinv.queued_nodup).2.1

/-! ## Runs -/

theorem Tidy.run {es : List Entry} (h : Tidy k A) (hr : Rep k A) (hst : A.Stable)
    (hrun : Run Kernel.Ok Kernel.step k es k') :
    ∃ A', Tidy k' A' ∧ Rep k' A' ∧ A'.Stable := by
  induction hrun generalizing A with
  | nil => exact ⟨A, h, hr, hst⟩
  | cons hok hs _ ih =>
    obtain ⟨k₁, he, hr₁, hst₁⟩ := step_rep hr hst hok
    rw [hs, Option.some.injEq] at he
    subst he
    exact ih (h.step hr hst hok hs) hr₁ hst₁

/-- After boot no node is live. -/
theorem Boot.nodes {e : Boot} (h : e.kernel = some k) : k.nodes = [] ∧ k.sleeps = [] := by
  have hsem : ∀ {k k' : Kernel} {s v : Nat}, KernelSem.createSem k (some s) v = some k' →
      k.nodes = [] ∧ k.sleeps = [] → k'.nodes = [] ∧ k'.sleeps = [] := fun {k k' s v} h hn => by
    have hobj := step_objects (e := .semOpen (some s) v) h
    exact ⟨(hobj .blocked).trans hn.1, (hobj .sleep).trans hn.2⟩
  have htcb : ∀ {k : Kernel} {r : Ptr × Kernel} {t f arg stack : Ptr} {id : Int} {start : Bool},
      TCB.createThread k t f arg stack id start = some r → k.nodes = [] ∧ k.sleeps = [] →
      r.2.nodes = [] ∧ r.2.sleeps = [] := fun {k r t f arg stack id start} h hn => by
    have hobj := step_objects (k := k) (e := .createThread t f arg stack id start)
      (Option.map_eq_some_iff.2 ⟨r, h, rfl⟩)
    exact ⟨(hobj .blocked).trans hn.1, (hobj .sleep).trans hn.2⟩
  unfold Boot.kernel at h
  simp only [Option.bind_eq_bind] at h
  obtain ⟨k₁, h₁, h⟩ := Option.bind_eq_some_iff.1 h
  obtain ⟨k₂, h₂, h⟩ := Option.bind_eq_some_iff.1 h
  obtain ⟨k₃, h₃, h⟩ := Option.bind_eq_some_iff.1 h
  obtain ⟨k₄, h₄, h⟩ := Option.bind_eq_some_iff.1 h
  obtain ⟨k₅, h₅, h⟩ := Option.bind_eq_some_iff.1 h
  obtain ⟨k₆, h₆, h⟩ := Option.bind_eq_some_iff.1 h
  obtain ⟨r₇, h₇, h⟩ := Option.bind_eq_some_iff.1 h
  obtain ⟨r₈, h₈, h⟩ := Option.bind_eq_some_iff.1 h
  obtain ⟨r₉, h₉, h⟩ := Option.bind_eq_some_iff.1 h
  obtain ⟨r₁₀, h₁₀, h⟩ := Option.bind_eq_some_iff.1 h
  obtain rfl := Option.some.inj h
  exact htcb h₁₀ (htcb h₉ (htcb h₈ (htcb h₇ (hsem h₆ (hsem h₅ (hsem h₄ (hsem h₃ (hsem h₂
    (hsem h₁ ⟨rfl, rfl⟩)))))))))

theorem Boot.tidy {e : Boot} (he : e.Ok) (h : e.kernel = some k) :
    Tidy k e.sys ∧ Rep k e.sys := by
  obtain ⟨k₁, hk, hr⟩ := Boot.rep he
  rw [h, Option.some.injEq] at hk
  subst hk
  obtain ⟨hnodes, hsleeps⟩ := Boot.nodes h
  refine ⟨⟨fun c => ?_, ?_, ?_⟩, hr⟩
  · cases c with
    | tcb =>
      change k.tcbs.Nodup
      rw [hr.tcbs, e.sys_tcbs]
      exact List.nodup_reverse.1 he.tcbs
    | sem =>
      change k.sems.Nodup
      rw [hr.sems, e.sys_sems]
      exact List.nodup_reverse.1 he.sems
    | blocked =>
      change k.nodes.Nodup
      rw [hnodes]
      exact List.nodup_nil
    | sleep =>
      change k.sleeps.Nodup
      rw [hsleeps]
      exact List.nodup_nil
  · rw [hnodes, List.flatMap_eq_nil_iff.2 fun s _ => e.sys_waiting s]
  · rw [hsleeps]
    rfl

/-- **No node is lost, none dangles.** In every run from boot the live nodes are exactly those that
the queues of the live semaphores and the sleep list link, each once, and no thread has two. The next
entry takes at most one object, which is not live; those that it gives back are live, each once; no
others come or go. -/
theorem live_nodes_linked {e : Boot} {k₀ : Kernel} {es : List Entry} (he : e.Ok)
    (hboot : e.kernel = some k₀) (hrun : Run Kernel.Ok Kernel.step k₀ es k) :
    (∃ N S, k.Links N S) ∧ (∀ c, (k.objects c).Nodup) ∧
    ∀ entry, k.Ok entry → ∃ k', k.step entry = some k' ∧ ∀ c,
      (k.taken entry c = [] ∨ ∃ p, k.taken entry c = [p] ∧ p ∉ k.objects c) ∧
      (k.freed entry c).Subperm (k.objects c) ∧
      k'.objects c = (k.taken entry c ++ k.objects c).diff (k.freed entry c) := by
  obtain ⟨ht, hr⟩ := Boot.tidy he hboot
  obtain ⟨A, ht, hr, hst⟩ := ht.run hr (Boot.stable he) hrun
  refine ⟨ht.links hr hst, ht.nodup, fun entry hok => ?_⟩
  obtain ⟨k', hs, -⟩ := step_rep hr hst hok
  exact ⟨k', hs, fun c => ⟨taken_fresh hok c, freed_subperm hr hst hok c, step_objects hs c⟩⟩

/-- The main thread sleeps, two threads wait, and the idle thread runs for a tick. -/
theorem live_nodes_linked_boot128 : ∃ k₀ k, boot128.kernel = some k₀ ∧
    Run Kernel.Ok Kernel.step k₀ [.sleep 2 (some 0x87008000), .wait 1 (some 0x87009000),
      .wait 3 (some 0x8700a000), .timer] k ∧
    (∃ N S, k.Links N S) ∧ k.nodes = [0x8700a000, 0x87009000] ∧ k.sleeps = [0x87008000] ∧
    (k.freed .timer .sleep).Subperm [0x87008000] := by
  obtain ⟨k₀, k, hboot, hrun, hnodes, hsleeps⟩ : ∃ k₀ k, boot128.kernel = some k₀ ∧
      Run Kernel.Ok Kernel.step k₀ [.sleep 2 (some 0x87008000), .wait 1 (some 0x87009000),
        .wait 3 (some 0x8700a000), .timer] k ∧ k.nodes = [0x8700a000, 0x87009000] ∧
      k.sleeps = [0x87008000] := by
    refine ⟨_, _, rfl, .cons ?_ rfl (.cons ?_ rfl (.cons ?_ rfl (.cons trivial rfl .nil))), ?_, ?_⟩
    · exact ⟨by decide, by decide, by decide, _, rfl, by decide⟩
    · exact ⟨by decide, by decide, _, rfl, by decide⟩
    · exact ⟨by decide, by decide, _, rfl, by decide⟩
    · decide
    · decide
  obtain ⟨hlinks, -, hnext⟩ := live_nodes_linked boot128_ok hboot hrun
  obtain ⟨k', -, hobj⟩ := hnext .timer trivial
  refine ⟨k₀, k, hboot, hrun, hlinks, hnodes, hsleeps, ?_⟩
  have hsub := (hobj .sleep).2.1
  rwa [show k.objects .sleep = [0x87008000] from hsleeps] at hsub

end SlabKernel
