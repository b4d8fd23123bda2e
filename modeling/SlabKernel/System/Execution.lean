import SlabKernel.System.Layout

/-!
# Runs of the computer

In every run of the computer from boot on the hart, the kernel and the heap do what each of them does
alone (`computer_runs`): the memory in which the hart saves registers is in use by nobody else, and
the hart runs the thread that the scheduler has chosen.
-/

namespace SlabKernel

open Function (update update_self update_of_ne)
open Rv64 Runs CachePool

/-! ## What an entry does to the threads -/

/-- An entry with the object `p`, which leads from `k` to `k'`. -/
inductive Rethreads (k k' : Kernel) : Request → Ptr → Prop
  | created {f arg stack : Ptr} {id : Int} {start : Bool} {t : Nat} (fn : f ≠ none)
      (new : t ∉ k.tcbs) (tcbs : k'.tcbs = t :: k.tcbs) (running : k'.running = k.running)
      (own : (k'.tcb t).stack = stack) (other : ∀ u, u ≠ t → (k'.tcb u).stack = (k.tcb u).stack) :
      Rethreads k k' (.createThread f arg stack id start) (some t)
  | destroyed {t : Nat} {p : Ptr} (away : k.running ≠ some t) (tcbs : k'.tcbs = k.tcbs.erase t)
      (running : k'.running = k.running)
      (other : ∀ u, u ≠ t → (k'.tcb u).stack = (k.tcb u).stack) :
      Rethreads k k' (.threadDestroy t) p
  | kept {r : Request} {p : Ptr} (owns : ∀ t, ¬ (r.entry p).Owns t) (tcbs : k'.tcbs = k.tcbs)
      (stack : ∀ t, (k'.tcb t).stack = (k.tcb t).stack) (live : ∃ t, k'.running = some t ∧ t ∈ k'.tcbs)
      (running : ¬ k.Switches (r.entry p) → k'.running = k.running) : Rethreads k k' r p

namespace System

variable {x x₁ x' : System} {r : Request} {p : Ptr}

theorem Sound.rethreads (h : x.Sound) (hok : x.kernel.Admits r) (hgive : x.give r = some (p, x₁))
    (hx : x.enter r = some x') : Rethreads x.kernel x'.kernel r p := by
  obtain ⟨A, hr, hst, -⟩ := h.kernel
  obtain ⟨-, hnone, hnew⟩ := h.given hgive
  obtain ⟨hk, -⟩ := enter_kernel hgive hx
  rcases Request.cases hok hnone hnew with ⟨⟨f, arg, stack, id, start, rfl⟩, rfl⟩ |
    ⟨-, -, hstep⟩ | ⟨-, q, hok', hstep, htaken, -⟩
  · -- no memory for a thread
    have he : x.kernel = x'.kernel := Option.some.inj hk
    rw [← he]
    obtain ⟨t, ht, hi⟩ := hst
    refine .kept (fun u => nofun) rfl (fun _ => rfl) ⟨t, hr.running.trans ht, ?_⟩ fun _ => rfl
    rw [hr.tcbs]
    exact hi.live t (.head _)
  · rw [hk] at hstep
    cases hstep
  · have hs := hstep.trans hk
    obtain ⟨hlive, hrun, hstack⟩ := step_switches hr hst hok' hs
    have hobj := step_objects hs .tcb
    cases r with
    | createThread f arg stack n start =>
      have hp : q.toList = p.toList := htaken .tcb
      obtain rfl : q = p := by simpa using congrArg List.head? hp
      obtain ⟨-, hf, t, rfl, ht, -⟩ := id hok'
      exact .created hf ht hobj (hrun not_false) (created_stack hr hst hok' hs) fun u hu =>
        hstack u fun he => hu (Option.some.inj he).symm
    | threadDestroy t =>
      exact .destroyed hok'.2.2.1 (hobj.trans (List.diff_cons _ _ _)) (hrun not_false) fun u hu =>
        hstack u fun he => hu he.symm
    | _ => exact .kept (fun _ => not_false) hobj (fun t => hstack t not_false) hlive hrun

end System

/-! ## What is owned stays -/

theorem SharedClient.step_buffers {s s' : SharedClient} {op : SharedCall} {q : Nat × Nat}
    (hs : s.step op = some s') (hq : q ∈ s.client.buffers) (hne : ∀ p, op = .call (.kfree p) → q.1 ≠ p) :
    q ∈ s'.client.buffers := by
  cases op with
  | call op =>
    obtain ⟨client, hc, rfl⟩ := Option.map_eq_some_iff.1 hs
    cases op with
    | kmalloc n =>
      obtain ⟨r, -, rfl⟩ := Option.map_eq_some_iff.1 hc
      exact List.mem_append_right _ hq
    | kfree p =>
      obtain ⟨r, -, rfl⟩ := Option.map_eq_some_iff.1 hc
      exact List.mem_filter.2 ⟨hq, decide_eq_true (hne p rfl)⟩
    | _ =>
      obtain ⟨r, -, rfl⟩ := Option.map_eq_some_iff.1 hc
      exact hq
  | take order =>
    obtain rfl := Option.some.inj hs
    exact hq
  | give addr order =>
    obtain ⟨r, -, rfl⟩ := Option.map_eq_some_iff.1 hs
    exact hq

theorem HeapClient.step_live {s s' : HeapClient} {op : HeapCall} {q : Nat × Nat}
    (hs : s.step op = some s') (hq : q ∈ s.live) (hne : ∀ p, op = .free p → q.1 ≠ p) :
    q ∈ s'.live := by
  cases op with
  | alloc n =>
    obtain ⟨r, -, rfl⟩ := Option.map_eq_some_iff.1 hs
    dsimp only
    cases r.1 with
    | none => exact hq
    | some addr => exact .tail _ hq
  | free p =>
    obtain ⟨r, -, rfl⟩ := Option.map_eq_some_iff.1 hs
    exact List.mem_filter.2 ⟨hq, decide_eq_true (hne p rfl)⟩

/-- What the kernel and its allocators see of an event. -/
def ComputerEvent.system : ComputerEvent → Option SystemCall
  | .entry r => some (.entry r)
  | .other op => some (.other op)
  | .hart _ | .heap _ => none

/-- The events of the hart that an event of the computer makes. -/
def ComputerEvent.Makes : ComputerEvent → List HartEvent → Prop
  | .hart e, es => es = [e]
  | .entry _, es => es.length ≤ 1
  | .other _, es | .heap _, es => es = []

namespace Computer

variable {x y x' : Computer} {heap : HeapBounds} {r : Request} {t p : Nat} {e : HartEvent}

theorem stack_word (ht : t < 2 ^ 64) : x.stack (word t) = x.stackOf t := by
  unfold stack
  rw [word_toNat ht]

theorem stackOf_congr (hmain : y.mainStack = x.mainStack)
    (hs : (y.kernel.tcb t).stack = (x.kernel.tcb t).stack) : y.stackOf t = x.stackOf t := by
  unfold stackOf
  rw [hs, hmain]

/-- No thread is new, and the stacks of the threads stay. -/
theorem Placed.sub (h : x.Placed heap) (hmain : y.mainStack = x.mainStack) (hsound : y.system.Sound)
    (hheap : HeapClient.Holding heap y.heap)
    (hreg : x.system.shared.client.kmem.Region y.system.shared.client.kmem)
    (hsub : ∀ t ∈ y.kernel.tcbs, t ∈ x.kernel.tcbs ∧
      (y.kernel.tcb t).stack = (x.kernel.tcb t).stack ∧
      ∀ p, (x.kernel.tcb t).stack = some p → x.Owned p → y.Owned p) : y.Placed heap := by
  refine ⟨hsound, hheap, ?_, ?_, ?_, ?_, fun t ht p hp => ?_, fun t ht u hu he => ?_⟩
  · rw [hreg.start]
    exact h.behind
  · rw [hmain]
    exact h.mainEnd
  · unfold Kmem.region
    rw [hmain, hreg.start]
    exact h.mainSlabs
  · rw [hmain]
    exact h.mainHeap
  · obtain ⟨hx, hs, hown⟩ := hsub t ht
    rw [hs] at hp
    exact hown p hp (h.owned t hx p hp)
  · obtain ⟨hx, hs, -⟩ := hsub t ht
    obtain ⟨hx', hs', -⟩ := hsub u hu
    exact h.distinct t hx u hx' (hs.symm.trans (he.trans hs'))

/-- A new thread has a stack that no other thread has. -/
theorem Placed.create (h : x.Placed heap) (hmain : y.mainStack = x.mainStack)
    (hsound : y.system.Sound) (hheap : HeapClient.Holding heap y.heap)
    (hreg : x.system.shared.client.kmem.Region y.system.shared.client.kmem)
    (hown : ∀ p, x.Owned p → y.Owned p) (htcbs : y.kernel.tcbs = t :: x.kernel.tcbs)
    (ht : t ∉ x.kernel.tcbs) (hstack : (y.kernel.tcb t).stack = some p) (hp : x.Owned p)
    (hunused : x.Unused none p)
    (hother : ∀ u, u ≠ t → (y.kernel.tcb u).stack = (x.kernel.tcb u).stack) : y.Placed heap := by
  have hne : ∀ u ∈ x.kernel.tcbs, u ≠ t := fun u hu he => ht (he ▸ hu)
  refine ⟨hsound, hheap, ?_, ?_, ?_, ?_, fun u hu q hq => ?_, fun u hu v hv he => ?_⟩
  · rw [hreg.start]
    exact h.behind
  · rw [hmain]
    exact h.mainEnd
  · unfold Kmem.region
    rw [hmain, hreg.start]
    exact h.mainSlabs
  · rw [hmain]
    exact h.mainHeap
  · rw [htcbs] at hu
    cases hu with
    | head =>
      rw [hstack, Option.some.injEq] at hq
      exact hq ▸ hown p hp
    | tail _ hu =>
      rw [hother u (hne u hu)] at hq
      exact hown q (h.owned u hu q hq)
  · rw [htcbs] at hu hv
    have hnew : ∀ u ∈ x.kernel.tcbs, (y.kernel.tcb t).stack ≠ (y.kernel.tcb u).stack := by
      intro u hu he
      rw [hstack, hother u (hne u hu)] at he
      exact hunused u hu nofun he.symm
    cases hu with
    | head =>
      cases hv with
      | head => rfl
      | tail _ hv => exact absurd he (hnew v hv)
    | tail _ hu =>
      cases hv with
      | head => exact absurd he.symm (hnew u hu)
      | tail _ hv =>
        rw [hother u (hne u hu), hother v (hne v hv)] at he
        exact h.distinct u hu v hv he

/-! ## The invariant -/

/-- The parts agree: the threads of the hart are those of the kernel, it runs the one that the kernel
says, and their frames are on their stacks. -/
structure Sound (heap : HeapBounds) (x : Computer) : Prop where
  placed : x.Placed heap
  running : ∃ t ∈ x.kernel.tcbs, x.kernel.running = some t ∧ x.hart.running = word t
  threads : ∀ w, w ∈ x.hart.threads ↔ ∃ t ∈ x.kernel.tcbs, w = word t
  stacked : x.hart.Stacked x.stack
  implements : ∃ v, Implements x.hart v

namespace Sound

theorem live (h : x.Sound heap) : x.hart.running ∈ x.hart.threads := by
  obtain ⟨v, hi⟩ := h.implements
  exact hi.live

theorem layout (h : x.Sound heap) : Layout x.hart.threads x.stack :=
  h.placed.layout fun w hw => (h.threads w).1 hw

theorem tcbs_nodup (h : x.Sound heap) : x.kernel.tcbs.Nodup := h.placed.system.owns.nodup .tcb

/-- The hart's events are admitted: frames find room on the running thread's own stack. -/
theorem okHart (h : x.Sound heap) (hok : x.OkHart e) : x.hart.Ok e := by
  cases e with
  | trap => exact h.stacked.room h.layout h.live hok
  | push => exact h.stacked.room h.layout h.live hok
  | contextSwitch | create | destroy => cases hok
  | _ => exact hok

/-- The hart between kernel entries. -/
theorem hart {hart : Hart} (h : x.Sound heap) (hok : x.OkHart e) (hs : x.hart.step e = some hart) :
    Sound heap { x with hart } := by
  have hkeep : hart.running = x.hart.running ∧ hart.threads = x.hart.threads := by
    cases e with
    | contextSwitch | create | destroy => cases hok
    | trapEnd | pop =>
      unfold Hart.step at hs
      dsimp only at hs
      split at hs
      · obtain rfl := Option.some.inj hs
        exact ⟨rfl, rfl⟩
      · cases hs
    | _ =>
      obtain rfl := Option.some.inj hs
      exact ⟨rfl, rfl⟩
  obtain ⟨hrun, hthreads⟩ := hkeep
  obtain ⟨v, hi⟩ := h.implements
  obtain ⟨v', -, hi'⟩ := hi.step (h.okHart hok) hs
  refine ⟨{ h.placed with }, hrun ▸ h.running, hthreads ▸ h.threads, ?_, v', hi'⟩
  refine h.stacked.step h.live (fun hfit => ?_) hs
  rcases hfit with ⟨scause, rfl⟩ | rfl <;> exact hok

/-- The hart stays, and so do the threads. -/
theorem of_placed (h : x.Sound heap) (hhart : y.hart = x.hart) (hmain : y.mainStack = x.mainStack)
    (hkernel : y.kernel = x.kernel) (hp : y.Placed heap) : y.Sound heap := by
  have hstack : y.stack = x.stack := funext fun w => stackOf_congr hmain (by rw [hkernel])
  refine ⟨hp, ?_, ?_, ?_, ?_⟩
  · rw [hhart, hkernel]
    exact h.running
  · rw [hhart, hkernel]
    exact h.threads
  · rw [hhart, hstack]
    exact h.stacked
  · rw [hhart]
    exact h.implements

/-! ## Entries -/

/-- An entry that makes no thread and ends none: at most a context switch. -/
theorem effect_kept {q : Ptr} (x : Computer) (k' : Kernel) (howns : ∀ t, ¬ (r.entry q).Owns t) :
    x.releases r = [] ∧ x.effect q k' r =
      if x.kernel.Switches (r.entry q) then k'.running.map fun t => .contextSwitch (word t)
      else none := by
  cases r with
  | createThread f arg stack n start =>
    cases q with
    | none => exact ⟨rfl, rfl⟩
    | some t => exact absurd rfl (howns t)
  | threadDestroy t => exact absurd rfl (howns t)
  | _ => exact ⟨rfl, rfl⟩

/-- The hart after an entry that makes no thread and ends none. -/
theorem enter_kept {hart : Hart} {q : Ptr} (h : x.Sound heap) (hp : y.Placed heap)
    (hmain : y.mainStack = x.mainStack) (hhart : y.hart = hart)
    (htcbs : y.kernel.tcbs = x.kernel.tcbs)
    (hstack : ∀ t, (y.kernel.tcb t).stack = (x.kernel.tcb t).stack)
    (hlive : ∃ t, y.kernel.running = some t ∧ t ∈ y.kernel.tcbs)
    (hrun : ¬ x.kernel.Switches (r.entry q) → y.kernel.running = x.kernel.running)
    (he : (if x.kernel.Switches (r.entry q) then y.kernel.running.map fun t =>
      HartEvent.contextSwitch (word t) else none).toList.foldlM Hart.step x.hart = some hart) :
    y.Sound heap ∧ ∃ es, es.length ≤ 1 ∧ Run Hart.Ok Hart.step x.hart es hart := by
  have hstacks : y.stack = x.stack := funext fun w => stackOf_congr hmain (hstack _)
  have hthreads : ∀ w, w ∈ x.hart.threads ↔ ∃ t ∈ y.kernel.tcbs, w = word t := by
    rw [htcbs]
    exact h.threads
  split at he
  · obtain ⟨t, ht, hmem⟩ := hlive
    rw [ht, Option.map_some, Option.toList_some, List.foldlM_cons] at he
    have hok : x.hart.Ok (.contextSwitch (word t)) := (hthreads _).2 ⟨t, hmem, rfl⟩
    have hs : x.hart.step (.contextSwitch (word t)) = some hart := by
      obtain ⟨h₁, hs, he⟩ := Option.bind_eq_some_iff.1 he
      exact hs.trans he
    obtain ⟨v, hi⟩ := h.implements
    obtain ⟨v', -, hi'⟩ := hi.step hok hs
    have hstacked := h.stacked.step h.live (fun hfit => by simp at hfit) hs
    refine ⟨⟨hp, ?_, ?_, ?_, v', hhart ▸ hi'⟩, _, le_rfl, .cons hok hs .nil⟩
    · rw [hhart]
      obtain rfl := Option.some.inj hs
      exact ⟨t, hmem, ht, rfl⟩
    · rw [hhart]
      obtain rfl := Option.some.inj hs
      exact hthreads
    · rw [hhart, hstacks]
      exact hstacked
  · rename_i hn
    obtain rfl := Option.some.inj he
    refine ⟨⟨hp, ?_, ?_, ?_, ?_⟩, [], Nat.zero_le 1, .nil⟩
    · rw [hhart, hrun hn, htcbs]
      exact h.running
    · rw [hhart]
      exact hthreads
    · rw [hhart, hstacks]
      exact h.stacked
    · rw [hhart]
      exact h.implements

/-- The hart after the creation of a thread. -/
theorem enter_created {hart : Hart} {a b : Word} (h : x.Sound heap) (hp : y.Placed heap)
    (hmain : y.mainStack = x.mainStack) (hhart : y.hart = hart)
    (htcbs : y.kernel.tcbs = t :: x.kernel.tcbs) (ht : t ∉ x.kernel.tcbs)
    (hstack : ∀ u, u ≠ t → (y.kernel.tcb u).stack = (x.kernel.tcb u).stack)
    (hrun : y.kernel.running = x.kernel.running)
    (hs : x.hart.step (.create (word t) a b) = some hart) :
    y.Sound heap ∧ x.hart.Ok (.create (word t) a b) := by
  have hmem : t ∈ y.kernel.tcbs := htcbs ▸ .head _
  have hold : ∀ u ∈ x.kernel.tcbs, u < 2 ^ 64 ∧ u ≠ t := fun u hu =>
    ⟨h.placed.lt hu, fun he => ht (he ▸ hu)⟩
  have hnew : word t ∉ x.hart.threads := fun hw => by
    obtain ⟨u, hu, he⟩ := (h.threads _).1 hw
    exact (hold u hu).2 (word_inj (hp.lt hmem) (hold u hu).1 he).symm
  have hthreads : ∀ w, w ∈ word t :: x.hart.threads ↔ ∃ t ∈ y.kernel.tcbs, w = word t := fun w => by
    rw [htcbs, List.exists_mem_cons_iff, List.mem_cons, h.threads w]
  have hstacks : ∀ w ∈ x.hart.threads, y.stack w = x.stack w := fun w hw => by
    obtain ⟨u, hu, rfl⟩ := (h.threads w).1 hw
    rw [stack_word (hold u hu).1, stack_word (hold u hu).1]
    exact stackOf_congr hmain (hstack u (hold u hu).2)
  have hold' := h.stacked.congr hstacks
  have hok : x.hart.Ok (.create (word t) a b) :=
    hold'.create_ok (hp.layout fun w hw => (hthreads w).1 hw) hnew a b
  obtain ⟨v, hi⟩ := h.implements
  obtain ⟨v', -, hi'⟩ := hi.step hok hs
  have hstacked := hold'.step h.live (fun hfit => by simp at hfit) hs
  subst hhart
  obtain hhart := Option.some.inj hs
  refine ⟨⟨hp, ?_, ?_, hstacked, v', hi'⟩, hok⟩
  · rw [hrun, htcbs, ← hhart]
    obtain ⟨u, hu, hrunning⟩ := h.running
    exact ⟨u, .tail _ hu, hrunning⟩
  · rw [← hhart]
    exact hthreads

/-- The hart after the destruction of a thread. -/
theorem enter_destroyed {hart : Hart} (h : x.Sound heap) (hp : y.Placed heap)
    (hmain : y.mainStack = x.mainStack) (hhart : y.hart = hart)
    (htcbs : y.kernel.tcbs = x.kernel.tcbs.erase t) (ht : t ∈ x.kernel.tcbs)
    (haway : x.kernel.running ≠ some t)
    (hstack : ∀ u, u ≠ t → (y.kernel.tcb u).stack = (x.kernel.tcb u).stack)
    (hrun : y.kernel.running = x.kernel.running)
    (hs : x.hart.step (.destroy (word t)) = some hart) :
    y.Sound heap ∧ x.hart.Ok (.destroy (word t)) := by
  have hnd := h.tcbs_nodup
  obtain ⟨u, hu, hku, hwu⟩ := h.running
  have hut : u ≠ t := fun he => haway (he ▸ hku)
  have hok : x.hart.Ok (.destroy (word t)) := fun he =>
    hut (word_inj (h.placed.lt hu) (h.placed.lt ht) (hwu.symm.trans he.symm))
  obtain ⟨v, hi⟩ := h.implements
  obtain ⟨v', -, hi'⟩ := hi.step hok hs
  have hthreads : ∀ w, w ∈ x.hart.threads.erase (word t) ↔ ∃ t ∈ y.kernel.tcbs, w = word t :=
    fun w => by
      rw [hi.nodup.mem_erase_iff, h.threads w, htcbs]
      constructor
      · rintro ⟨hne, u, hu, rfl⟩
        exact ⟨u, (hnd.mem_erase_iff).2 ⟨fun he => hne (he ▸ rfl), hu⟩, rfl⟩
      · rintro ⟨u, hu, rfl⟩
        obtain ⟨hne, hu⟩ := hnd.mem_erase_iff.1 hu
        exact ⟨fun he => hne (word_inj (h.placed.lt hu) (h.placed.lt ht) he), u, hu, rfl⟩
  have hstacked := h.stacked.step h.live (fun hfit => by simp at hfit) hs
  subst hhart
  obtain hhart := Option.some.inj hs
  refine ⟨⟨hp, ?_, ?_, hstacked.congr fun w hw => ?_, v', hi'⟩, hok⟩
  · rw [hrun, htcbs, ← hhart]
    exact ⟨u, hnd.mem_erase_iff.2 ⟨hut, hu⟩, hku, hwu⟩
  · rw [← hhart]
    exact hthreads
  · rw [← hhart] at hw
    obtain ⟨u, hu, rfl⟩ := (hthreads w).1 hw
    rw [htcbs, hnd.mem_erase_iff] at hu
    rw [stack_word (h.placed.lt hu.2), stack_word (h.placed.lt hu.2)]
    exact stackOf_congr hmain (hstack u hu.1)

/-- **An entry keeps the parts together.** It is one of the system, and the hart has at most one event. -/
theorem enter (h : x.Sound heap) (hok : x.kernel.Admits r) (hst : x.OkStack r)
    (hx : x.enter r = some x') : x'.Sound heap ∧ x.system.enter r = some x'.system ∧
      (∃ es, es.length ≤ 1 ∧ Run Hart.Ok Hart.step x.hart es x'.hart) ∧
      ∃ cs, Run HeapClient.OkAny HeapClient.step x.heap cs x'.heap := by
  obtain ⟨⟨q, x₁⟩, hgive, hx⟩ := Option.bind_eq_some_iff.1 hx
  obtain ⟨heap', hheap, hx⟩ := Option.bind_eq_some_iff.1 hx
  obtain ⟨system, hsys, hx⟩ := Option.bind_eq_some_iff.1 hx
  obtain ⟨hart, hhart, hx⟩ := Option.bind_eq_some_iff.1 hx
  obtain rfl := Option.some.inj hx
  obtain ⟨-, -, -, ⟨ops, hops⟩, hsound⟩ := h.placed.system.enter hok hsys
  have hreg := SharedClient.run_region hops
  have hbuf := (System.enter_kernel hgive hsys).2
  have hre := h.placed.system.rethreads hok hgive hsys
  cases hre with
  | kept howns htcbs hstack hlive hrun =>
    obtain ⟨hrel, heff⟩ := effect_kept x system.kernel howns
    rw [hrel] at hheap
    rw [heff] at hhart
    obtain rfl := Option.some.inj hheap
    have hp : Placed heap { x with hart, system } :=
      h.placed.sub rfl hsound h.placed.holding hreg fun t ht =>
        ⟨htcbs ▸ ht, hstack t, fun p _ ho => ho.imp_right fun hp => hbuf ▸ hp⟩
    obtain ⟨hs, hes⟩ := h.enter_kept hp rfl rfl htcbs hstack hlive hrun hhart
    exact ⟨hs, hsys, hes, [], .nil⟩
  | @created f arg stack n start t hfn hnew htcbs hrun hown hother =>
    obtain ⟨p, rfl, hlive, hunused⟩ := hst
    obtain rfl := Option.some.inj hheap
    have heff : x.effect (some t) system.kernel (.createThread f arg (some p) n start) =
        some (.create (word t) (word x.wrapper) (word (p + stackSize))) :=
      congrArg some (if_pos (Option.isSome_iff_ne_none.2 hfn))
    rw [heff] at hhart
    have hs : x.hart.step (.create (word t) (word x.wrapper) (word (p + stackSize))) = some hart := by
      simpa using hhart
    have hp : Placed heap { x with hart, system } :=
      h.placed.create rfl hsound h.placed.holding hreg
        (fun p ho => ho.imp_right fun hp => hbuf ▸ hp) htcbs hnew hown (.inl hlive) hunused hother
    obtain ⟨hsound', hcreate⟩ := h.enter_created hp rfl rfl htcbs hnew hother hrun hs
    exact ⟨hsound', hsys, ⟨_, le_rfl, .cons hcreate hs .nil⟩, [], .nil⟩
  | @destroyed t _ haway htcbs hrun hother =>
    obtain ⟨-, hnd, hfree⟩ := hst
    obtain ⟨s, he, hholding, hfrees, hlive⟩ := h.placed.holding.frees hnd fun p hp => (hfree p hp).1
    obtain rfl := Option.some.inj (hheap.symm.trans he)
    have hs : x.hart.step (.destroy (word t)) = some hart := by
      simpa [effect] using hhart
    have hp : Placed heap { x with hart, system, heap := heap' } := by
      refine h.placed.sub rfl hsound hholding hreg fun u hu => ?_
      rw [htcbs, h.tcbs_nodup.mem_erase_iff] at hu
      obtain ⟨hut, hu⟩ := hu
      refine ⟨hu, hother u hut, fun p hp ho => ?_⟩
      cases ho with
      | inl ho =>
        have hkept : p ∉ x.releases (.threadDestroy t) := fun hrel =>
          (hfree p hrel).2 u hu (fun he => hut (Option.some.inj he)) hp
        exact .inl ((hlive _).2 ⟨ho, hkept⟩)
      | inr ho => exact .inr (hbuf ▸ ho)
    obtain ⟨hsound', hdestroy⟩ := h.enter_destroyed hp rfl rfl htcbs hok.2.1 haway hother hrun hs
    exact ⟨hsound', hsys, ⟨_, le_rfl, .cons hdestroy hs .nil⟩, _, hfrees⟩

/-- What an entry does to the contexts is done. -/
theorem effect_step {k' : Kernel} {q : Ptr} (he : x.effect q k' r = some e) (h : Hart) :
    ∃ h', h.step e = some h' := by
  cases r with
  | createThread f arg stack n start =>
    obtain ⟨t, -, rfl⟩ := Option.map_eq_some_iff.1 he
    split <;> exact ⟨_, rfl⟩
  | threadDestroy t =>
    obtain rfl := Option.some.inj he
    exact ⟨_, rfl⟩
  | _ =>
    unfold effect at he
    obtain ⟨-, he⟩ := Option.ite_none_right_eq_some.1 he
    obtain ⟨t, -, rfl⟩ := Option.map_eq_some_iff.1 he
    exact ⟨_, rfl⟩

/-- The hart and the heap keep no entry from returning. -/
theorem entered {system : System} (h : x.Sound heap) (hok : x.kernel.Admits r) (hst : x.OkStack r)
    (hs : x.system.enter r = some system) :
    ∃ x', x.enter r = some x' ∧ x'.Sound heap ∧ x'.system = system := by
  obtain ⟨⟨q, x₁⟩, hgive, -⟩ := Option.bind_eq_some_iff.1 hs
  obtain ⟨heap', hheap⟩ :
      ∃ s, (x.releases r).foldlM (fun s p => s.step (.free p)) x.heap = some s := by
    cases r with
    | threadDestroy t =>
      obtain ⟨-, hnd, hfree⟩ := hst
      obtain ⟨s, he, -⟩ := h.placed.holding.frees hnd fun p hp => (hfree p hp).1
      exact ⟨s, he⟩
    | _ => exact ⟨_, rfl⟩
  obtain ⟨hart, hhart⟩ :
      ∃ h', (x.effect q system.kernel r).toList.foldlM Hart.step x.hart = some h' := by
    cases he : x.effect q system.kernel r with
    | none => exact ⟨_, rfl⟩
    | some e =>
      obtain ⟨h', hs'⟩ := effect_step he x.hart
      exact ⟨h', by simp [hs']⟩
  have hx : x.enter r = some { x with hart, system, heap := heap' } := by
    unfold Computer.enter
    simp only [hgive, hheap, hs, hhart, Option.bind_eq_bind, Option.bind_some]
    rfl
  exact ⟨_, hx, (h.enter hok hst hx).1, rfl⟩

/-! ## Runs -/

theorem step {e : ComputerEvent} (h : x.Sound heap) (hok : x.Ok e) (hx : x.step e = some x') :
    x'.Sound heap ∧ Run System.Ok System.step x.system e.system.toList x'.system ∧
    (∃ es, e.Makes es ∧ Run Hart.Ok Hart.step x.hart es x'.hart) ∧
    ∃ cs, Run HeapClient.OkAny HeapClient.step x.heap cs x'.heap := by
  cases e with
  | hart e =>
    obtain ⟨hart, hs, rfl⟩ := Option.map_eq_some_iff.1 hx
    exact ⟨h.hart hok hs, .nil, ⟨_, rfl, .cons (h.okHart hok) hs .nil⟩, [], .nil⟩
  | entry r =>
    obtain ⟨hadmits, hst⟩ := hok
    obtain ⟨hsound, hs, hes, hcs⟩ := h.enter hadmits hst hx
    have hok : x.system.Ok (.entry r) := hadmits
    exact ⟨hsound, .cons hok hs .nil, hes, hcs⟩
  | other op =>
    obtain ⟨hop, hunused⟩ := hok
    obtain ⟨system, hs, rfl⟩ := Option.map_eq_some_iff.1 hx
    have hstep : x.system.step (.other op) = some system := hs
    obtain ⟨-, -, -, ⟨ops, hops⟩, hsound⟩ := h.placed.system.step hop hstep
    obtain ⟨shared, hcall, rfl⟩ := Option.map_eq_some_iff.1 hs
    have hp := h.placed.sub (y := { x with system := { x.system with shared } }) rfl hsound
      h.placed.holding (SharedClient.run_region hops) fun t ht => ⟨ht, rfl, fun p hp ho =>
        ho.imp_right fun hb => SharedClient.step_buffers hcall hb fun q hq he =>
          hunused q hq t ht nofun (he ▸ hp)⟩
    exact ⟨h.of_placed rfl rfl rfl hp, .cons hop hstep .nil, ⟨[], rfl, .nil⟩, [], .nil⟩
  | heap op =>
    obtain ⟨hop, hunused⟩ := hok
    obtain ⟨heap', hs, rfl⟩ := Option.map_eq_some_iff.1 hx
    have hp := h.placed.sub (y := { x with heap := heap' }) rfl h.placed.system
      (h.placed.holding.step hop hs) .rfl fun t ht => ⟨ht, rfl, fun p hp ho =>
        ho.imp_left fun hl => HeapClient.step_live hs hl fun q hq he =>
          hunused q hq t ht nofun (he ▸ hp)⟩
    exact ⟨h.of_placed rfl rfl rfl hp, .nil, ⟨[], rfl, .nil⟩, _, .cons hop hs .nil⟩

theorem run {es : List ComputerEvent} (h : x.Sound heap) (hrun : Run Ok Computer.step x es x') :
    x'.Sound heap ∧ Run System.Ok System.step x.system (es.filterMap ComputerEvent.system) x'.system ∧
    (∃ hes, List.Forall₂ ComputerEvent.Makes es hes ∧
      Run Hart.Ok Hart.step x.hart hes.flatten x'.hart) ∧
    ∃ cs, Run HeapClient.OkAny HeapClient.step x.heap cs x'.heap := by
  induction hrun with
  | nil => exact ⟨h, .nil, ⟨[], .nil, .nil⟩, [], .nil⟩
  | @cons x x₁ x' e es hok hs _ ih =>
    obtain ⟨h₁, hsystem, ⟨hs, hmakes, hhart⟩, cs, hheap⟩ := h.step hok hs
    obtain ⟨h', hsystem', ⟨hes, hall, hhart'⟩, cs', hheap'⟩ := ih h₁
    refine ⟨h', ?_, ⟨hs :: hes, .cons hmakes hall, hhart.trans hhart'⟩, _, hheap.trans hheap'⟩
    have hcons : (e :: es).filterMap ComputerEvent.system =
        e.system.toList ++ es.filterMap ComputerEvent.system := by
      cases he : e.system <;> simp [he]
    rw [hcons]
    exact hsystem.trans hsystem'

end Sound

end Computer

end SlabKernel
