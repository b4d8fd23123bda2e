import SlabKernel.Threads.Runs

/-!
# Destroying a thread

`THREAD_DESTROY` gives the TCB back to its cache. No list is searched for the thread, and the
constructor that runs on the slot resets `next` and `prev`. So a queued thread stays in its queue,
and in the ready queue it cuts off the threads behind it (`Lists.threadDestroy_cut`). The threads
are left as they should be, `DestroysWell`, only if the thread is in no queue (`threadDestroy_iff`).
-/

namespace SlabKernel

open Function (update update_self update_of_ne)
open PtrList Runs

/-- After `thread_destroy t` no queue refers to `t`, and the other threads are still in their queues,
in the same order. -/
def Kernel.DestroysWell (k : Kernel) (t : Nat) : Prop :=
  ∃ R W S R' W' S', Lists k R W S ∧ Lists (Riscv.threadDestroy k t).2 R' W' S' ∧
    (t ∉ R' ∧ (∀ s ∈ k.sems, t ∉ W' s) ∧ t ∉ S') ∧
    (R.filter (· ≠ t)).Sublist R' ∧ (∀ s ∈ k.sems, ((W s).filter (· ≠ t)).Sublist (W' s)) ∧
    (S.filter (· ≠ t)).Sublist S'

variable {k : Kernel} {s t : Nat} {R R₁ R₂ : List Nat} {W : Nat → List Nat} {S : List Nat}

theorem threadDestroy_next (k : Kernel) (t : Nat) :
    (fun u => ((Riscv.threadDestroy k t).2.tcb u).next) =
      update (fun u => (k.tcb u).next) t none := by
  funext u
  by_cases hu : u = t
  · subst hu
    simp [Riscv.threadDestroy, Kernel.modTcb, TCB.ctor]
  · simp [Riscv.threadDestroy, Kernel.modTcb, hu]

/-- The ready queue ends at the destroyed thread; the other queues still refer to it. -/
theorem Lists.threadDestroy_cut (h : Lists k (R₁ ++ t :: R₂) W S) :
    Lists (Riscv.threadDestroy k t).2 (R₁ ++ [t]) W S := by
  refine ⟨?_, h.waiting, h.sleeping⟩
  rw [threadDestroy_next]
  exact Linked.cut h.ready

theorem Lists.threadDestroy_of_notMem (h : Lists k R W S) (ht : t ∉ R) :
    Lists (Riscv.threadDestroy k t).2 R W S := by
  refine ⟨?_, h.waiting, h.sleeping⟩
  rw [threadDestroy_next]
  exact Seg.update h.ready ht none

theorem Lists.destroysWell (h : Lists k R W S) (ht : k.Free t) : k.DestroysWell t := by
  obtain ⟨R', W', S', hl, hR, hW, hS⟩ := ht
  obtain ⟨rfl, hWW, rfl⟩ := hl.unique h
  refine ⟨_, _, _, _, _, _, hl, hl.threadDestroy_of_notMem hR, ⟨hR, hW, hS⟩, ?_⟩
  exact ⟨List.filter_sublist, fun _ _ => List.filter_sublist, List.filter_sublist⟩

/-- A queued thread is still reached in its queue. -/
theorem Lists.free_of_destroysWell (h : Lists k R W S) (hw : k.DestroysWell t) : k.Free t := by
  obtain ⟨_, _, _, R', W', S', -, hl', ⟨hR, hW, hS⟩, -⟩ := hw
  have hsems : (Riscv.threadDestroy k t).2.sems = k.sems := rfl
  have htR : t ∉ R := by
    intro ht
    obtain ⟨R₁, R₂, rfl⟩ := List.append_of_mem ht
    obtain ⟨he, -⟩ := hl'.unique h.threadDestroy_cut
    exact hR (by rw [he]; simp)
  obtain ⟨-, hWW, hSS⟩ := hl'.unique (h.threadDestroy_of_notMem htR)
  exact ⟨R, W, S, h, htR, fun s hs => hWW s hs ▸ hW s hs, hSS ▸ hS⟩

/-- **Destroying a queued thread breaks its queue.** In every state of a run, the destruction of a
thread leaves the queues of the others as they were, and none refers to it, iff it is in no queue. -/
theorem threadDestroy_iff {e : Boot} {k₀ : Kernel} {es : List Entry} (he : e.Ok)
    (hboot : e.kernel = some k₀) (hrun : Run Kernel.Ok Kernel.step k₀ es k) (t : Nat) :
    k.DestroysWell t ↔ k.Free t := by
  obtain ⟨k₁, hk, h₀⟩ := Boot.represented he
  rw [hboot, Option.some.injEq] at hk
  obtain ⟨A, hr, -⟩ := (hk ▸ h₀).run hrun
  exact ⟨hr.lists.free_of_destroysWell, hr.lists.destroysWell⟩

theorem threadDestroy_iff_boot128 : ∃ k₀ k, boot128.kernel = some k₀ ∧
    Run Kernel.Ok Kernel.step k₀
      [.createThread (some 0x87007000) (some 0x80002000) none (some 0x87008000) 0 false] k ∧
    k.DestroysWell 0x87007000 := by
  obtain ⟨k₀, k, hboot, hrun, hfree⟩ : ∃ k₀ k, boot128.kernel = some k₀ ∧
      Run Kernel.Ok Kernel.step k₀
        [.createThread (some 0x87007000) (some 0x80002000) none (some 0x87008000) 0 false] k ∧
      k.Free 0x87007000 := by
    refine ⟨_, _, rfl, .cons ?_ rfl .nil, ?_⟩
    · exact ⟨by decide, by decide, _, rfl, by decide, by decide, by decide⟩
    · exact .of_ready (R := [0x87000000, 0x87001000, 0x87003000]) ⟨rfl, rfl, rfl, rfl⟩ (by decide)
        rfl (by decide)
  exact ⟨k₀, k, hboot, hrun, (threadDestroy_iff boot128_ok hboot hrun _).2 hfree⟩

/-- The main thread creates two threads and destroys the first. The ready queue still refers to it
and has lost the second. -/
theorem threadDestroy_loses_ready : ∃ k₀ k, boot128.kernel = some k₀ ∧
    Run Kernel.Ok Kernel.step k₀
      [.createThread (some 0x87007000) (some 0x80002000) none (some 0x87008000) 0 true,
        .createThread (some 0x8700a000) (some 0x80002000) none (some 0x8700b000) 0 true] k ∧
    0x87007000 ∈ k.tcbs ∧ k.running ≠ some 0x87007000 ∧ ¬ k.DestroysWell 0x87007000 ∧
    ∃ W S, Lists k [0x87000000, 0x87001000, 0x87003000, 0x87007000, 0x8700a000] W S ∧
      Lists (Riscv.threadDestroy k 0x87007000).2
        [0x87000000, 0x87001000, 0x87003000, 0x87007000] W S := by
  obtain ⟨k₀, k, hboot, hrun, ht, hne, hR⟩ : ∃ k₀ k, boot128.kernel = some k₀ ∧
      Run Kernel.Ok Kernel.step k₀
        [.createThread (some 0x87007000) (some 0x80002000) none (some 0x87008000) 0 true,
          .createThread (some 0x8700a000) (some 0x80002000) none (some 0x8700b000) 0 true] k ∧
      0x87007000 ∈ k.tcbs ∧ k.running ≠ some 0x87007000 ∧
      Linked (fun t => (k.tcb t).next) k.head
        [0x87000000, 0x87001000, 0x87003000, 0x87007000, 0x8700a000] := by
    refine ⟨_, _, rfl, .cons ?_ rfl (.cons ?_ rfl .nil), ?_, ?_, rfl, rfl, rfl, rfl, rfl, rfl⟩
    · exact ⟨by decide, by decide, _, rfl, by decide, by decide, by decide⟩
    · exact ⟨by decide, by decide, _, rfl, by decide, by decide, by decide⟩
    · decide
    · decide
  obtain ⟨k₁, hk, h₀⟩ := Boot.represented boot128_ok
  rw [hboot, Option.some.injEq] at hk
  obtain ⟨A, hr, -⟩ := (hk ▸ h₀).run hrun
  have hl := hr.lists
  obtain he := Linked.unique hl.ready hR
  rw [he] at hl
  refine ⟨k₀, k, hboot, hrun, ht, hne, fun hw => ?_, _, _, hl,
    Lists.threadDestroy_cut
      (show Lists k ([0x87000000, 0x87001000, 0x87003000] ++ _ :: _) _ _ from hl)⟩
  obtain ⟨R, W, S, hl', hnot, -⟩ := hl.free_of_destroysWell hw
  rw [(hl'.unique hl).1] at hnot
  exact hnot (by decide)

end SlabKernel
