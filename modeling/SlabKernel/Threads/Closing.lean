import SlabKernel.Threads.Runs

/-!
# Closing a semaphore

`semDtor` makes every waiting thread ready, in order (`semDestroy_lists`), but it leaves the
`blocked` flag set, which `KernelSem::remove` clears. The flag keeps `TCB::dispatch` from putting the
thread back: the thread is lost when it next gives up the processor. So a semaphore is closed as it
should be, `ClosesWell`, only if no thread waits on it (`semClose_iff`).
-/

namespace SlabKernel

open Function (update update_of_ne)
open PtrList Runs

/-! ## The purpose -/

/-- The entry takes the thread `t` off the processor by its own will. -/
def Kernel.Leaves (k : Kernel) (t : Nat) : Entry → Prop
  | .wait _ _ => k.running = some t
  | .sleep _ _ => k.running = some t
  | .exit => k.running = some t
  | _ => False

/-- In every continuation in which `t` does not itself wait, sleep or exit, `t` stays on the
processor or is put back in the ready queue each time it dispatches or a timer tick comes. -/
def Kernel.Requeued (k : Kernel) (t : Nat) : Prop :=
  ∀ es k' e k'', Run (fun k e => k.Ok e ∧ ¬ k.Leaves t e) Kernel.step k es k' →
    k'.running = some t → e = .dispatch ∨ e = .timer → k'.step e = some k'' →
    k''.running = some t ∨ ∃ R W S, Lists k'' R W S ∧ t ∈ R

/-- The closing of `s` returns, and every thread that waited on `s` is in the ready queue once, in
the order of waiting, as an ordinary runnable thread. -/
def Kernel.ClosesWell (k : Kernel) (s : Nat) : Prop :=
  ∃ k', Riscv.semDestroy k s = some k' ∧ ∃ R W S W', Lists k R W S ∧ Lists k' (R ++ W s) W' S ∧
    ∀ t ∈ W s, (R ++ W s).count t = 1 ∧ (k'.tcb t).blocked = false ∧ (k'.tcb t).holder = none ∧
      k'.Requeued t

/-! ## The code -/

variable {k k' : Kernel} {A : Sys} {s t : Nat}

/-- The closing moves the waiting threads to the ready queue; their `blocked` flags stay set. -/
theorem semDestroy_lists (h : Represented k) (hs : s ∈ k.sems) :
    ∃ k' R W S, Riscv.semDestroy k s = some k' ∧ Lists k R W S ∧
      Lists k' (R ++ W s) (update W s []) S ∧ (R ++ W s).Nodup ∧
      ∀ t ∈ W s, (k'.tcb t).blocked = true ∧ (k'.tcb t).holder = none := by
  obtain ⟨A, hr, u, -, hinv⟩ := h
  have hs' := hs
  rw [hr.sems] at hs'
  have hlen : (A.waiting s).length ≤ addrSpace :=
    Nat.le_trans (hinv.waiting_length hs') (Nat.pow_le_pow_right (by decide) (by decide))
  have hnd := hinv.ready_waiting_nodup hs'
  obtain ⟨k', he, hr'⟩ := semDestroy_rep hr hs' hinv.sems hnd hlen
  have hl := hr'.lists
  have htcb := hr'.tcb
  unfold Sys.semClose at hl htcb
  rw [Sys.release_foldl] at hl htcb
  refine ⟨k', _, _, _, he, hr.lists, hl, hnd, fun t ht => ?_⟩
  have ht' := htcb t
  simp only [if_pos ht] at ht'
  constructor
  · calc (k'.tcb t).blocked = (k'.tcb t).unlinked.blocked := rfl
      _ = (A.tcb t).blocked := by rw [ht']
      _ = true := (hinv.waiting s hs' t ht).1
  · calc (k'.tcb t).holder = (k'.tcb t).unlinked.holder := rfl
      _ = none := by rw [ht']

theorem Lists.waiting_nil {R : List Nat} {W : Nat → List Nat} {S : List Nat} (h : Lists k R W S)
    (hs : s ∈ k.sems) : W s = [] ↔ (k.sem s).head = none := by
  obtain ⟨N, hN, hmap⟩ := h.waiting s hs
  rw [hN.none_iff, ← hmap, List.map_eq_nil_iff]

theorem closesWell_iff (h : Represented k) (hs : s ∈ k.sems) :
    k.ClosesWell s ↔ (k.sem s).head = none := by
  obtain ⟨k', R, W, S, he, hl, hl', hnd, hflag⟩ := semDestroy_lists h hs
  rw [← hl.waiting_nil hs]
  constructor
  · intro hx
    obtain ⟨k'', he', R₁, W₁, S₁, W', hl₁, -, hwell⟩ := hx
    rw [he, Option.some.injEq] at he'
    subst he'
    have hW : W s = W₁ s := (hl.unique hl₁).2.1 s hs
    refine List.eq_nil_iff_forall_not_mem.2 fun t ht => ?_
    have h1 := (hflag t ht).1
    rw [(hwell t (hW ▸ ht)).2.1] at h1
    cases h1
  · intro hnil
    refine ⟨k', he, R, W, S, _, hl, hl', fun t ht => ?_⟩
    rw [hnil] at ht
    exact absurd ht List.not_mem_nil

/-- **Closing loses the waiting threads.** In every state of a run, the closing of a semaphore leaves
its waiting threads as ordinary ready threads iff its queue is empty. -/
theorem semClose_iff {e : Boot} {k₀ : Kernel} {es : List Entry} (he : e.Ok)
    (hboot : e.kernel = some k₀) (hrun : Run Kernel.Ok Kernel.step k₀ es k) (hs : s ∈ k.sems) :
    k.ClosesWell s ↔ (k.sem s).head = none := by
  obtain ⟨k₀', hk, h₀⟩ := Boot.represented he
  rw [hboot, Option.some.injEq] at hk
  exact closesWell_iff ((hk ▸ h₀).run hrun) hs

theorem semClose_iff_boot128 : ∃ k₀ k, boot128.kernel = some k₀ ∧
    Run Kernel.Ok Kernel.step k₀ [.semOpen (some 7) 0] k ∧ k.ClosesWell 7 := by
  obtain ⟨k₀, k, hboot, hrun, hs, hhead⟩ : ∃ k₀ k, boot128.kernel = some k₀ ∧
      Run Kernel.Ok Kernel.step k₀ [.semOpen (some 7) 0] k ∧ 7 ∈ k.sems ∧
      (k.sem 7).head = none := by
    refine ⟨_, _, rfl, .cons ?_ rfl .nil, ?_, rfl⟩
    · exact ⟨by decide, by decide, _, rfl, by decide⟩
    · decide
  exact ⟨k₀, k, hboot, hrun, (semClose_iff boot128_ok hboot hrun hs).2 hhead⟩

/-- The main thread waits on a new semaphore, and another thread closes it. When the main thread
then dispatches, it is in no queue, though it has not finished. -/
theorem semClose_loses_main : ∃ k₀ k k', boot128.kernel = some k₀ ∧
    Run Kernel.Ok Kernel.step k₀ [.semOpen (some 7) 0, .wait 7 (some 0x87009000)] k ∧
    7 ∈ k.sems ∧ ¬ k.ClosesWell 7 ∧
    Run Kernel.Ok Kernel.step k [.semClose 7, .dispatch, .dispatch, .dispatch, .dispatch] k' ∧
    (k'.tcb 0x87002000).finished = false ∧ k'.running ≠ some 0x87002000 ∧ k'.Free 0x87002000 := by
  obtain ⟨k₀, k, k', hboot, hrun, hs, hhead, hrun', h⟩ : ∃ k₀ k k', boot128.kernel = some k₀ ∧
      Run Kernel.Ok Kernel.step k₀ [.semOpen (some 7) 0, .wait 7 (some 0x87009000)] k ∧
      7 ∈ k.sems ∧ (k.sem 7).head ≠ none ∧
      Run Kernel.Ok Kernel.step k [.semClose 7, .dispatch, .dispatch, .dispatch, .dispatch] k' ∧
      (k'.tcb 0x87002000).finished = false ∧ k'.running ≠ some 0x87002000 ∧
      k'.Free 0x87002000 := by
    refine ⟨_, _, _, rfl, .cons ?_ rfl (.cons ?_ rfl .nil), ?_, ?_, .cons ?_ rfl (.cons trivial rfl
      (.cons trivial rfl (.cons trivial rfl (.cons trivial rfl .nil)))), ?_, ?_, ?_⟩
    · exact ⟨by decide, by decide, _, rfl, by decide⟩
    · exact ⟨by decide, by decide, _, rfl, by decide⟩
    · decide
    · decide
    · exact ⟨by decide, by decide⟩
    · decide
    · decide
    · exact .of_ready (R := [0x87001000, 0x87003000]) ⟨rfl, rfl, rfl⟩ (by decide) rfl (by decide)
  obtain ⟨k₁, hk, h₀⟩ := Boot.represented boot128_ok
  rw [hboot, Option.some.injEq] at hk
  exact ⟨k₀, k, k', hboot, hrun, hs, fun hw => hhead ((closesWell_iff ((hk ▸ h₀).run hrun) hs).1 hw),
    hrun', h⟩

end SlabKernel
