import SlabKernel.Threads.Counting

/-!
# What `wait` reports

`KernelSem::wait` decodes its result from the caller's `holder` and `close`. The closing of a
semaphore sets `close`, and nothing resets it: after one release by a close, every later call of
the thread reports a close. `Reported` runs the kernel and keeps, for each thread, its last call of
`wait` and how the call ended. The result is right iff the flag was clear at the call or the call
ended by a close (`wait_reports_iff`).
-/

namespace SlabKernel

open Function (update update_self update_of_ne)
open PtrList Runs

/-! ## The record of a run -/

/-- How far a call of `wait` has come. -/
inductive Fate
  | blocked
  | acquired
  | closed
  deriving DecidableEq

/-- A call of `wait`; `flagged` says that the caller's `close` was set before. -/
structure Call where
  sem : Nat
  fate : Fate
  flagged : Bool
  deriving DecidableEq

namespace Call

/-- A signal releases the caller. -/
def acquire (x : Call) : Call := { x with fate := .acquired }

/-- The closing of `s` releases a caller that is blocked on `s`. -/
def semClose (s : Nat) (x : Call) : Call :=
  if x.sem = s ∧ x.fate = .blocked then { x with fate := .closed } else x

end Call

/-- The kernel and the last call of `wait` of each thread. -/
structure Reported where
  kernel : Kernel
  calls : Nat → Option Call

namespace Reported

/-- The record after the entry, which leads to `k'`. A caller of `wait` that keeps the processor has
acquired the semaphore; a signal lets the thread acquire it that it takes off the queue. -/
def record (c : Reported) (k' : Kernel) (e : Entry) : Reported :=
  match e, c.kernel.running with
  | .wait s _, some t => ⟨k', update c.calls t (some
      { sem := s
        fate := if k'.running = some t then .acquired else .blocked
        flagged := (c.kernel.tcb t).close = 1 })⟩
  | .signal s, _ => ⟨k', fun t =>
      if t ∈ Counted.released c.kernel s then (c.calls t).map .acquire else c.calls t⟩
  | .semClose s, _ => ⟨k', fun t => (c.calls t).map (.semClose s)⟩
  | .threadDestroy t, _ => ⟨k', update c.calls t none⟩
  | _, _ => { c with kernel := k' }

def step (c : Reported) (e : Entry) : Option Reported :=
  (c.kernel.step e).map fun k' => c.record k' e

def Ok (c : Reported) (e : Entry) : Prop := c.kernel.Ok e

/-- What the call `x` of `t` returns is right: -1 iff the caller was released by the closing of the
semaphore, and 0 iff it has acquired it. -/
def Right (c : Reported) (t : Nat) (x : Call) : Prop :=
  (KernelSem.waitResult c.kernel t = -1 ↔ x.fate = .closed) ∧
    (KernelSem.waitResult c.kernel t = 0 ↔ x.fate = .acquired)

end Reported

/-! ## Frames -/

namespace Sys

/-- What `wait` decodes, and the queues. -/
def decoded (A : Sys) : List Nat × (Nat → List Nat) × (Nat → Ptr × Int) :=
  (A.sems, A.waiting, fun t => ((A.tcb t).holder, (A.tcb t).close))

variable {A A' : Sys}

theorem decoded_of_marks (h : A'.marks = A.marks) : A'.decoded = A.decoded := by
  simp only [marks, semState, Prod.mk.injEq] at h
  obtain ⟨⟨h1, -, h2⟩, h3⟩ := h
  unfold decoded
  rw [h1, h2, h3]

end Sys

/-! ## The invariant -/

variable {c c' : Reported} {A A' : Sys} {k' : Kernel} {s t : Nat} {x : Call}

namespace Reported

/-- The call of `t` ends with the flag set, or it began so. -/
def Flags (c : Reported) (t : Nat) : Prop :=
  ∃ x, c.calls t = some x ∧ (x.flagged = true ∨ x.fate = .closed)

/-- The threads in the queues are the callers that are blocked; `holder` is set for no other thread;
`close` is set iff the record says so. -/
structure Inv (c : Reported) (A : Sys) : Prop where
  rep : Rep c.kernel A
  stable : A.Stable
  holder : ∀ t, (∀ s ∈ A.sems, t ∉ A.waiting s) → (A.tcb t).holder = none
  blocked : ∀ t s, s ∈ A.sems ∧ t ∈ A.waiting s ↔
    ∃ x, c.calls t = some x ∧ x.sem = s ∧ x.fate = .blocked
  close : ∀ t, (A.tcb t).close = 1 ↔ c.Flags t

theorem Inv.frame (h : Inv c A) (hr : Rep k' A') (hst : A'.Stable)
    (hd : A'.decoded = A.decoded) : Inv { c with kernel := k' } A' := by
  simp only [Sys.decoded, Prod.mk.injEq] at hd
  obtain ⟨h1, h2, h3⟩ := hd
  have hh : ∀ t, (A'.tcb t).holder = (A.tcb t).holder ∧ (A'.tcb t).close = (A.tcb t).close :=
    fun t => Prod.mk.inj (congrFun h3 t)
  refine ⟨hr, hst, fun t ht => ?_, ?_, fun t => ?_⟩
  · rw [h1, h2] at ht
    rw [(hh t).1]
    exact h.holder t ht
  · rw [h1, h2]
    exact h.blocked
  · rw [(hh t).2]
    exact h.close t

theorem Inv.semOpen {init : Nat} (h : Inv c A) (hs : s ∉ A.sems)
    (hr : Rep k' (A.createSem s init)) (hst : (A.createSem s init).Stable) :
    Inv (c.record k' (.semOpen (some s) init)) (A.createSem s init) := by
  refine ⟨hr, hst, fun t ht => ?_, fun t s' => ?_, h.close⟩
  · refine h.holder t fun s' hs' hm => ?_
    have hne : s' ≠ s := fun he => hs (he ▸ hs')
    apply ht s' (.tail _ hs')
    simpa only [Sys.createSem, update_of_ne hne] using hm
  · refine Iff.trans ?_ (h.blocked t s')
    by_cases hne : s' = s
    · subst hne
      simp [Sys.createSem, hs]
    · simp [Sys.createSem, hne]

/-- A new call of `t`, which joins the queue iff it is blocked. -/
theorem Inv.newCall (h : Inv c A) (hr : Rep k' A') (hst : A'.Stable) (hs : x.sem ∈ A.sems)
    (hfree : ∀ s ∈ A.sems, t ∉ A.waiting s) (hsems : A'.sems = A.sems)
    (hq : ∀ u, ∀ s ∈ A.sems, u ∈ A'.waiting s ↔
      u ∈ A.waiting s ∨ u = t ∧ s = x.sem ∧ x.fate = .blocked)
    (hholder : ∀ u, u ≠ t ∨ x.fate ≠ .blocked → (A'.tcb u).holder = (A.tcb u).holder)
    (hclose : ∀ u, (A'.tcb u).close = (A.tcb u).close) (hx : x.fate ≠ .closed)
    (hflag : (A.tcb t).close = 1 ↔ x.flagged = true) :
    Inv ⟨k', update c.calls t (some x)⟩ A' := by
  refine ⟨hr, hst, fun u hu => ?_, fun u s => ?_, fun u => ?_⟩
  · rw [hsems] at hu
    have hut : u ≠ t ∨ x.fate ≠ .blocked := by
      by_contra hn
      rw [not_or, not_not, not_not] at hn
      exact hu x.sem hs ((hq u x.sem hs).2 (.inr ⟨hn.1, rfl, hn.2⟩))
    rw [hholder u hut]
    exact h.holder u fun s hs hm => hu s hs ((hq u s hs).2 (.inl hm))
  · rw [hsems]
    by_cases hut : u = t
    · subst hut
      simp only [update_self, Option.some.injEq]
      constructor
      · intro ⟨hs, hm⟩
        have hn := ((hq u s hs).1 hm).resolve_left (hfree s hs)
        exact ⟨x, rfl, hn.2.1.symm, hn.2.2⟩
      · intro ⟨y, hy, hys, hyf⟩
        subst hy hys
        exact ⟨hs, (hq u _ hs).2 (.inr ⟨rfl, rfl, hyf⟩)⟩
    · simp only [update_of_ne hut]
      rw [← h.blocked u s]
      refine and_congr_right fun hs => ?_
      rw [hq u s hs]
      simp [hut]
  · rw [hclose]
    unfold Flags
    by_cases hut : u = t
    · subst hut
      simp [hflag, hx]
    · simp only [update_of_ne hut]
      exact h.close u

/-- The caller acquires the semaphore, or it joins the queue. -/
theorem Inv.wait {node : Ptr} (h : Inv c A) (hs : s ∈ A.sems) (hr : Rep k' (A.wait s))
    (hst : (A.wait s).Stable) : Inv (c.record k' (.wait s node)) (A.wait s) := by
  obtain ⟨t, hrun, hinv⟩ := h.stable
  obtain ⟨-, hkeep⟩ := h.stable.wait_spec hst hrun hs
  rw [← hr.running] at hkeep
  have hfree : ∀ s ∈ A.sems, t ∉ A.waiting s := fun s hs hm =>
    hinv.not_mem (Sys.mem_queued.2 (.inr (.inl ⟨s, hs, hm⟩)))
  have hclose : (c.kernel.tcb t).close = (A.tcb t).close := by
    rw [← h.rep.tcb t]
    rfl
  unfold record
  simp only [h.rep.running, hrun, hclose]
  cases hinv.wait_cases hrun hs with
  | inl hb =>
    obtain ⟨hlt, he⟩ := hb
    rw [if_neg fun hk => absurd (hkeep.1 hk) (by omega)]
    have hd := Sys.decoded_of_marks
      (Sys.marks_switch (({ A with val := update A.val s (A.val s - 1) } : Sys).park s))
    rw [← he] at hd
    simp only [Sys.decoded, Sys.park, hrun, Sys.modTcb, Prod.mk.injEq] at hd
    obtain ⟨h1, h2, h3⟩ := hd
    refine h.newCall hr hst hs hfree h1 (fun u s' hs' => ?_) (fun u hu => ?_) (fun u => ?_)
      (by simp) (by simp)
    · rw [h2]
      by_cases hss : s' = s
      · subst hss
        simp
      · simp [hss]
    · have hut := hu.resolve_right fun hn => hn rfl
      have hu := (Prod.mk.inj (congrFun h3 u)).1
      rwa [update_of_ne hut] at hu
    · apply (Prod.mk.inj (congrFun h3 u)).2.trans
      by_cases hut : u = t
      · subst hut
        rw [update_self]
      · rw [update_of_ne hut]
  | inr hp =>
    obtain ⟨hge, he⟩ := hp
    rw [if_pos (hkeep.2 hge)]
    rw [he] at hr hst ⊢
    refine h.newCall hr hst hs hfree rfl (fun u s' _ => ?_) (fun u _ => rfl) (fun u => rfl)
      (by simp) (by simp)
    simp

/-- The oldest waiting thread acquires the semaphore. -/
theorem Inv.signal (h : Inv c A) (hs : s ∈ A.sems) (hmax : A.val s < 2 ^ 31 - 1)
    (hr : Rep k' (A.signal s)) (hst : (A.signal s).Stable) :
    Inv (c.record k' (.signal s)) (A.signal s) := by
  obtain ⟨t, hrun, hinv⟩ := h.stable
  have hvk : (c.kernel.sem s).val = A.val s := h.rep.val s
  unfold record Counted.released
  cases hinv.signal_cases hs hmax with
  | inl hb =>
    obtain ⟨hlt, ⟨u, rest, hu⟩, he⟩ := hb
    obtain ⟨k₁, hrem, -⟩ := remove_rep h.rep hs hu
    have hnd := hinv.waiting_nodup hs
    rw [hu, List.nodup_cons] at hnd
    obtain ⟨x, hx, hxs, hxf⟩ := (h.blocked u s).1 ⟨hs, hu ▸ .head _⟩
    have hd : (A.signal s).decoded = (A.sems, update A.waiting s rest, fun v =>
        if v = u then (none, (A.tcb u).close) else ((A.tcb v).holder, (A.tcb v).close)) := by
      rw [he]
      simp only [Sys.deblock, hu, Sys.decoded, Sys.put, Sys.modTcb, Prod.mk.injEq, true_and]
      funext v
      by_cases hvu : v = u
      · subst hvu
        simp
      · simp [hvu]
    simp only [Sys.decoded, Prod.mk.injEq] at hd
    obtain ⟨h1, h2, h3⟩ := hd
    simp only [hvk, if_pos hlt, hrem, Option.toList_some, List.mem_singleton]
    refine ⟨hr, hst, fun v hv => ?_, fun v s' => ?_, fun v => ?_⟩
    all_goals
      have hv3 := congrFun h3 v
      by_cases hvu : v = u
    · rw [if_pos hvu] at hv3
      exact (Prod.mk.inj hv3).1
    · rw [if_neg hvu] at hv3
      rw [(Prod.mk.inj hv3).1]
      rw [h1, h2] at hv
      refine h.holder v fun s' hs' hm => hv s' hs' ?_
      by_cases hss : s' = s
      · subst hss
        rw [hu] at hm
        rw [update_self]
        exact (List.mem_cons.1 hm).resolve_left hvu
      · rwa [update_of_ne hss]
    · subst hvu
      simp only [h1, h2, if_pos, hx, Option.map_some, Option.some.injEq]
      constructor
      · intro hand
        obtain ⟨hs', hm⟩ := hand
        -- `v` waits in the queue of `s` only
        have hss : s' = s := by
          by_contra hss
          rw [update_of_ne hss] at hm
          obtain ⟨y, hy, hys, -⟩ := (h.blocked v s').1 ⟨hs', hm⟩
          rw [hx, Option.some.injEq] at hy
          exact hss (by rw [← hys, ← hy, hxs])
        subst hss
        rw [update_self] at hm
        exact absurd hm hnd.1
      · intro hand
        obtain ⟨y, rfl, -, hy⟩ := hand
        cases hy
    · simp only [h1, h2, if_neg hvu]
      rw [← h.blocked v s']
      by_cases hss : s' = s
      · subst hss
        rw [update_self, hu, List.mem_cons, or_iff_right hvu]
      · rw [update_of_ne hss]
    · subst hvu
      rw [if_pos rfl] at hv3
      rw [(Prod.mk.inj hv3).2, h.close v]
      simp [Flags, hx, hxf, Call.acquire]
    · rw [if_neg hvu] at hv3
      rw [(Prod.mk.inj hv3).2, h.close v]
      simp [Flags, hvu]
  | inr hp =>
    obtain ⟨hge, he⟩ := hp
    have hlt : ¬ A.val s < 0 := by omega
    simp only [hvk, if_neg hlt, List.not_mem_nil, if_false]
    rw [he] at hr hst ⊢
    exact ⟨hr, hst, h.holder, h.blocked, h.close⟩

/-- All waiting threads are released by the closing. -/
theorem Inv.semClose (h : Inv c A) (hs : s ∈ A.sems) (hr : Rep k' (A.semClose s))
    (hst : (A.semClose s).Stable) : Inv (c.record k' (.semClose s)) (A.semClose s) := by
  obtain ⟨t, hrun, hinv⟩ := h.stable
  have htcb : ∀ u, (A.semClose s).tcb u =
      if u ∈ A.waiting s then { A.tcb u with close := 1, holder := none } else A.tcb u := by
    intro u
    unfold Sys.semClose
    rw [Sys.release_foldl]
  have hsems : (A.semClose s).sems = A.sems.erase s := rfl
  have hwaiting : (A.semClose s).waiting = update A.waiting s [] := rfl
  unfold record
  refine ⟨hr, hst, fun u hu => ?_, fun u s' => ?_, fun u => ?_⟩
  · rw [htcb]
    split
    · rfl
    · rename_i hn
      refine h.holder u fun s' hs' hm => ?_
      have hss : s' ≠ s := fun he => hn (he ▸ hm)
      refine hu s' (hinv.sems.mem_erase_iff.2 ⟨hss, hs'⟩) ?_
      rwa [hwaiting, update_of_ne hss]
  · rw [hsems, hwaiting, hinv.sems.mem_erase_iff]
    by_cases hss : s' = s
    · subst hss
      simp [Call.semClose]
      grind
    · rw [update_of_ne hss]
      simp [hss, h.blocked u s', Call.semClose]
      grind
  · rw [htcb]
    have hb := h.blocked u s
    have hc := h.close u
    unfold Flags at hc ⊢
    simp [Call.semClose] at hc ⊢
    grind

theorem Inv.threadDestroy (h : Inv c A) (ht : t ∉ A.queued) (hr : Rep k' (A.threadDestroy t))
    (hst : (A.threadDestroy t).Stable) :
    Inv (c.record k' (.threadDestroy t)) (A.threadDestroy t) := by
  have hfree : ∀ s ∈ A.sems, t ∉ A.waiting s := fun s hs hm =>
    ht (Sys.mem_queued.2 (.inr (.inl ⟨s, hs, hm⟩)))
  unfold record
  refine ⟨hr, hst, fun u hu => ?_, fun u s => ?_, fun u => ?_⟩
  all_goals by_cases hut : u = t
  · subst hut
    simp [Sys.threadDestroy, Sys.modTcb, TCB.ctor]
  · simp only [Sys.threadDestroy, Sys.modTcb, update_of_ne hut]
    exact h.holder u hu
  · subst hut
    simp only [update_self]
    constructor
    · intro hand
      obtain ⟨hs, hm⟩ := hand
      exact absurd hm (hfree s hs)
    · intro hand
      obtain ⟨x, hx, -⟩ := hand
      cases hx
  · simp only [update_of_ne hut]
    exact h.blocked u s
  · subst hut
    simp [Sys.threadDestroy, Sys.modTcb, TCB.ctor, Flags]
  · simp only [Sys.threadDestroy, Sys.modTcb, Flags, update_of_ne hut]
    exact h.close u

theorem Inv.step {e : Entry} (h : Inv c A) (hok : c.Ok e) :
    ∃ c', c.step e = some c' ∧ Inv c' (A.step e) := by
  obtain ⟨k', hk, hr, hst⟩ := step_rep h.rep h.stable hok
  refine ⟨c.record k' e, by simp only [Reported.step, hk, Option.map_some], ?_⟩
  cases e with
  | createThread | startThread | dispatch | exit | timer | sleep =>
    exact h.frame hr hst (Sys.decoded_of_marks (A.step_marks trivial))
  | semOpen semaphore init =>
    obtain ⟨-, -, s, rfl, hs⟩ := hok
    exact h.semOpen (h.rep.sems ▸ hs) hr hst
  | wait s node =>
    obtain ⟨-, hs, -⟩ := hok
    exact h.wait (h.rep.sems ▸ hs) hr hst
  | signal s =>
    obtain ⟨hs, hmax⟩ := hok
    exact h.signal (h.rep.sems ▸ hs) (h.rep.val s ▸ hmax) hr hst
  | semClose s =>
    obtain ⟨-, hs⟩ := hok
    exact h.semClose (h.rep.sems ▸ hs) hr hst
  | threadDestroy t =>
    obtain ⟨-, -, -, hfree⟩ := hok
    exact h.threadDestroy (h.rep.free_iff.1 hfree) hr hst

theorem Inv.run {es : List Entry} (h : ∃ A, Inv c A)
    (hrun : Run Reported.Ok Reported.step c es c') : ∃ A, Inv c' A := by
  refine hrun.inv (fun c => ∃ A, Inv c A) (fun c e c' ⟨A, hc⟩ hok he => ?_) h
  obtain ⟨c'', he', hc'⟩ := hc.step hok
  rw [he] at he'
  exact ⟨_, Option.some.inj he' ▸ hc'⟩

/-! ## The result -/

theorem Inv.boot {e : Boot} {k₀ : Kernel} (h : e.Ok) (hboot : e.kernel = some k₀) :
    Inv ⟨k₀, fun _ => none⟩ e.sys := by
  obtain ⟨k₀', hk, hr⟩ := Boot.rep h
  rw [hboot, Option.some.injEq] at hk
  subst hk
  have htcb : ∀ t, (e.sys.tcb t).holder = none ∧ (e.sys.tcb t).close = 0 := by
    intro t
    simp only [Boot.sys, Sys.createThread_tcb]
    split_ifs <;> exact ⟨rfl, rfl⟩
  refine ⟨hr, Boot.stable h, fun t _ => (htcb t).1, fun t s => ?_, fun t => ?_⟩
  · rw [e.sys_waiting]
    simp
  · rw [(htcb t).2]
    simp [Flags]

/-- What `wait` returns to a caller that is not blocked: `holder` is clear, so `close` decides. -/
theorem Inv.waitResult (h : Inv c A) (hx : c.calls t = some x) (hf : x.fate ≠ .blocked) :
    KernelSem.waitResult c.kernel t =
      if x.flagged = true ∨ x.fate = .closed then -1 else 0 := by
  have hholder : (A.tcb t).holder = none := by
    refine h.holder t fun s hs hm => ?_
    obtain ⟨y, hy, -, hyf⟩ := (h.blocked t s).1 ⟨hs, hm⟩
    rw [hx, Option.some.injEq] at hy
    exact hf (hy ▸ hyf)
  have hclose : (A.tcb t).close = 1 ↔ x.flagged = true ∨ x.fate = .closed := by
    rw [h.close t]
    simp [Flags, hx]
  rw [← h.rep.tcb t] at hholder hclose
  unfold KernelSem.waitResult
  refine if_congr ?_ rfl rfl
  rw [← hclose]
  exact and_iff_right hholder

theorem Inv.right_iff (h : Inv c A) (hx : c.calls t = some x) (hf : x.fate ≠ .blocked) :
    c.Right t x ↔ x.flagged = false ∨ x.fate = .closed := by
  unfold Right
  rw [h.waitResult hx hf]
  cases hfate : x.fate with
  | blocked => exact absurd hfate hf
  | acquired => cases x.flagged <;> simp
  | closed => simp

end Reported

/-- **`wait` reports closing only to callers that no close has released before.** In every state of
a run the callers that are blocked are the threads in the queues, and for a call that has ended the
result is right iff the caller's `close` was clear at the call, or the call itself was ended by the
closing of its semaphore. -/
theorem wait_reports_iff {e : Boot} {k₀ : Kernel} {es : List Entry} {c : Reported} (he : e.Ok)
    (hboot : e.kernel = some k₀)
    (hrun : Run Reported.Ok Reported.step ⟨k₀, fun _ => none⟩ es c) :
    (∃ R W S, Lists c.kernel R W S ∧ ∀ t s, s ∈ c.kernel.sems ∧ t ∈ W s ↔
      ∃ x, c.calls t = some x ∧ x.sem = s ∧ x.fate = .blocked) ∧
    ∀ t x, c.calls t = some x → x.fate ≠ .blocked →
      (c.Right t x ↔ x.flagged = false ∨ x.fate = .closed) := by
  obtain ⟨A, h⟩ := Reported.Inv.run ⟨_, Reported.Inv.boot he hboot⟩ hrun
  refine ⟨⟨_, _, _, h.rep.lists, fun t s => ?_⟩, fun t x hx hf => h.right_iff hx hf⟩
  rw [h.rep.sems]
  exact h.blocked t s

/-- The main thread blocks on the semaphore 7, a thread of the console on 8. The other one signals 8,
closes 7, and waits on `txBuff`, which has counts. -/
theorem wait_reports_boot128 : ∃ k₀ c, boot128.kernel = some k₀ ∧
    Run Reported.Ok Reported.step ⟨k₀, fun _ => none⟩
      [.semOpen (some 7) 0, .semOpen (some 8) 0, .wait 7 (some 0x87009000), .wait 8 (some 0x8700a000),
        .signal 8, .semClose 7, .wait 2 (some 0x8700b000)] c ∧
    c.Right 0x87002000 ⟨7, .closed, false⟩ ∧ c.Right 0x87000000 ⟨8, .acquired, false⟩ ∧
    c.Right 0x87001000 ⟨2, .acquired, false⟩ := by
  obtain ⟨k₀, c, hboot, hrun, hmain, hputc, hgetc⟩ : ∃ k₀ c, boot128.kernel = some k₀ ∧
      Run Reported.Ok Reported.step ⟨k₀, fun _ => none⟩
        [.semOpen (some 7) 0, .semOpen (some 8) 0, .wait 7 (some 0x87009000),
          .wait 8 (some 0x8700a000), .signal 8, .semClose 7, .wait 2 (some 0x8700b000)] c ∧
      c.calls 0x87002000 = some ⟨7, .closed, false⟩ ∧
      c.calls 0x87000000 = some ⟨8, .acquired, false⟩ ∧
      c.calls 0x87001000 = some ⟨2, .acquired, false⟩ := by
    refine ⟨_, _, rfl, .cons ?_ rfl (.cons ?_ rfl (.cons ?_ rfl (.cons ?_ rfl (.cons ?_ rfl
      (.cons ?_ rfl (.cons ?_ rfl .nil)))))), ?_, ?_, ?_⟩
    · exact ⟨by decide, by decide, _, rfl, by decide⟩
    · exact ⟨by decide, by decide, _, rfl, by decide⟩
    · exact ⟨by decide, by decide, _, rfl, by decide⟩
    · exact ⟨by decide, by decide, _, rfl, by decide⟩
    · exact ⟨by decide, by decide⟩
    · exact ⟨by decide, by decide⟩
    · exact ⟨by decide, by decide, _, rfl, by decide⟩
    · decide
    · decide
    · decide
  obtain ⟨-, h⟩ := wait_reports_iff boot128_ok hboot hrun
  exact ⟨k₀, c, hboot, hrun, (h _ _ hmain (by decide)).2 (.inl rfl),
    (h _ _ hputc (by decide)).2 (.inl rfl), (h _ _ hgetc (by decide)).2 (.inl rfl)⟩

/-- The main thread is released by the closing of the semaphore 7. Its next call, on the semaphore 8
with one count, acquires the semaphore and returns -1. -/
theorem wait_reports_stale_close : ∃ k₀ c, boot128.kernel = some k₀ ∧
    Run Reported.Ok Reported.step ⟨k₀, fun _ => none⟩
      [.semOpen (some 7) 0, .semOpen (some 8) 1, .wait 7 (some 0x87009000), .semClose 7, .dispatch,
        .dispatch, .dispatch, .wait 8 (some 0x8700a000)] c ∧
    c.kernel.running = some 0x87002000 ∧ c.calls 0x87002000 = some ⟨8, .acquired, true⟩ ∧
    KernelSem.waitResult c.kernel 0x87002000 = -1 ∧ ¬ c.Right 0x87002000 ⟨8, .acquired, true⟩ := by
  obtain ⟨k₀, c, hboot, hrun, hr, hc, hw⟩ : ∃ k₀ c, boot128.kernel = some k₀ ∧
      Run Reported.Ok Reported.step ⟨k₀, fun _ => none⟩
        [.semOpen (some 7) 0, .semOpen (some 8) 1, .wait 7 (some 0x87009000), .semClose 7,
          .dispatch, .dispatch, .dispatch, .wait 8 (some 0x8700a000)] c ∧
      c.kernel.running = some 0x87002000 ∧ c.calls 0x87002000 = some ⟨8, .acquired, true⟩ ∧
      KernelSem.waitResult c.kernel 0x87002000 = -1 := by
    refine ⟨_, _, rfl, .cons ?_ rfl (.cons ?_ rfl (.cons ?_ rfl (.cons ?_ rfl (.cons trivial rfl
      (.cons trivial rfl (.cons trivial rfl (.cons ?_ rfl .nil))))))), ?_, ?_, ?_⟩
    · exact ⟨by decide, by decide, _, rfl, by decide⟩
    · exact ⟨by decide, by decide, _, rfl, by decide⟩
    · exact ⟨by decide, by decide, _, rfl, by decide⟩
    · exact ⟨by decide, by decide⟩
    · exact ⟨by decide, by decide, _, rfl, by decide⟩
    · decide
    · decide
    · decide
  exact ⟨k₀, c, hboot, hrun, hr, hc, hw, fun hright => nomatch hright.1.1 hw⟩

end SlabKernel
