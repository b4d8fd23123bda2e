import Mathlib.Data.Fintype.EquivFin
import Mathlib.Data.List.ReduceOption
import SlabKernel.System.Owns

/-!
# Runs of the system

Every run of the system is a run of the kernel, with the objects that the allocator gives, beside a
run of the allocator (`Sound.run`): what the kernel's environment has to promise of its objects, the
allocator keeps, and the kernel makes no call that the allocator does not admit. The live objects of
the kernel's caches are those that the kernel uses.
-/

namespace SlabKernel

open Function (update update_self update_of_ne)
open Runs

variable {x x₁ x' : System} {L L' : ObjectKind → List Nat} {c : ObjectKind} {r : Request} {p : Ptr}
  {k k' : Kernel}

namespace System

/-! ## What stays -/

/-- A call on a cache of the kernel. -/
theorem call_keeps {op : SlabCall} (hx : x.call (.call op) = some x')
    (hop : ∀ n, op ≠ .kmalloc n ∧ op ≠ .kfree n) :
    x'.kernel = x.kernel ∧ x'.shared.client.buffers = x.shared.client.buffers := by
  obtain ⟨s, hs, rfl⟩ := Option.map_eq_some_iff.1 hx
  obtain ⟨client, hc, rfl⟩ := Option.map_eq_some_iff.1 hs
  cases op with
  | kmalloc n => exact absurd rfl (hop n).1
  | kfree n => exact absurd rfl (hop n).2
  | _ =>
    obtain ⟨r, -, rfl⟩ := Option.map_eq_some_iff.1 hc
    exact ⟨rfl, rfl⟩

theorem alloc_keeps (hx : x.alloc c = some (p, x')) :
    x'.kernel = x.kernel ∧ x'.shared.client.buffers = x.shared.client.buffers := by
  obtain ⟨d, -, hx⟩ := Option.bind_eq_some_iff.1 hx
  obtain ⟨⟨r, k'⟩, -, hx⟩ := Option.bind_eq_some_iff.1 hx
  obtain ⟨x₁, hx₁, hx⟩ := Option.bind_eq_some_iff.1 hx
  obtain ⟨-, rfl⟩ := Prod.mk.inj (Option.some.inj hx)
  exact call_keeps hx₁ fun _ => ⟨nofun, nofun⟩

theorem createCache_keeps {ctor dtor : Ptr} (hx : x.createCache c ctor dtor = some x') :
    x'.kernel = x.kernel ∧ x'.shared.client.buffers = x.shared.client.buffers := by
  obtain ⟨⟨d, k'⟩, -, hx⟩ := Option.bind_eq_some_iff.1 hx
  obtain ⟨x₁, hx₁, hx⟩ := Option.bind_eq_some_iff.1 hx
  obtain rfl := Option.some.inj hx
  have h₁ := call_keeps hx₁ fun _ => ⟨nofun, nofun⟩
  exact h₁

theorem ready_keeps (hx : x.ready c = some x') :
    x'.kernel = x.kernel ∧ x'.shared.client.buffers = x.shared.client.buffers := by
  unfold ready at hx
  split at hx
  · exact createCache_keeps hx
  · obtain rfl := Option.some.inj hx
    exact ⟨rfl, rfl⟩

theorem give_keeps (hx : x.give r = some (p, x')) :
    x'.kernel = x.kernel ∧ x'.shared.client.buffers = x.shared.client.buffers := by
  unfold give at hx
  split at hx
  · obtain ⟨-, rfl⟩ := Prod.mk.inj (Option.some.inj hx)
    exact ⟨rfl, rfl⟩
  · obtain ⟨x₁, hx₁, hx⟩ := Option.bind_eq_some_iff.1 hx
    have h₁ := ready_keeps hx₁
    have h₂ := alloc_keeps hx
    exact ⟨h₂.1.trans h₁.1, h₂.2.trans h₁.2⟩

theorem frees_keep {qs : List (ObjectKind × Nat)} (hx : qs.foldlM free x = some x') :
    x'.kernel = x.kernel ∧ x'.shared.client.buffers = x.shared.client.buffers := by
  induction qs generalizing x with
  | nil =>
    obtain rfl := Option.some.inj hx
    exact ⟨rfl, rfl⟩
  | cons q qs ih =>
    rw [List.foldlM_cons] at hx
    obtain ⟨x₁, hx₁, hx⟩ := Option.bind_eq_some_iff.1 hx
    obtain ⟨d, -, hx₁⟩ := Option.bind_eq_some_iff.1 hx₁
    have h₁ := call_keeps hx₁ fun _ => ⟨nofun, nofun⟩
    have h₂ := ih hx
    exact ⟨h₂.1.trans h₁.1, h₂.2.trans h₁.2⟩

/-- The kernel after an entry; the entry leaves the buffers alone. -/
theorem enter_kernel (hgive : x.give r = some (p, x₁)) (hx : x.enter r = some x') :
    x.kernel.step (r.entry p) = some x'.kernel ∧
      x'.shared.client.buffers = x.shared.client.buffers := by
  unfold enter at hx
  simp only [hgive, Option.bind_eq_bind, Option.bind_some] at hx
  obtain ⟨k', hk, hx⟩ := Option.bind_eq_some_iff.1 hx
  have h₁ := give_keeps hgive
  have h₂ := frees_keep hx
  have hkernel : x'.kernel = k' := h₂.1
  rw [h₁.1] at hk
  rw [hkernel]
  exact ⟨hk, h₂.2.trans h₁.2⟩

end System

/-! ## Calls of the kernel -/

/-- From `x` to `x'` the kernel makes admitted calls on its caches, and then has the objects `L`. -/
structure System.Calls (x x' : System) (L : ObjectKind → List Nat) : Prop where
  kernel : x'.kernel = x.kernel
  run : ∃ ops, Run SharedClient.Ok SharedClient.step x.shared ops x'.shared
  keeps : ∀ c d, x.cache c = some d → x'.cache c = some d
  owns : Owns x'.shared x'.cache L

namespace System

theorem Calls.refl (h : Owns x.shared x.cache L) : x.Calls x L :=
  ⟨rfl, ⟨[], .nil⟩, fun _ _ hc => hc, h⟩

theorem Calls.trans (h : x.Calls x₁ L) (h' : x₁.Calls x' L') : x.Calls x' L' := by
  obtain ⟨ops, hrun⟩ := h.run
  obtain ⟨ops', hrun'⟩ := h'.run
  exact ⟨h'.kernel.trans h.kernel, ⟨ops ++ ops', hrun.trans hrun'⟩, fun c d hc =>
    h'.keeps c d (h.keeps c d hc), h'.owns⟩

theorem createCache_calls {ctor dtor : Ptr} (h : Owns x.shared x.cache L) (hc : x.cache c = none)
    (hx : x.createCache c ctor dtor = some x') : x.Calls x' L := by
  obtain ⟨⟨d, k'⟩, he, hx⟩ := Option.bind_eq_some_iff.1 hx
  obtain ⟨x₁, hx₁, hx⟩ := Option.bind_eq_some_iff.1 hx
  obtain rfl := Option.some.inj hx
  obtain ⟨s, hs, rfl⟩ := Option.map_eq_some_iff.1 hx₁
  obtain ⟨hok, ho⟩ := h.create hc he hs
  refine ⟨rfl, ⟨_, .cons hok hs .nil⟩, fun c' d' hc' => ?_, ho⟩
  have hne : c' ≠ c := fun he => by
    rw [he, hc] at hc'
    cases hc'
  exact (update_of_ne hne _ _).trans hc'

theorem alloc_calls (h : Owns x.shared x.cache L) (hx : x.alloc c = some (p, x')) :
    x.Calls x' (update L c (p.toList ++ L c)) ∧ ∀ q, p = some q → q ∉ L c := by
  obtain ⟨d, hd, hx⟩ := Option.bind_eq_some_iff.1 hx
  obtain ⟨⟨r, k'⟩, he, hx⟩ := Option.bind_eq_some_iff.1 hx
  obtain ⟨x₁, hx₁, hx⟩ := Option.bind_eq_some_iff.1 hx
  obtain ⟨rfl, rfl⟩ := Prod.mk.inj (Option.some.inj hx)
  obtain ⟨s, hs, rfl⟩ := Option.map_eq_some_iff.1 hx₁
  obtain ⟨hok, ho, hnew⟩ := h.alloc hd he hs
  exact ⟨⟨rfl, ⟨_, .cons hok hs .nil⟩, fun _ _ hc => hc, ho⟩, hnew⟩

theorem ready_calls (h : Owns x.shared x.cache L) (hx : x.ready c = some x') : x.Calls x' L := by
  unfold ready at hx
  split at hx
  · rename_i hnone
    rw [Bool.and_eq_true, Option.isNone_iff_eq_none] at hnone
    exact createCache_calls h hnone.2 hx
  · obtain rfl := Option.some.inj hx
    exact .refl h

/-- The object for a request. -/
theorem give_calls (h : Owns x.shared x.cache L) (hx : x.give r = some (p, x')) :
    x.Calls x' (fun c => (if x.kernel.needs r = some c then p.toList else []) ++ L c) ∧
      (x.kernel.needs r = none → p = none) ∧
      ∀ c q, x.kernel.needs r = some c → p = some q → q ∉ L c := by
  unfold give at hx
  split at hx
  · rename_i hn
    obtain ⟨rfl, rfl⟩ := Prod.mk.inj (Option.some.inj hx)
    refine ⟨?_, fun _ => rfl, fun c q hc => by rw [hn] at hc; cases hc⟩
    simp only [hn, reduceCtorEq, if_false, List.nil_append]
    exact .refl h
  · rename_i c hn
    obtain ⟨x₁, hx₁, hx⟩ := Option.bind_eq_some_iff.1 hx
    have h₁ := ready_calls h hx₁
    obtain ⟨h₂, hnew⟩ := alloc_calls h₁.owns hx
    refine ⟨?_, fun hnone => (by rw [hn] at hnone; cases hnone), fun c' q hc hq => ?_⟩
    · have hL : (fun c' => (if x.kernel.needs r = some c' then p.toList else []) ++ L c') =
          update L c (p.toList ++ L c) := by
        funext c'
        rw [hn]
        by_cases hcc : c' = c
        · subst hcc
          rw [if_pos rfl, update_self]
        · rw [if_neg fun he => hcc (Option.some.inj he).symm, update_of_ne hcc, List.nil_append]
      rw [hL]
      exact h₁.trans h₂
    · rw [hn, Option.some.injEq] at hc
      exact hc ▸ hnew q hq

/-- Live objects are given back. -/
theorem free_calls {q : ObjectKind × Nat} (h : Owns x.shared x.cache L) (hq : q.2 ∈ L q.1) :
    ∃ x', x.free q = some x' ∧ x.Calls x' (update L q.1 ((L q.1).erase q.2)) := by
  obtain ⟨d, hd, -⟩ := (h.live q.1 q.2).1 hq
  obtain ⟨hok, s, hs, ho⟩ := h.free hd hq
  refine ⟨{ x with shared := s }, ?_, rfl, ⟨_, .cons hok hs .nil⟩, fun _ _ hc => hc, ho⟩
  unfold free call
  simp only [hd, hs, Option.bind_eq_bind, Option.bind_some, Option.map_some]

/-- The objects of the kind `c` in a list. -/
def kind (c : ObjectKind) (qs : List (ObjectKind × Nat)) : List Nat :=
  qs.filterMap fun q => if q.1 = c then some q.2 else none

theorem kind_released (k : Kernel) (e : Entry) (c : ObjectKind) :
    kind c (k.released e) = k.freed e c := by
  have hmap : ∀ (c' : ObjectKind) (l : List Nat),
      kind c (l.map (c', ·)) = if c' = c then l else [] := fun c' l => by
    unfold kind
    rw [List.filterMap_map]
    split
    · rename_i hc
      simp [hc]
    · rename_i hc
      simp [hc]
  unfold Kernel.released
  simp only [List.flatMap_cons, List.flatMap_nil, List.append_nil]
  have happ : ∀ l l' : List (ObjectKind × Nat), kind c (l ++ l') = kind c l ++ kind c l' :=
    fun l l' => List.filterMap_append
  simp only [happ, hmap]
  cases c <;> simp

theorem free_all {qs : List (ObjectKind × Nat)} (h : Owns x.shared x.cache L)
    (hqs : ∀ c, (kind c qs).Subperm (L c)) :
    ∃ x', qs.foldlM free x = some x' ∧ x.Calls x' fun c => (L c).diff (kind c qs) := by
  induction qs generalizing x L with
  | nil => exact ⟨x, rfl, .refl h⟩
  | cons q qs ih =>
    have hcons : ∀ c, kind c (q :: qs) = if q.1 = c then q.2 :: kind c qs else kind c qs :=
      fun c => by
        unfold kind
        rw [List.filterMap_cons]
        split <;> simp_all
    have hq : q.2 ∈ L q.1 := by
      have hsub := hqs q.1
      rw [hcons, if_pos rfl] at hsub
      exact hsub.subset (.head _)
    obtain ⟨x₁, hx₁, h₁⟩ := free_calls h hq
    obtain ⟨x', hx', h'⟩ := ih h₁.owns fun c => by
      have hsub := hqs c
      rw [hcons] at hsub
      by_cases hc : q.1 = c
      · subst hc
        rw [if_pos rfl] at hsub
        rw [update_self]
        simpa using hsub.erase q.2
      · rwa [if_neg hc, ← update_of_ne (Ne.symm hc) _ L] at hsub
    refine ⟨x', ?_, ?_⟩
    · rw [List.foldlM_cons, hx₁]
      exact hx'
    · have hL : (fun c => (L c).diff (kind c (q :: qs))) =
          fun c => (update L q.1 ((L q.1).erase q.2) c).diff (kind c qs) := by
        funext c
        rw [hcons]
        by_cases hc : q.1 = c
        · subst hc
          rw [if_pos rfl, update_self, List.diff_cons]
        · rw [if_neg hc, update_of_ne (Ne.symm hc)]
      rw [hL]
      exact h₁.trans h'

end System

/-! ## Entries -/

/-- A thread that sleeps, or that blocks, needs its node. -/
theorem timeSleep_null (k : Kernel) (time : Nat) : Riscv.timeSleep k time none = none := by
  unfold Riscv.timeSleep Sleeping.add
  cases k.running <;> rfl

theorem wait_null {s : Nat} (hb : k.Blocks s) : KernelSem.wait k s none = none := by
  have hlt : toInt32 ((k.sem s).val - 1) < 0 := hb
  unfold KernelSem.wait
  simp only [Kernel.modSem, update_self, if_pos hlt]
  unfold KernelSem.block KernelSem.insert
  cases k.running <;> rfl

/-- A thread that does not block takes no node. -/
theorem wait_node {s : Nat} (hb : ¬ k.Blocks s) (p q : Ptr) :
    KernelSem.wait k s p = KernelSem.wait k s q := by
  have hge : ¬ toInt32 ((k.sem s).val - 1) < 0 := hb
  unfold KernelSem.wait
  simp only [Kernel.modSem, update_self, if_neg hge]

/-- A request with the allocator's object: a thread for which there is no memory, an entry that writes
through a null pointer, or one that the kernel's environment may make. -/
theorem Request.cases (hok : k.Admits r) (hnone : k.needs r = none → p = none)
    (hnew : ∀ c q, k.needs r = some c → p = some q → q ∉ k.objects c ∧ ramStart ≤ q ∧ q < ramEnd) :
    (∃ f arg stack id start, r = .createThread f arg stack id start) ∧ p = none ∨
    (∃ c, k.needs r = some c ∧ c ≠ .tcb) ∧ p = none ∧ k.step (r.entry p) = none ∨
    (∀ c, k.needs r = some c → p ≠ none) ∧
      ∃ q, k.Ok (r.entry q) ∧ k.step (r.entry q) = k.step (r.entry p) ∧
        (∀ c, k.taken (r.entry q) c = if k.needs r = some c then p.toList else []) ∧
        ∀ c, k.freed (r.entry q) c = k.freed (r.entry p) c := by
  have hplain : k.needs r = none → k.Ok (r.entry none) →
      (∀ c, k.taken (r.entry none) c = []) →
      (∀ c, k.needs r = some c → p ≠ none) ∧
        ∃ q, k.Ok (r.entry q) ∧ k.step (r.entry q) = k.step (r.entry p) ∧
          (∀ c, k.taken (r.entry q) c = if k.needs r = some c then p.toList else []) ∧
          ∀ c, k.freed (r.entry q) c = k.freed (r.entry p) c := fun hn hq htaken => by
    obtain rfl := hnone hn
    rw [hn]
    exact ⟨nofun, none, hq, rfl, fun c => (htaken c).trans (if_neg nofun).symm, fun _ => rfl⟩
  cases r with
  | createThread f arg stack id start =>
    cases p with
    | none => exact .inl ⟨⟨f, arg, stack, id, start, rfl⟩, rfl⟩
    | some t =>
      obtain ⟨hi, hf⟩ := hok
      obtain ⟨ht, hram⟩ := hnew .tcb t rfl rfl
      refine .inr (.inr ⟨nofun, some t, ⟨hi, hf, t, rfl, ht, hram⟩, rfl, fun c => ?_, fun _ => rfl⟩)
      cases c <;> rfl
  | sleep time =>
    obtain ⟨hi, htime, htime'⟩ := hok
    cases p with
    | none => exact .inr (.inl ⟨⟨.sleep, rfl, nofun⟩, rfl, timeSleep_null k time⟩)
    | some n =>
      obtain ⟨hn, -⟩ := hnew .sleep n rfl rfl
      refine .inr (.inr ⟨nofun, some n, ⟨hi, htime, htime', n, rfl, hn⟩, rfl, fun c => ?_,
        fun _ => rfl⟩)
      cases c <;> rfl
  | semOpen init =>
    obtain ⟨hi, hinit⟩ := hok
    cases p with
    | none => exact .inr (.inl ⟨⟨.sem, rfl, nofun⟩, rfl, rfl⟩)
    | some s =>
      obtain ⟨hn, -⟩ := hnew .sem s rfl rfl
      refine .inr (.inr ⟨nofun, some s, ⟨hi, hinit, s, rfl, hn⟩, rfl, fun c => ?_, fun _ => rfl⟩)
      cases c <;> rfl
  | wait s =>
    obtain ⟨hi, hmem⟩ := hok
    by_cases hb : k.Blocks s
    · have hneeds : k.needs (.wait s) = some .blocked := if_pos hb
      cases p with
      | none => exact .inr (.inl ⟨⟨.blocked, hneeds, nofun⟩, rfl, wait_null hb⟩)
      | some n =>
        obtain ⟨hn, -⟩ := hnew .blocked n hneeds rfl
        refine .inr (.inr ⟨nofun, some n, ⟨hi, hmem, n, rfl, hn⟩, rfl, fun c => ?_, fun _ => rfl⟩)
        cases c <;> simp [Kernel.taken, Kernel.needs, Request.entry, hb]
    · have hneeds : k.needs (.wait s) = none := if_neg hb
      obtain rfl := hnone hneeds
      obtain ⟨n, hn⟩ := Infinite.exists_notMem_finset k.nodes.toFinset
      rw [List.mem_toFinset] at hn
      refine .inr (.inr ⟨fun c hc => ?_, some n, ⟨hi, hmem, n, rfl, hn⟩, wait_node hb _ _,
        fun c => ?_, fun _ => rfl⟩)
      · rw [hneeds] at hc
        cases hc
      · cases c <;> simp [Kernel.taken, Kernel.needs, Request.entry, hb]
  | startThread handle => exact .inr (.inr (hplain rfl hok fun c => by cases c <;> rfl))
  | dispatch => exact .inr (.inr (hplain rfl hok fun c => by cases c <;> rfl))
  | exit => exact .inr (.inr (hplain rfl hok fun c => by cases c <;> rfl))
  | timer => exact .inr (.inr (hplain rfl hok fun c => by cases c <;> rfl))
  | signal s => exact .inr (.inr (hplain rfl hok fun c => by cases c <;> rfl))
  | semClose s => exact .inr (.inr (hplain rfl hok fun c => by cases c <;> rfl))
  | threadDestroy t => exact .inr (.inr (hplain rfl hok fun c => by cases c <;> rfl))

/-! ## Steps -/

/-- The kernel represents a scheduler and has lost no node, and its objects are those of its caches.
The caches of `main` are there. -/
structure System.Sound (x : System) : Prop where
  kernel : ∃ A, Rep x.kernel A ∧ A.Stable ∧ Tidy x.kernel A
  owns : Owns x.shared x.cache x.kernel.objects
  made : ∀ c : ObjectKind, c.isNode = false → x.cache c ≠ none

/-- The kernel entry that a call of the system makes. A call of another part makes none, nor does the
creation of a thread for which there is no memory. -/
def SystemCall.Makes : SystemCall → Option Entry → Prop
  | .entry r, some e => ∃ p, e = r.entry p
  | .entry (.createThread ..), none => True
  | .other _, none => True
  | _, _ => False

namespace System

theorem Calls.made (h : x.Calls x' L) {c : ObjectKind} (hc : x.cache c ≠ none) :
    x'.cache c ≠ none := by
  obtain ⟨d, hd⟩ := Option.ne_none_iff_exists'.1 hc
  rw [h.keeps c d hd]
  exact Option.some_ne_none d

/-- The object for a request is new, and in the RAM. -/
theorem Sound.given (h : x.Sound) (hgive : x.give r = some (p, x₁)) :
    x.Calls x₁ (fun c => (if x.kernel.needs r = some c then p.toList else []) ++
      x.kernel.objects c) ∧ (x.kernel.needs r = none → p = none) ∧
    ∀ c q, x.kernel.needs r = some c → p = some q →
      q ∉ x.kernel.objects c ∧ ramStart ≤ q ∧ q < ramEnd := by
  obtain ⟨hcalls, hnone, hnew⟩ := give_calls h.owns hgive
  refine ⟨hcalls, hnone, fun c q hc hq => ⟨hnew c q hc hq, hcalls.owns.inRam (c := c) ?_⟩⟩
  rw [if_pos hc, hq]
  exact List.mem_append_left _ (.head _)

/-- Once there is the object, an entry returns if the kernel does. -/
theorem Sound.entered (h : x.Sound) (hok : x.kernel.Admits r) (hgive : x.give r = some (p, x₁))
    (hk : x.kernel.step (r.entry p) = some k') :
    ∃ x' e, x.enter r = some x' ∧ (SystemCall.entry r).Makes e ∧
      Run Kernel.Ok Kernel.step x.kernel e.toList x'.kernel ∧
      (∃ ops, Run SharedClient.Ok SharedClient.step x.shared ops x'.shared) ∧ x'.Sound := by
  obtain ⟨A, hr, hst, ht⟩ := h.kernel
  obtain ⟨hcalls, hnone, hnew⟩ := h.given hgive
  have henter : x.enter r =
      (x.kernel.released (r.entry p)).foldlM free { x₁ with kernel := k' } := by
    unfold enter
    simp only [hgive, Option.bind_eq_bind, Option.bind_some, hcalls.kernel, hk]
  rw [henter]
  rcases Request.cases hok hnone hnew with ⟨⟨f, arg, stack, id, start, rfl⟩, rfl⟩ |
    ⟨-, -, hstep⟩ | ⟨-, q, hok', hstep, htaken, hfreed⟩
  · -- no memory for a thread
    obtain rfl : x.kernel = k' := Option.some.inj hk
    refine ⟨_, none, rfl, trivial, .nil, hcalls.run, ⟨A, hr, hst, ht⟩, ?_, fun c hc =>
      hcalls.made (h.made c hc)⟩
    have ho := hcalls.owns
    simp only [Option.toList_none, ite_self, List.nil_append] at ho
    exact ho
  · rw [hk] at hstep
    cases hstep
  · have hk' := hstep.trans hk
    obtain ⟨k'', hs, hr', hst'⟩ := step_rep hr hst hok'
    obtain rfl := Option.some.inj (hk'.symm.trans hs)
    have hobj : ∀ c, k'.objects c = ((if x.kernel.needs r = some c then p.toList else []) ++
        x.kernel.objects c).diff (kind c (x.kernel.released (r.entry p))) := fun c => by
      rw [step_objects hk' c, htaken, hfreed, kind_released]
    obtain ⟨x', hx', h'⟩ := free_all (x := { x₁ with kernel := k' }) hcalls.owns fun c => by
      rw [kind_released, ← hfreed]
      exact (freed_subperm hr hst hok' c).trans (List.sublist_append_right _ _).subperm
    obtain ⟨ops, hrun⟩ := hcalls.run
    obtain ⟨ops', hrun'⟩ := h'.run
    have hkernel : x'.kernel = k' := h'.kernel
    refine ⟨x', some (r.entry q), hx', ⟨q, rfl⟩, hkernel ▸ .cons hok' hk' .nil,
      ⟨_, hrun.trans hrun'⟩, ?_, ?_, fun c hc => h'.made (hcalls.made (h.made c hc))⟩
    · exact hkernel ▸ ⟨_, hr', hst', ht.step hr hst hok' hk'⟩
    · rw [hkernel, funext hobj]
      exact h'.owns

theorem Sound.enter (h : x.Sound) (hok : x.kernel.Admits r) (hx : x.enter r = some x') :
    ∃ e, (SystemCall.entry r).Makes e ∧ Run Kernel.Ok Kernel.step x.kernel e.toList x'.kernel ∧
      (∃ ops, Run SharedClient.Ok SharedClient.step x.shared ops x'.shared) ∧ x'.Sound := by
  obtain ⟨⟨p, x₁⟩, hgive, hk⟩ := Option.bind_eq_some_iff.1 hx
  obtain ⟨k', hk, -⟩ := Option.bind_eq_some_iff.1 hk
  rw [(h.given hgive).1.kernel] at hk
  obtain ⟨x'', e, hx'', hspec⟩ := h.entered hok hgive hk
  obtain rfl := Option.some.inj (hx.symm.trans hx'')
  exact ⟨e, hspec⟩

/-- The object for a request is that of `Kmem.newNode`. -/
theorem give_newNode (hc : x.kernel.needs r = some c)
    (hmade : c.isNode = false → x.cache c ≠ none) :
    (x.give r).map (fun q => (q.1, q.2.shared.client.kmem)) =
      x.shared.client.kmem.newNode (x.cache c) c.size := by
  have halloc : ∀ {y : System}, (y.alloc c).map (fun q => (q.1, q.2.shared.client.kmem)) =
      (y.cache c).bind fun d => kmem_cache_alloc y.shared.client.kmem d := fun {y} => by
    unfold alloc call SharedClient.step SlabClient.step
    cases hd : y.cache c with
    | none => simp
    | some d =>
      cases he : kmem_cache_alloc y.shared.client.kmem d with
      | none => simp [he]
      | some q => simp [he]
  have hgive : x.give r = (x.ready c).bind fun x => x.alloc c := by
    unfold give
    rw [hc]
    rfl
  rw [hgive]
  unfold Kmem.newNode
  cases hd : x.cache c with
  | some d =>
    have hready : x.ready c = some x := by
      unfold ready
      rw [hd, if_neg (by simp)]
    rw [hready, Option.bind_some, halloc, hd]
    rfl
  | none =>
    have hnode : c.isNode = true := Bool.eq_true_of_not_eq_false fun hn => hmade hn hd
    have hready : x.ready c = x.createCache c none none := by
      unfold ready
      rw [hd, hnode]
      rfl
    rw [hready]
    unfold createCache call SharedClient.step SlabClient.step
    cases he : kmem_cache_create x.shared.client.kmem c.size none none with
    | none => simp [he]
    | some q =>
      simp only [he, Option.bind_eq_bind, Option.bind_some, Option.map_some]
      rw [show (pure _ : Option System) = some _ from rfl, Option.bind_some, halloc]
      simp only [update_self]

/-- An entry returns iff there is the object that it needs; the creation of a thread always does. -/
theorem Sound.returns (h : x.Sound) (hok : x.kernel.Admits r) :
    x.enter r ≠ none ↔ ∀ c, x.kernel.needs r = some c → c ≠ .tcb →
      x.shared.client.kmem.Obtainable (x.cache c) := by
  obtain ⟨A, hr, hst, -⟩ := h.kernel
  obtain ⟨V, hi⟩ := h.owns.view
  -- once the allocator has answered
  have hgiven : ∀ {p x₁}, x.give r = some (p, x₁) → (x.enter r ≠ none ↔
      ∀ c, x.kernel.needs r = some c → c ≠ .tcb → p ≠ none) := fun {p x₁} hgive => by
    obtain ⟨hcalls, hnone, hnew⟩ := h.given hgive
    have hret : ∀ {k'}, x.kernel.step (r.entry p) = some k' → x.enter r ≠ none := fun {k'} hk => by
      obtain ⟨x', e, hx', -⟩ := h.entered hok hgive hk
      rw [hx']
      exact Option.some_ne_none x'
    rcases Request.cases hok hnone hnew with ⟨⟨f, arg, stack, id, start, rfl⟩, rfl⟩ |
      ⟨⟨c, hc, hne⟩, hp, hstep⟩ | ⟨hp, q, hok', hstep, -⟩
    · exact iff_of_true (hret rfl) fun c hc hne => absurd (Option.some.inj hc).symm hne
    · refine iff_of_false (not_not_intro ?_) fun hall => hall c hc hne hp
      unfold System.enter
      simp only [hgive, Option.bind_eq_bind, Option.bind_some, hcalls.kernel, hstep,
        Option.bind_none]
    · obtain ⟨k', hk', -⟩ := step_rep hr hst hok'
      exact iff_of_true (hret (hstep.symm.trans hk')) fun c hc _ => hp c hc
  cases hc : x.kernel.needs r with
  | none =>
    have hgive : x.give r = some (none, x) := by
      unfold give
      rw [hc]
    refine iff_of_true ((hgiven hgive).2 fun c hc' => ?_) nofun
    rw [hc] at hc'
    cases hc'
  | some c =>
    have hsize : 1 ≤ c.size ∧ c.size ≤ 4020 := by cases c <;> decide
    have hnode := give_newNode hc (h.made c)
    rcases newNode_spec hi hsize.1 hsize.2 fun d hd => (h.owns.handle c d hd).1 with
      ⟨hn, hob⟩ | ⟨q, k', he, hob, -⟩
    · rw [hn, Option.map_eq_none_iff] at hnode
      have hnone : x.enter r = none := by
        unfold System.enter
        rw [hnode]
        rfl
      refine iff_of_false (not_not_intro hnone) fun hall => hob (hall c rfl ?_)
      -- the cache of the threads is there, and an allocation from it returns
      rintro rfl
      obtain ⟨d, hd⟩ := Option.ne_none_iff_exists'.1 (h.made .tcb rfl)
      obtain ⟨q, k', V', he, -⟩ := SlabClient.Inv.alloc hi (h.owns.handle .tcb d hd).1
      rw [hd] at hn
      exact absurd (he.symm.trans hn) nofun
    · rw [he] at hnode
      obtain ⟨⟨p, x₁⟩, hgive, hp⟩ := Option.map_eq_some_iff.1 hnode
      obtain ⟨rfl, -⟩ := Prod.mk.inj hp
      rw [hgiven hgive]
      constructor
      · intro hall c' hc' hne
        obtain rfl := Option.some.inj hc'
        exact hob.1 (hall c hc hne)
      · intro hall c' hc' hne
        obtain rfl := Option.some.inj (hc.symm.trans hc')
        exact hob.2 (hall c rfl hne)

theorem Sound.step {call : SystemCall} (h : x.Sound) (hok : x.Ok call) (hx : x.step call = some x') :
    ∃ e, call.Makes e ∧ Run Kernel.Ok Kernel.step x.kernel e.toList x'.kernel ∧
      (∃ ops, Run SharedClient.Ok SharedClient.step x.shared ops x'.shared) ∧ x'.Sound := by
  cases call with
  | entry r => exact h.enter hok hx
  | other op =>
    obtain ⟨hop, hn⟩ := hok
    obtain ⟨s, hs, rfl⟩ := Option.map_eq_some_iff.1 hx
    exact ⟨none, trivial, .nil, ⟨_, .cons hop hs .nil⟩, h.kernel, h.owns.other hop hn hs, h.made⟩

theorem Sound.run {calls : List SystemCall} (h : x.Sound) (hrun : Run Ok System.step x calls x') :
    ∃ es, List.Forall₂ SystemCall.Makes calls es ∧
      Run Kernel.Ok Kernel.step x.kernel es.reduceOption x'.kernel ∧
      (∃ ops, Run SharedClient.Ok SharedClient.step x.shared ops x'.shared) ∧ x'.Sound := by
  induction hrun with
  | nil => exact ⟨[], .nil, .nil, ⟨[], .nil⟩, h⟩
  | cons hok hx _ ih =>
    obtain ⟨e, hmakes, hkernel, ⟨ops, hops⟩, h₁⟩ := h.step hok hx
    obtain ⟨es, hall, hkernel', ⟨ops', hops'⟩, h'⟩ := ih h₁
    refine ⟨e :: es, .cons hmakes hall, ?_, ⟨ops ++ ops', hops.trans hops'⟩, h'⟩
    cases e with
    | none => exact hkernel.trans hkernel'
    | some e => exact hkernel.trans hkernel'

end System

end SlabKernel
