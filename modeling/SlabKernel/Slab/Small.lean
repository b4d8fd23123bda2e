import Mathlib.Data.Set.Card
import SlabKernel.Slab.Boot

/-!
# Caches of small objects

Objects of at most 4020 bytes share a page with the header of their slab, and so every call on them
is legal (`SlabClient.Inv.small_legal`); buffers are requested by powers of two.

`slab_cache_invariant` is what a run of such calls keeps of each cache. A free slot is handed out
again after some allocations (`SlabClient.Inv.hand_out`): each one takes a free slot of the slabs
that are there, until none is left.
-/

namespace SlabKernel

open Function (update update_self update_of_ne)
open PtrList CachePool Runs

variable {k k' : Kmem} {V V' : View} {extra : List (Nat × Nat)} {c d p : Nat}

namespace SlabClient

variable {s s' : SlabClient}

/-- The calls of clients with small objects. -/
def SmallOk (s : SlabClient) : SlabCall → Prop
  | .create size _ _ => 1 ≤ size ∧ size ≤ 4020
  | .alloc cachep => cachep ∈ s.handles
  | .free cachep objp => cachep ∈ s.handles ∧ ∃ c, (c, objp) ∈ s.live
  | .destroy cachep => cachep ∈ s.handles
  | .shrink _ => False
  | .kmalloc size => ∃ i, size = 2 ^ i
  | .kfree objp => objp ∈ s.buffers.map Prod.fst

/-- The slabs of the clients' caches are pages. -/
def Paged (s : SlabClient) : Prop := ∀ c ∈ s.handles, (s.kmem.cache c).slabOrder = 0

theorem Paged.shaped {op : SlabCall} (h : s.Paged) (hok : s.SmallOk op) (hs : Shaped s op s') :
    s'.Paged := by
  intro a ha
  rcases hs a ha with ⟨ha', he⟩ | ⟨size, ctor, dtor, o, rfl, he, ho⟩
  · exact (congrArg Cache.slabOrder he :).trans (h a ha')
  · rw [Cache.getOrder_object hok.2, Option.some.injEq, Prod.mk.injEq] at ho
    exact (congrArg Cache.slabOrder he :).trans ho.1.symm

/-- A call on small objects is legal. -/
theorem Inv.small_legal {op : SlabCall} (h : s.Inv V extra) (hp : s.Paged) (hok : s.SmallOk op) :
    s.Legal op := by
  cases op with
  | create size ctor dtor =>
    obtain ⟨hsize, hsize'⟩ := hok
    exact .inl ⟨hsize, by unfold blockSize; omega⟩
  | alloc c => exact .inl hok
  | free c p =>
    obtain ⟨hc, c', hl⟩ := hok
    exact .inl ⟨hc, c', hl, .inl (hp c' (h.owner _ hl))⟩
  | destroy c => exact .inl hok
  | shrink c => exact hok.elim
  | kmalloc size =>
    obtain ⟨i, rfl⟩ := hok
    exact .pow s i
  | kfree p => exact .inl hok

/-- A call on small objects keeps the invariant, and leaves alone what it does not use. -/
theorem Inv.small {op : SlabCall} (h : s.Inv V extra) (hp : s.Paged) (hok : s.SmallOk op)
    (hs : s.step op = some s') : ∃ V', s'.Inv V' extra ∧ s'.Paged ∧ Kept s s' V V' op := by
  obtain ⟨V', hi, hk⟩ := h.step (h.small_legal hp hok) hs
  exact ⟨V', hi, hp.shaped hok hk.shaped, hk⟩

theorem small_inv {ops : List SlabCall} (h : ∃ V, s.Inv V extra ∧ s.Paged)
    (hrun : Run SmallOk SlabClient.step s ops s') : ∃ V, s'.Inv V extra ∧ s'.Paged := by
  refine hrun.inv (fun s => ∃ V, s.Inv V extra ∧ s.Paged) ?_ h
  rintro s₁ op s₂ ⟨V, h₁, hp₁⟩ hok hs
  obtain ⟨V', h₂, hp₂, -⟩ := h₁.small hp₁ hok hs
  exact ⟨V', h₂, hp₂⟩

theorem boot_small {heap : HeapBounds} {space : Nat} {blockNum : Int}
    (h : kmem_init heap 12 space blockNum = some k) : ∃ V, (boot k).Inv V [] ∧ (boot k).Paged := by
  obtain ⟨V, hV⟩ := boot_inv h
  exact ⟨V, hV, fun c hc => absurd hc List.not_mem_nil⟩

/-! ## Free slots -/

/-- The free slots of the cache `c`. -/
def freeSlots (k : Kmem) (V : View) (c : Nat) : Set Nat :=
  {p | (∃ u i, Slot k V c u i p) ∧ ¬ Live k V c p}

theorem freeSlots_finite (k : Kmem) (V : View) (c : Nat) : (freeSlots k V c).Finite := by
  refine ((V.slabs c).flatMap fun u => (List.range (k.cache c).objNum).map fun i =>
    (k.slab u).mem.getD 0 + i * (k.cache c).slotSize).finite_toSet.subset ?_
  rintro p ⟨⟨u, i, hu, hi, m, hm, rfl⟩, -⟩
  refine List.mem_flatMap.2 ⟨u, hu, List.mem_map.2 ⟨i, List.mem_range.2 hi, ?_⟩⟩
  rw [hm]
  rfl

/-- A cache with a free slot has a slab on one of the lists that allocations look at. -/
theorem Inv.stocked (h : s.Inv V extra) (hc : c ∈ V.caches) (hp : p ∈ freeSlots s.kmem V c) :
    ¬ ((s.kmem.cache c).slabsPartial = none ∧ (s.kmem.cache c).slabsFree = none) := by
  intro hx
  obtain ⟨h1, h2⟩ := hx
  obtain ⟨⟨u, i, hslot⟩, hl⟩ := hp
  have hi : i ∈ V.chain u := Classical.not_not.1 fun hi => hl ⟨u, i, hslot, hi⟩
  obtain ⟨g, hg⟩ := mem_slabsOf.1 hslot.slab
  have hrep := h.whole.reps c hc
  have hlevel := hrep.level g u hg
  have hlist := hrep.shelves.lists g
  cases g with
  | FULL => exact absurd (List.length_eq_zero_iff.1 hlevel) (List.ne_nil_of_mem hi)
  | PARTIAL =>
    have := (Linked.none_iff hlist.linked).1 h1
    rw [this] at hg
    exact absurd hg List.not_mem_nil
  | FREE =>
    have := (Linked.none_iff hlist.linked).1 h2
    rw [this] at hg
    exact absurd hg List.not_mem_nil

/-- Every slot of a cache is handed out after some allocations. -/
theorem Inv.hand_out {ok : SlabClient → SlabCall → Prop}
    (hok : ∀ s : SlabClient, c ∈ s.handles → ok s (.alloc c)) (h : s.Inv V extra)
    (hc : c ∈ s.handles) (hslot : IsSlot s.kmem V c p) :
    ∃ n s', Run ok SlabClient.step s (List.replicate n (.alloc c)) s' ∧ (c, p) ∈ s'.live := by
  -- on the number of free slots
  generalize hn : (freeSlots s.kmem V c).ncard = n
  induction n using Nat.strong_induction_on generalizing s V with
  | _ n ih =>
    by_cases hl : Live s.kmem V c p
    · exact ⟨0, s, .nil, (h.live c hc p).2 hl⟩
    · have hcm := (h.user c hc).1
      obtain ⟨q, k', V', he, hs, hg, hsame, -⟩ :=
        h.whole.alloc_old hcm (h.stocked hcm ⟨hslot, hl⟩) (2 ^ 64 - 1)
      have he' : kmem_cache_alloc s.kmem c = some (some q, k') := he
      have hstep : s.step (.alloc c) =
          some { s with kmem := k', live := (c, q) :: s.live } := by
        simp only [SlabClient.step, he', Option.map_some]
        rfl
      obtain ⟨hnew, hiff⟩ := hg
      have hi' : ({ s with kmem := k', live := (c, q) :: s.live } : SlabClient).Inv V' extra := by
        refine h.served hc hs (List.nodup_cons.2
          ⟨fun hm => hnew ((h.live c hc q).1 hm), h.nodup⟩) fun a => ?_
        obtain ⟨a, x⟩ := a
        rw [List.mem_cons, hiff]
        by_cases hac : a = c
        · subst hac
          simp only [Prod.mk.injEq, true_and, ne_eq, not_true_eq_false, false_and, false_or,
            h.live a hc x, or_comm]
        · simp only [Prod.mk.injEq, hac, false_and, false_or, ne_eq, not_false_eq_true, true_and,
            or_false]
      have hq : q ∈ freeSlots s.kmem V c := by
        obtain ⟨u, i, hu, -⟩ := (hiff q).2 (.inr rfl)
        exact ⟨⟨u, i, (hsame u i q).1 hu⟩, hnew⟩
      have hless : freeSlots k' V' c = freeSlots s.kmem V c \ {q} := by
        ext x
        simp only [freeSlots, Set.mem_sdiff, Set.mem_ofPred_eq, Set.mem_singleton_iff, hsame, hiff,
          not_or, and_assoc]
      have hcard : (freeSlots k' V' c).ncard < n := by
        rw [hless, ← hn]
        exact Set.ncard_sdiff_singleton_lt_of_mem hq (freeSlots_finite _ _ _)
      obtain ⟨m, s', hrun, hm⟩ := ih _ hcard hi' hc
        (hslot.imp fun u => Exists.imp fun i hu => (hsame u i p).2 hu) rfl
      exact ⟨m + 1, s', .cons (hok s hc) hstep hrun, hm⟩

/-! ## The caches of a run -/

/-- The list that a slab is on, by the number of its free slots. -/
theorem level_iff {free total : Nat} {g : SlabGroup} (h : Level free total g) (ht : 1 ≤ total) :
    (g = .FREE ↔ free = total) ∧ (g = .FULL ↔ free = 0) := by
  cases g with
  | FULL =>
    have h0 : free = 0 := h
    exact ⟨⟨fun he => (nomatch he), fun he => by omega⟩, fun _ => h0, fun _ => rfl⟩
  | PARTIAL =>
    obtain ⟨h1, h2⟩ := h
    exact ⟨⟨fun he => (nomatch he), fun he => by omega⟩, fun he => (nomatch he), fun he => by omega⟩
  | FREE =>
    have ht' : free = total := h
    exact ⟨⟨fun _ => ht', fun _ => rfl⟩, fun he => (nomatch he), fun he => by omega⟩

/-- **Slab caches.** After every run each cache of the clients has its slabs on the lists that their
free slots call for, and the chain of a slab is what is not live. An allocation hands out what is
not live, a deallocation to a wrong cache only sets its error, and every slot that is free, or is
freed, can be handed out. -/
theorem slab_cache_invariant {heap : HeapBounds} {space : Nat} {blockNum : Int}
    {ops : List SlabCall} (hinit : kmem_init heap 12 space blockNum = some k)
    (hrun : Run SmallOk SlabClient.step (boot k) ops s) :
    (∀ c ∈ s.handles, ∃ L ch, CacheRep s.kmem c L ch ∧
      (∀ g, ∀ t ∈ L g, (s.kmem.slab t).group = g ∧
        (g = .FREE ↔ (s.kmem.slab t).numOfFreeSlots = (s.kmem.slab t).numOfSlots) ∧
        (g = .FULL ↔ (s.kmem.slab t).numOfFreeSlots = 0)) ∧
      (∀ p, (c, p) ∈ s.live ↔ ∃ t ∈ slabsOf L, ∃ i < (s.kmem.cache c).objNum, i ∉ ch t ∧
        ∃ m, (s.kmem.slab t).mem = some m ∧ p = m + i * (s.kmem.cache c).slotSize) ∧
      (∀ t ∈ slabsOf L, ∃ m, (s.kmem.slab t).mem = some m ∧ ∀ i < (s.kmem.cache c).objNum,
        ∃ n s', Run SmallOk SlabClient.step s (List.replicate n (.alloc c)) s' ∧
          (c, m + i * (s.kmem.cache c).slotSize) ∈ s'.live)) ∧
    (∀ c ∈ s.handles, ∃ r k', kmem_cache_alloc s.kmem c = some (r, k') ∧
      ∀ p, r = some p → ∀ c' ∈ s.handles, (c', p) ∉ s.live) ∧
    (∀ c c' p, c ∈ s.handles → (c', p) ∈ s.live → c ≠ c' →
      kmem_cache_free s.kmem c (some p) = some (s.kmem.setError c (-3))) ∧
    (∀ c p, (c, p) ∈ s.live → ∃ s', s.step (.free c p) = some s' ∧ (c, p) ∉ s'.live ∧
      ∃ n s'', Run SmallOk SlabClient.step s' (List.replicate n (.alloc c)) s'' ∧
        (c, p) ∈ s''.live) := by
  obtain ⟨V, h, hp⟩ := small_inv (boot_small hinit) hrun
  refine ⟨fun c hc => ?_, fun c hc => ?_, fun c c' p hc hl hne => ?_, fun c p hl => ?_⟩
  · obtain ⟨hcm, ho, -⟩ := h.user c hc
    have hrep := h.whole.reps c hcm
    refine ⟨V.lists c, V.chain, hrep, fun g t ht => ⟨hrep.group g t ht, ?_⟩, fun p => ?_,
      fun t ht => ?_⟩
    · have hf := hrep.filled g t ht
      rw [hf.numOfFreeSlots, hf.numOfSlots]
      exact level_iff (hrep.level g t ht) hrep.objNum.1
    · rw [h.live c hc p]
      constructor
      · intro hx
        obtain ⟨t, i, hslot, hi⟩ := hx
        exact ⟨t, hslot.slab, i, hslot.lt, hi, hslot.addr⟩
      · intro hx
        obtain ⟨t, ht, i, hlt, hi, haddr⟩ := hx
        exact ⟨t, i, ⟨ht, hlt, haddr⟩, hi⟩
    · have hm := (h.whole.placed c hcm t ht).object ho.type
      exact ⟨_, hm, fun i hi => h.hand_out (fun _ => id) hc ⟨t, i, ht, hi, _, hm, rfl⟩⟩
  · obtain ⟨hcm, ho, -⟩ := h.user c hc
    obtain ⟨r, k', V', he, hs, hg, -⟩ := h.whole.alloc_object hcm ho (2 ^ 64 - 1)
    refine ⟨r, k', he, fun p hr c' hc' hl => ?_⟩
    obtain ⟨hnew, hiff⟩ := hg.iff
    by_cases hcc : c' = c
    · subst hcc
      exact hnew p hr ((h.live c' hc p).1 hl)
    · obtain ⟨u, i, hu, -⟩ := (hiff p).2 (.inr hr)
      obtain ⟨u', i', hu', -⟩ := (hs.frame.live (h.user c' hc').1 hcc).2 ((h.live c' hc' p).1 hl)
      exact hcc (hs.inv.slot_unique (hs.caches ▸ (h.user c' hc').1) (hs.caches ▸ hcm) hu' hu).1
  · exact (h.free_wrong hc hl (.inl (hp c' (h.owner _ hl))) hne).1
  · have hc := h.owner _ hl
    obtain ⟨u, i, hu, -⟩ := (h.live c hc p).1 hl
    obtain ⟨k', V', he, hi, hs, hslot, -⟩ := h.free hc hl (.inl (hp c hc))
    refine ⟨_, by simp only [SlabClient.step, he, Option.map_some], ?_,
      hi.hand_out (fun _ => id) hc ?_⟩
    · exact h.nodup.not_mem_erase
    · exact ⟨u, i, (hslot u i p).2 hu⟩

theorem slab_cache_invariant_heap128 : ∃ k s,
    kmem_init Buddy.heap128 12 Buddy.heap128.startAddr 4096 = some k ∧
    Run SmallOk SlabClient.step (boot k) [.create 64 none none, .alloc 2147554976] s ∧
    ∀ c ∈ s.handles, ∃ L ch, CacheRep s.kmem c L ch := by
  obtain ⟨k, s₁, hk, h₁, hc⟩ : ∃ k s₁,
      kmem_init Buddy.heap128 12 Buddy.heap128.startAddr 4096 = some k ∧
      SlabClient.step (boot k) (.create 64 none none) = some s₁ ∧ 2147554976 ∈ s₁.handles :=
    ⟨_, _, rfl, rfl, by decide +kernel⟩
  have hcreate : Run SmallOk SlabClient.step (boot k) [.create 64 none none] s₁ :=
    .cons ⟨by decide, by decide⟩ h₁ .nil
  obtain ⟨V, hi, -⟩ := small_inv (boot_small hk) hcreate
  obtain ⟨r, k', V', he, -⟩ := hi.alloc hc
  obtain ⟨s, halloc⟩ : ∃ s, s₁.step (.alloc 2147554976) = some s :=
    Option.isSome_iff_exists.1 (by simp only [SlabClient.step, he, Option.map_some, Option.isSome_some])
  have hrun : Run SmallOk SlabClient.step (boot k) [.create 64 none none, .alloc 2147554976] s :=
    .cons ⟨by decide, by decide⟩ h₁ (.cons hc halloc .nil)
  refine ⟨k, s, hk, hrun, fun c hc => ?_⟩
  obtain ⟨L, ch, h, -⟩ := (slab_cache_invariant hk hrun).1 c hc
  exact ⟨L, ch, h⟩

end SlabClient

end SlabKernel
