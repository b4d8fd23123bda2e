import SlabKernel.Slab.Boot

/-!
# `kmem_cache_shrink`

The freeing branch gives every free slab back and counts it, but the list of free slabs keeps its
first slab (`SlabClient.Inv.shrunk`). So the call is safe iff there was no free slab
(`shrink_safe_iff`).
-/

namespace SlabKernel

open Function (update update_self update_of_ne)
open PtrList CachePool Runs

namespace SlabClient

variable {s : SlabClient} {V : View} {extra : List (Nat × Nat)} {k k' : Kmem} {c n : Nat}

/-- The freeing branch has given the slabs `l` of the cache `c` back and returned `n`. What was the
header of such a slab is only known to keep its links. -/
structure Shrunk (k k' : Kmem) (V : View) (c n : Nat) (l : List Nat) : Prop where
  free : k.buddy.freeAll (l.map (·, (k.cache c).slabOrder)) = some k'.buddy
  count : n = l.length * 2 ^ (k.cache c).slabOrder
  numOfSlabs : (k'.cache c).numOfSlabs = (V.lists c .PARTIAL ++ V.lists c .FULL).length
  slab : ∀ t ∉ l, k'.slab t = k.slab t
  next : ∀ t, (k'.slab t).next = (k.slab t).next
  first : (k'.cache c).first = (k.cache c).first
  other : ∀ a ≠ c, k'.cache a = k.cache a
  calls : k'.calls = k.calls ++ l.flatMap (k.destructed c)

/-- No list of the cache `c` mentions one of the slabs `l`. -/
def NoStale (k : Kmem) (c : Nat) (l : List Nat) : Prop :=
  ∀ g L, Linked (fun t => (k.slab t).next) ((k.cache c).first g) L → ∀ t ∈ L, t ∉ l

/-- What the freeing branch of `kmem_cache_shrink` does. -/
theorem Inv.shrunk (h : s.Inv V extra) (hc : c ∈ s.handles) (hshrink : (s.kmem.cache c).shrink ≠ 0) :
    ∃ n k', kmem_cache_shrink s.kmem c = some (n, k') ∧
      Shrunk s.kmem k' V c n (V.lists c .FREE) := by
  obtain ⟨hcm, ho, -⟩ := h.user c hc
  have hrep := h.whole.reps c hcm
  have hpage : ∀ t ∈ V.lists c .FREE, Page s.kmem c t := fun t ht =>
    have ht' := mem_slabsOf.2 ⟨.FREE, ht⟩
    ⟨h.whole.owner hcm ht', by
      rw [(h.whole.placed c hcm t ht').object ho.type]
      exact Option.some_ne_none _⟩
  have hlen := h.whole.list_length hcm .FREE
  have hnum := hrep.numOfSlabs
  have hsmall := h.whole.slabs_length hcm
  unfold View.slabs at hsmall
  have hsum : (slabsOf (V.lists c)).length = (V.lists c .FREE).length +
      (V.lists c .PARTIAL ++ V.lists c .FULL).length := by
    rw [(slabsOf_perm (V.lists c)).length_eq, List.length_append]
  -- the blocks of the free slabs are live
  have hblocks : (V.blocks s.kmem ++ extra).Perm
      ((V.lists c .FREE).map (·, (s.kmem.cache c).slabOrder) ++
        ((V.lists c .PARTIAL ++ V.lists c .FULL).map (·, (s.kmem.cache c).slabOrder) ++
          (V.others s.kmem c ++ extra))) := by
    apply ((Kmem.Inv.blocks_split hcm).append_right extra).trans
    apply (((Kmem.Inv.slabBlocks_perm ho).append_right _).append_right _).trans
    simp only [List.map_append, List.append_assoc, List.Perm.refl]
  obtain ⟨b, hf, -, -⟩ := Buddy.Inv.freeAll (h.whole.buddy.perm hblocks)
  have he := shrinkLoop_spec addrSpace 0
    (hrep.shelves.lists .FREE).linked (hlen.trans (by decide)) ho hpage (by omega) (by omega) hf
  rw [Nat.zero_add] at he
  have he' : kmem_cache_shrink s.kmem c = _ := (if_neg hshrink).trans he
  refine ⟨_, _, he', hf, rfl, ?_, fun t => Kmem.disown_of_notMem, fun t => Kmem.disown_next, ?_,
    fun a ha => update_of_ne ha _ _, rfl⟩
  · simp only [Kmem.disown, Kmem.modCache, update_self]
    omega
  · simp only [Kmem.disown, Kmem.modCache, update_self]
    rfl

/-- The first free slab stays on its list. -/
theorem Shrunk.noStale_iff {l : List Nat} (h : Shrunk k k' V c n l)
    (hl : Linked (fun t => (k.slab t).next) (k.cache c).slabsFree l)
    (hdisj : ∀ g ≠ SlabGroup.FREE, ∀ L, Linked (fun t => (k.slab t).next) ((k.cache c).first g) L →
      ∀ t ∈ L, t ∉ l) :
    NoStale k' c l ↔ (k.cache c).slabsFree = none := by
  unfold NoStale
  simp only [h.next, h.first]
  constructor
  · intro hn
    cases hf : (k.cache c).slabsFree with
    | none => rfl
    | some t =>
      obtain ⟨l', rfl, -⟩ := Linked.cons_of_some (hf ▸ hl)
      exact absurd (.head _) (hn .FREE _ hl t (.head _))
  · intro hf g L hL t ht
    rw [hf] at hl
    rw [Linked.nil_of_none hl]
    exact List.not_mem_nil

/-- **Shrinking.** In every state of a run in which `kmem_cache_shrink` never gives a slab back, the
slabs of the caches lie in blocks that the buddy allocator has handed out. The freeing branch gives
each free slab back once, counts the blocks and leaves the other slabs as they are; no list mentions
a slab that has been given back iff there was no free slab. -/
theorem shrink_safe_iff {heap : HeapBounds} {space : Nat} {blockNum : Int} {ops : List SlabCall}
    (hinit : kmem_init heap 12 space blockNum = some k)
    (hrun : Run Ok SlabClient.step (boot k) ops s) :
    ∃ V, s.Inv V [] ∧ ∀ c ∈ s.handles,
      (∀ g, Linked (fun t => (s.kmem.slab t).next) ((s.kmem.cache c).first g) (V.lists c g)) ∧
      (∀ t ∈ V.slabs c, (t, (s.kmem.cache c).slabOrder) ∈ V.blocks s.kmem) ∧
      ((s.kmem.cache c).shrink ≠ 0 → ∃ n k', kmem_cache_shrink s.kmem c = some (n, k') ∧
        Shrunk s.kmem k' V c n (V.lists c .FREE) ∧
        (NoStale k' c (V.lists c .FREE) ↔ (s.kmem.cache c).slabsFree = none)) := by
  obtain ⟨V, h⟩ := run_inv (boot_inv hinit) hrun
  refine ⟨V, h, fun c hc => ?_⟩
  obtain ⟨hcm, ho, -⟩ := h.user c hc
  have hlists := (h.whole.reps c hcm).shelves.lists
  refine ⟨fun g => (hlists g).linked, fun t ht => ?_, fun hshrink => ?_⟩
  · have hmem : _ ∈ V.blocks s.kmem ++ [] := Kmem.Inv.block_mem hcm ht
    rw [List.append_nil] at hmem
    unfold Kmem.block at hmem
    rwa [if_pos ho.type] at hmem
  · obtain ⟨n, k', he, hs⟩ := h.shrunk hc hshrink
    refine ⟨n, k', he, hs, hs.noStale_iff (hlists .FREE).linked fun g hg L hL t ht hl => hg ?_⟩
    rw [Linked.unique hL (hlists g).linked] at ht
    exact (h.whole.reps c hcm).shelves.disjoint _ _ t ht hl

/-- A cache with a full, a partial and a free slab, two objects to the slab. -/
theorem shrink_safe_iff_heap128 : ∃ k s V n k',
    kmem_init Buddy.heap128 12 Buddy.heap128.startAddr 4096 = some k ∧
    Run Ok SlabClient.step (boot k)
      ([.create 2000 none none] ++ List.replicate 5 (.alloc 2147554976) ++
        [.free 2147554976 2147557456, .free 2147554976 2147565648, .shrink 2147554976]) s ∧
    s.Inv V [] ∧ (∀ g, V.lists 2147554976 g ≠ []) ∧
    kmem_cache_shrink s.kmem 2147554976 = some (n, k') ∧
    Shrunk s.kmem k' V 2147554976 n (V.lists 2147554976 .FREE) ∧
    ¬ NoStale k' 2147554976 (V.lists 2147554976 .FREE) := by
  have h : ((kmem_init Buddy.heap128 12 Buddy.heap128.startAddr 4096).bind fun k =>
      (exec Ok SlabClient.step (boot k)
        ([.create 2000 none none] ++ List.replicate 5 (.alloc 2147554976) ++
          [.free 2147554976 2147557456, .free 2147554976 2147565648, .shrink 2147554976])).bind
      fun s => if 2147554976 ∈ s.handles ∧ (s.kmem.cache 2147554976).shrink ≠ 0 ∧
        (s.kmem.cache 2147554976).slabsFree ≠ none ∧ (s.kmem.cache 2147554976).slabsPartial ≠ none ∧
        (s.kmem.cache 2147554976).slabsFull ≠ none then some () else none) = some () := by
    decide +kernel
  obtain ⟨k, hk, h⟩ := Option.bind_eq_some_iff.1 h
  obtain ⟨s, hs, h⟩ := Option.bind_eq_some_iff.1 h
  obtain ⟨⟨hc, hshrink, hfree, hpartial, hfull⟩, -⟩ := Option.ite_none_right_eq_some.1 h
  have hrun := Run.of_exec hs
  obtain ⟨V, hi, hsafe⟩ := shrink_safe_iff hk hrun
  obtain ⟨hlists, -, hbranch⟩ := hsafe _ hc
  obtain ⟨n, k', he, hshrunk, hiff⟩ := hbranch hshrink
  refine ⟨k, s, V, n, k', hk, hrun, hi, fun g hg => ?_, he, hshrunk, fun hn => hfree (hiff.1 hn)⟩
  have hnone := (Linked.none_iff (hlists g)).2 hg
  cases g with
  | FULL => exact hfull hnone
  | PARTIAL => exact hpartial hnone
  | FREE => exact hfree hnone

/-- An object is allocated and freed, and the cache shrunk. The page of its slab becomes a slab of
another cache, and the next object of the cache lies in it. -/
theorem shrink_stale : ∃ k s n k₁ t p k₂ q k₃,
    kmem_init Buddy.heap128 12 Buddy.heap128.startAddr 4096 = some k ∧
    Run Ok SlabClient.step (boot k)
      [.create 64 none none, .create 64 none none, .alloc 2147554976,
        .free 2147554976 2147557684] s ∧
    (s.kmem.cache 2147554976).shrink ≠ 0 ∧ (s.kmem.cache 2147554976).slabsFree = some t ∧
    kmem_cache_shrink s.kmem 2147554976 = some (n, k₁) ∧
    (k₁.cache 2147554976).slabsFree = some t ∧
    kmem_cache_alloc k₁ 2147555104 = some (some p, k₂) ∧
    (k₂.cache 2147555104).slabsPartial = some t ∧
    kmem_cache_alloc k₂ 2147554976 = some (some q, k₃) ∧ t ≤ q ∧ q + 64 ≤ t + blockSize := by
  have h : ((kmem_init Buddy.heap128 12 Buddy.heap128.startAddr 4096).bind fun k =>
      (exec Ok SlabClient.step (boot k)
        [.create 64 none none, .create 64 none none, .alloc 2147554976,
          .free 2147554976 2147557684]).bind fun s =>
      (s.kmem.cache 2147554976).slabsFree.bind fun t =>
      (kmem_cache_shrink s.kmem 2147554976).bind fun r₁ =>
      (kmem_cache_alloc r₁.2 2147555104).bind fun r₂ => r₂.1.bind fun _ =>
      (kmem_cache_alloc r₂.2 2147554976).bind fun r₃ => r₃.1.bind fun q =>
        if (s.kmem.cache 2147554976).shrink ≠ 0 ∧ (r₁.2.cache 2147554976).slabsFree = some t ∧
          (r₂.2.cache 2147555104).slabsPartial = some t ∧ t ≤ q ∧ q + 64 ≤ t + blockSize
        then some () else none) = some () := by
    decide +kernel
  obtain ⟨k, hk, h⟩ := Option.bind_eq_some_iff.1 h
  obtain ⟨s, hs, h⟩ := Option.bind_eq_some_iff.1 h
  obtain ⟨t, ht, h⟩ := Option.bind_eq_some_iff.1 h
  obtain ⟨⟨n, k₁⟩, hk₁, h⟩ := Option.bind_eq_some_iff.1 h
  obtain ⟨⟨_, k₂⟩, hk₂, h⟩ := Option.bind_eq_some_iff.1 h
  obtain ⟨p, rfl, h⟩ := Option.bind_eq_some_iff.1 h
  obtain ⟨⟨_, k₃⟩, hk₃, h⟩ := Option.bind_eq_some_iff.1 h
  obtain ⟨q, rfl, h⟩ := Option.bind_eq_some_iff.1 h
  obtain ⟨⟨hshrink, hstale, hslab, hle, hle'⟩, -⟩ := Option.ite_none_right_eq_some.1 h
  exact ⟨k, s, n, k₁, t, p, k₂, q, k₃, hk, .of_exec hs, hshrink, ht, hk₁, hstale, hk₂, hslab, hk₃,
    hle, hle'⟩

end SlabClient

end SlabKernel
