import Mathlib.Data.List.Perm.Subperm
import SlabKernel.Slab.Lists

/-!
# The objects of a cache

`Filled S c n s ch`: `S` is the slab at `s` of the cache `c`, with `n` slots, of which those in `ch`
are free; `ch` is the chain of indices from `free` on. `CacheRep k c L ch` is the invariant of one
cache: its slabs are filled and on the list that their free slots call for (`Level`).

An allocation takes the first index off the chain of a slab (`takePartial_spec`), a deallocation
puts one in front (`updateSlab_spec`, `putIndex_spec`). `Touched` says what they leave alone.
-/

namespace SlabKernel

open Function (update update_self update_of_ne)
open PtrList

/-! ## Slabs -/

/-- The index `n` as a link; `endIndex` ends a chain. -/
def link (n : Nat) : Ptr := if n = endIndex then none else some n

/-- `S` is the slab at `s` of the cache `c` with `objNum` slots, of which those in `ch` are free. -/
structure Filled (S : Slab) (c objNum s : Nat) (ch : List Nat) : Prop where
  owner : S.owner = some c
  freeArray : S.freeArray = s + sizeofSlab
  numOfSlots : S.numOfSlots = objNum
  numOfFreeSlots : S.numOfFreeSlots = ch.length
  chain : Linked (fun i => link (S.freeIndex i)) (link S.free) ch
  bound : ∀ i ∈ ch, i < objNum

/-- The list for a slab with `free` of `total` slots free. -/
def Level (free total : Nat) : SlabGroup → Prop
  | .FULL => free = 0
  | .PARTIAL => 0 < free ∧ free < total
  | .FREE => free = total

section
variable {S S' : Slab} {c n s i : Nat} {ch : List Nat}

theorem link_eq_some (h : link n = some i) : n = i := by
  unfold link at h
  split at h
  · cases h
  · exact Option.some.inj h

theorem link_of_lt (h : i < endIndex) : link i = some i := if_neg (Nat.ne_of_lt h)

theorem Filled.congr (h : Filled S c n s ch) (hb : S'.body = S.body) : Filled S' c n s ch := by
  unfold Slab.body at hb
  simp only [Slab.mk.injEq, true_and, and_true] at hb
  obtain ⟨h1, h2, h3, h4, h5, h6, h7⟩ := hb
  exact ⟨h1 ▸ h.owner, h4 ▸ h.freeArray, h6 ▸ h.numOfSlots, h7 ▸ h.numOfFreeSlots,
    by rw [h5, h3]; exact h.chain, h.bound⟩

theorem Filled.nodup (h : Filled S c n s ch) : ch.Nodup := Linked.nodup h.chain

theorem Filled.length_le (h : Filled S c n s ch) : ch.length ≤ n := by
  have hsub : ch ⊆ List.range n := fun i hi => List.mem_range.2 (h.bound i hi)
  simpa using (h.nodup.subperm hsub).length_le

/-- The first free slot is taken. -/
theorem Filled.take (h : Filled S c n s (i :: ch)) (hn : n < endIndex) :
    S.free = i ∧ Filled { S with
      free := S.freeIndex S.free
      numOfFreeSlots := sub64 S.numOfFreeSlots 1 } c n s ch := by
  obtain ⟨hi, hch⟩ := h.chain
  have hfree := link_eq_some hi
  have hlen := h.length_le
  refine ⟨hfree, h.owner, h.freeArray, h.numOfSlots, ?_, ?_, fun j hj => h.bound j (.tail _ hj)⟩
  · simp only [List.length_cons] at hlen
    simp only [h.numOfFreeSlots, List.length_cons]
    have : endIndex = 2 ^ 32 - 1 := rfl
    rw [sub64_of_le (by omega) (by omega)]
    omega
  · rw [hfree]
    exact hch

/-- The slot `i` becomes the first free one. -/
theorem Filled.put (h : Filled S c n s ch) (hi : i ∉ ch) (hlt : i < n) (hn : n < endIndex) :
    Filled { S with
      freeIndex := update S.freeIndex i S.free
      free := i
      numOfFreeSlots := S.numOfFreeSlots + 1 } c n s (i :: ch) := by
  refine ⟨h.owner, h.freeArray, h.numOfSlots, by simp [h.numOfFreeSlots], ?_, ?_⟩
  · have hl := Linked.push h.chain hi
    have hnext : (fun j => link (update S.freeIndex i S.free j)) =
        update (fun j => link (S.freeIndex j)) i (link S.free) := by
      funext j
      exact Function.apply_update (fun _ => link) S.freeIndex i S.free j
    rw [hnext]
    rwa [← link_of_lt (Nat.lt_trans hlt hn)] at hl
  · intro j hj
    rcases List.mem_cons.1 hj with rfl | hj
    · exact hlt
    · exact h.bound j hj

end

/-! ## Caches -/

/-- A cache without what its operations on objects change. -/
def Cache.fixed (C : Cache) : Cache := { C.body with shrink := 0, numOfSlabs := 0, error := 0 }

/-- The members of `CachePool` and the memory of the cache records. -/
def Kmem.pool (k : Kmem) := (k.record, k.freeLink, k.head, k.tail, k.cacheHead, k.cacheTail,
  k.memoryBuffers, k.memBuffSlabs)

/-- `k'` differs from `k` in the cache `c` and in slabs of `P`. -/
structure Touched (k k' : Kmem) (c : Nat) (P : Nat → Prop) : Prop where
  cache : ∀ c', c' ≠ c → k'.cache c' = k.cache c'
  fixed : (k'.cache c).fixed = (k.cache c).fixed
  slab : ∀ s, ¬ P s → k'.slab s = k.slab s
  pool : k'.pool = k.pool

/-- `k'` has the blocks of `k`. -/
structure SameBlocks (k k' : Kmem) : Prop where
  buddy : k'.buddy = k.buddy
  mem : ∀ s, (k'.slab s).mem = (k.slab s).mem

/-- The slabs of the cache `c` are filled, but need not be on the right lists. -/
structure Stocked (k : Kmem) (c : Nat) (L : SlabGroup → List Nat) (ch : Nat → List Nat) :
    Prop extends Listed k c L where
  filled : ∀ g, ∀ s ∈ L g, Filled (k.slab s) c (k.cache c).objNum s (ch s)
  numOfSlabs : (k.cache c).numOfSlabs = (slabsOf L).length
  objNum : 1 ≤ (k.cache c).objNum ∧ (k.cache c).objNum < endIndex

/-- The invariant of the cache `c` with its slabs on the lists `L` and their free slots `ch`. -/
structure CacheRep (k : Kmem) (c : Nat) (L : SlabGroup → List Nat) (ch : Nat → List Nat) :
    Prop extends Stocked k c L ch where
  level : ∀ g, ∀ s ∈ L g, Level (ch s).length (k.cache c).objNum g

variable {k k' k'' : Kmem} {c s i m : Nat} {L : SlabGroup → List Nat} {ch : Nat → List Nat}
  {ch' rest : List Nat} {g grp : SlabGroup} {P : Nat → Prop}

namespace Touched

theorem refl (k : Kmem) (c : Nat) (P : Nat → Prop) : Touched k k c P :=
  ⟨fun _ _ => rfl, rfl, fun _ _ => rfl, rfl⟩

theorem trans (h : Touched k k' c P) (h' : Touched k' k'' c P) : Touched k k'' c P :=
  ⟨fun c' hc => (h'.cache c' hc).trans (h.cache c' hc), h'.fixed.trans h.fixed,
    fun s hs => (h'.slab s hs).trans (h.slab s hs), h'.pool.trans h.pool⟩

theorem mono {P' : Nat → Prop} (h : Touched k k' c P) (hP : ∀ s, P s → P' s) :
    Touched k k' c P' :=
  ⟨h.cache, h.fixed, fun s hs => h.slab s fun hp => hs (hP s hp), h.pool⟩

theorem modSlab (k : Kmem) (c : Nat) (hs : P s) (f : Slab → Slab) :
    Touched k (k.modSlab s f) c P :=
  ⟨fun _ _ => rfl, rfl, fun u hu => update_of_ne (fun he : u = s => hu (he ▸ hs)) _ _, rfl⟩

theorem modCache (k : Kmem) (c : Nat) (P : Nat → Prop) (f : Cache → Cache)
    (hf : (f (k.cache c)).fixed = (k.cache c).fixed) : Touched k (k.modCache c f) c P :=
  ⟨fun _ hc => update_of_ne hc _ _, by rw [← hf]; simp only [Kmem.modCache, update_self],
    fun _ _ => rfl, rfl⟩

theorem of_relinked {slab' : Nat → Slab} {C' : Cache} (h : Relinked k c L slab' C') :
    Touched k { k with slab := slab', cache := update k.cache c C' } c (· ∈ slabsOf L) := by
  refine ⟨fun _ hc => update_of_ne hc _ _, ?_, fun u hu => h.frame u fun g hg => ?_, rfl⟩
  · simp only [update_self, Cache.fixed, h.cache]
  · exact hu (mem_slabsOf.2 ⟨g, hg⟩)

theorem objNum (h : Touched k k' c P) : (k'.cache c).objNum = (k.cache c).objNum :=
  (congrArg Cache.objNum h.fixed :)

theorem slotSize (h : Touched k k' c P) : (k'.cache c).slotSize = (k.cache c).slotSize :=
  (congrArg Cache.slotSize h.fixed :)

end Touched

namespace SameBlocks

theorem refl (k : Kmem) : SameBlocks k k := ⟨rfl, fun _ => rfl⟩

theorem trans (h : SameBlocks k k') (h' : SameBlocks k' k'') : SameBlocks k k'' :=
  ⟨h'.buddy.trans h.buddy, fun s => (h'.mem s).trans (h.mem s)⟩

theorem modSlab (k : Kmem) (s : Nat) {f : Slab → Slab} (hf : (f (k.slab s)).mem = (k.slab s).mem) :
    SameBlocks k (k.modSlab s f) := by
  refine ⟨rfl, fun u => ?_⟩
  by_cases hu : u = s
  · subst hu
    simpa only [Kmem.modSlab, update_self] using hf
  · simp only [Kmem.modSlab, update_of_ne hu]

theorem of_relinked {slab' : Nat → Slab} {C' : Cache} (h : Relinked k c L slab' C') :
    SameBlocks k { k with slab := slab', cache := update k.cache c C' } :=
  ⟨rfl, fun s => (congrArg Slab.mem (h.slab s) :)⟩

end SameBlocks

/-- New contents for a slab. -/
theorem Stocked.modSlab (h : Stocked k c L ch) {f : Slab → Slab}
    (hn : (f (k.slab s)).next = (k.slab s).next) (hp : (f (k.slab s)).prev = (k.slab s).prev)
    (hg : (f (k.slab s)).group = (k.slab s).group)
    (hf : Filled (f (k.slab s)) c (k.cache c).objNum s ch') :
    Stocked (k.modSlab s f) c L (update ch s ch') := by
  have hsame : ∀ u, ((k.modSlab s f).slab u).next = (k.slab u).next ∧
      ((k.modSlab s f).slab u).prev = (k.slab u).prev ∧
      ((k.modSlab s f).slab u).group = (k.slab u).group := by
    intro u
    by_cases hu : u = s
    · subst hu
      simp only [Kmem.modSlab, update_self]
      exact ⟨hn, hp, hg⟩
    · simp only [Kmem.modSlab, update_of_ne hu, and_self]
  refine { h with
    shelves := h.shelves.congr (fun _ u _ => (hsame u).1) fun _ u _ => (hsame u).2.1
    group := fun g u hu => (hsame u).2.2.trans (h.group g u hu)
    filled := fun g u hu => ?_ }
  by_cases hus : u = s
  · subst hus
    simpa only [Kmem.modSlab, update_self] using hf
  · simpa only [Kmem.modSlab, update_of_ne hus] using h.filled g u hu

theorem Stocked.move {slab' : Nat → Slab} {C' : Cache} (h : Stocked k c L ch) (hs : s ∈ L g)
    (hne : grp ≠ g)
    (hl : Listed { k with slab := slab', cache := update k.cache c C' } c (moved L g grp s))
    (hr : Relinked k c L slab' C') :
    Stocked { k with slab := slab', cache := update k.cache c C' } c (moved L g grp s) ch := by
  have hobj : C'.objNum = (k.cache c).objNum := (congrArg Cache.objNum hr.cache :)
  have hnum : C'.numOfSlabs = (k.cache c).numOfSlabs := (congrArg Cache.numOfSlabs hr.cache :)
  have hperm := moved_perm hs hne
  refine { hl with filled := fun g' u hu => ?_, numOfSlabs := ?_, objNum := ?_ }
  · obtain ⟨g₁, hg₁⟩ := mem_slabsOf.1 (hperm.mem_iff.1 (mem_slabsOf.2 ⟨g', hu⟩))
    simp only [update_self, hobj]
    exact (h.filled g₁ u hg₁).congr (hr.slab u)
  · simp only [update_self, hnum, hperm.length_eq]
    exact h.numOfSlabs
  · simp only [update_self, hobj]
    exact h.objNum

/-- The other slabs stay on their lists. -/
theorem Listed.level_move {n : Nat} (h : Listed k c L) (hs : s ∈ L g) (hne : grp ≠ g)
    (hlevel : ∀ g, ∀ u ∈ L g, u ≠ s → Level (ch u).length n g) (hgrp : Level (ch s).length n grp) :
    ∀ g', ∀ u ∈ moved L g grp s g', Level (ch u).length n g' := by
  intro g' u hu
  rcases mem_moved h.shelves.disjoint (h.shelves.lists g).nodup hs hne hu with ⟨rfl, rfl⟩ | ⟨h1, h2⟩
  · exact hgrp
  · exact hlevel g' u h1 h2

/-- The end of an allocation: the first partial slab gives its first free slot. -/
theorem takePartial_spec (h : Stocked k c L ch) (hs : (k.cache c).slabsPartial = some s)
    (hch : ch s = i :: rest) (hm : (k.slab s).mem = some m)
    (hlevel : ∀ g, ∀ u ∈ L g, u ≠ s → Level (ch u).length (k.cache c).objNum g) :
    ∃ k' L', Cache.takePartial k c = some (some (m + i * (k.cache c).slotSize), k') ∧
      CacheRep k' c L' (update ch s rest) ∧ Touched k k' c (· ∈ slabsOf L) ∧
      (slabsOf L').Perm (slabsOf L) ∧ SameBlocks k k' := by
  have hsL : s ∈ L .PARTIAL :=
    h.shelves.first_mem (show (k.cache c).first .PARTIAL = some s from hs)
  have hfill := h.filled _ s hsL
  rw [hch] at hfill
  obtain ⟨hfree, hfill'⟩ := hfill.take h.objNum.2
  have hlen := hfill.length_le
  rw [List.length_cons] at hlen
  let k₁ := k.modSlab s fun x =>
    { x with free := x.freeIndex x.free, numOfFreeSlots := sub64 x.numOfFreeSlots 1 }
  have htake : Slab.takeObject k (some s) = some (some (m + i * (k.cache c).slotSize), k₁) := by
    simp only [Slab.takeObject, hm, hfree, hfill.owner, Option.bind_eq_bind, Option.bind_some, pure,
      k₁]
  have hst₁ : Stocked k₁ c L (update ch s rest) := h.modSlab rfl rfl rfl hfill'
  have hnum : (k₁.slab s).numOfFreeSlots = rest.length := by
    simpa [k₁, Kmem.modSlab] using hfill'.numOfFreeSlots
  have hb₁ : SameBlocks k k₁ := .modSlab k s rfl
  have hlevel₁ : ∀ g, ∀ u ∈ L g, u ≠ s →
      Level (update ch s rest u).length (k₁.cache c).objNum g := fun g u hu hus => by
    rw [update_of_ne hus]
    exact hlevel g u hu hus
  have ht₁ : Touched k k₁ c (· ∈ slabsOf L) := .modSlab k c (mem_slabsOf.2 ⟨_, hsL⟩) _
  have hpart₁ : (k₁.cache c).slabsPartial = some s := hs
  unfold Cache.takePartial
  simp only [hs, htake, Option.bind_eq_bind, Option.bind_some, hpart₁, hnum]
  cases rest with
  | nil =>
    obtain ⟨slab', C', he, hl, hr⟩ := moveSlab_spec .FULL hst₁.toListed hsL
      (by decide) (by decide)
    refine ⟨_, _, ?_, ⟨hst₁.move hsL (by decide) hl hr, ?_⟩, ht₁.trans (.of_relinked hr),
      moved_perm hsL (by decide), hb₁.trans (.of_relinked hr)⟩
    · simp only [List.length_nil, if_true, he, Option.bind_some, pure]
    · have hobj : C'.objNum = (k₁.cache c).objNum := (congrArg Cache.objNum hr.cache :)
      simp only [update_self, hobj]
      exact hst₁.toListed.level_move hsL (by decide) hlevel₁ (by simp [Level])
  | cons j rest =>
    refine ⟨k₁, L, ?_, ⟨hst₁, fun g u hu => ?_⟩, ht₁, .rfl, hb₁⟩
    · simp only [List.length_cons, Nat.add_one_ne_zero, if_false, pure]
    · by_cases hus : u = s
      · subst hus
        obtain rfl := h.shelves.disjoint _ _ u hu hsL
        rw [update_self]
        rw [List.length_cons] at hlen ⊢
        exact ⟨by omega, by simp only [k₁, Kmem.modSlab]; omega⟩
      · exact hlevel₁ g u hu hus

/-- The first free slab becomes the first partial one. -/
theorem moveFree_stocked (h : Stocked k c L ch) (hs : (k.cache c).slabsFree = some s) :
    ∃ k', Cache.moveFree k c s .PARTIAL = some k' ∧ Stocked k' c (moved L .FREE .PARTIAL s) ch ∧
      (k'.cache c).slabsPartial = some s ∧ (k'.cache c).numOfSlabs = (k.cache c).numOfSlabs ∧
      Touched k k' c (· ∈ slabsOf L) ∧ SameBlocks k k' := by
  have hsL : s ∈ L .FREE := h.shelves.first_mem (show (k.cache c).first .FREE = some s from hs)
  obtain ⟨slab', C', he, hl, hr⟩ := moveFree_spec .PARTIAL h.toListed hs (by decide)
  refine ⟨_, he, h.move hsL (by decide) hl hr, ?_, ?_, .of_relinked hr, .of_relinked hr⟩
  · have := (hl.shelves.lists .PARTIAL).linked
    rw [show moved L .FREE .PARTIAL s .PARTIAL = s :: L .PARTIAL from update_self _ _ _] at this
    exact this.1
  · simp only [update_self]
    exact (congrArg Cache.numOfSlabs hr.cache :)

/-! ## New slabs -/

/-- The chain of a new slab. -/
theorem new_chain {f : Nat → Nat} {n : Nat} (hn : n < endIndex) (hpos : 1 ≤ n)
    (hf : ∀ i < n, f i = if i < n - 1 then i + 1 else endIndex) :
    Linked (fun i => link (f i)) (link 0) (List.range n) := by
  have hc : Linked (fun i => link (f i)) _ _ :=
    linked_range' (a := id) (n := n) (fun i hi => ?_) 0 n (Nat.zero_add n) hpos
  · rwa [List.map_id, ← List.range_eq_range', id_eq, ← link_of_lt (by omega)] at hc
  · simp only [id_eq, hf i hi]
    split
    · exact link_of_lt (by omega)
    · exact if_pos rfl

/-- What `initSlab` stores in a slab besides its links. -/
def Slab.init (S : Slab) (s c objNum : Nat) : Slab :=
  { S with
    numOfSlots := objNum
    numOfFreeSlots := objNum
    group := .FREE
    free := 0
    freeArray := s + sizeofSlab
    owner := some c
    freeIndex := fun i =>
      if i < objNum - 1 then i + 1 else if i = objNum - 1 then endIndex else S.freeIndex i }

theorem Slab.init_filled (S : Slab) (s c : Nat) {n : Nat} (hn : 1 ≤ n) (hn' : n < endIndex) :
    Filled (S.init s c n) c n s (List.range n) := by
  refine ⟨rfl, rfl, rfl, by simp [Slab.init], ?_, fun i hi => List.mem_range.1 hi⟩
  refine new_chain (f := (S.init s c n).freeIndex) hn' hn fun i hi => ?_
  simp only [Slab.init]
  split
  · rfl
  · rw [if_pos (by omega)]

theorem initSlab_relink {N P : Nat → Ptr} {G : Nat → SlabGroup} {C : Cache} :
    Slab.initSlab (k.relink c N P G C) s c =
      (k.relink c (update N s C.slabsFree) (setAt (update P s none) C.slabsFree (some s)) G
        { C with slabsFree := some s, numOfSlabs := C.numOfSlabs + 1 }).modSlab s
        fun S => S.init s c C.objNum := by
  simp [Slab.initSlab, Slab.init]

theorem Slab.initSlab_calls (k : Kmem) (s c : Nat) : (Slab.initSlab k s c).calls = k.calls := by
  have he := initSlab_relink (k := k) (c := c) (s := s) (N := fun s => (k.slab s).next)
    (P := fun s => (k.slab s).prev) (G := fun s => (k.slab s).group) (C := k.cache c)
  rw [Kmem.relink_self] at he
  rw [he]
  rfl

/-- `initSlab` puts a slab with all its slots free on the list of free slabs. -/
theorem initSlab_spec (h : Stocked k c L ch) (hs : ∀ g, s ∉ L g) :
    Stocked (Slab.initSlab k s c) c (update L .FREE (s :: L .FREE))
      (update ch s (List.range (k.cache c).objNum)) ∧
    (Slab.initSlab k s c).cache = update k.cache c
      { k.cache c with slabsFree := some s, numOfSlabs := (k.cache c).numOfSlabs + 1 } ∧
    ((Slab.initSlab k s c).slab s).freeArray = s + sizeofSlab ∧
    ((Slab.initSlab k s c).slab s).numOfSlots = (k.cache c).objNum ∧
    Touched k (Slab.initSlab k s c) c (fun u => u = s ∨ u ∈ slabsOf L) ∧
    SameBlocks k (Slab.initSlab k s c) := by
  have he := initSlab_relink (k := k) (c := c) (s := s) (N := fun s => (k.slab s).next)
    (P := fun s => (k.slab s).prev) (G := fun s => (k.slab s).group) (C := k.cache c)
  rw [Kmem.relink_self] at he
  have hself : (Slab.initSlab k s c).slab s = Slab.init { k.slab s with
      next := (k.cache c).slabsFree
      prev := setAt (update (fun s => (k.slab s).prev) s none) (k.cache c).slabsFree (some s) s }
      s c (k.cache c).objNum := by
    rw [he]
    simp [Kmem.modSlab, Kmem.relink]
  have hother : ∀ u, u ≠ s → (Slab.initSlab k s c).slab u = { k.slab u with
      prev := setAt (update (fun s => (k.slab s).prev) s none) (k.cache c).slabsFree (some s) u } := by
    intro u hu
    rw [he]
    simp [Kmem.modSlab, Kmem.relink, hu]
  have hcache : (Slab.initSlab k s c).cache = update k.cache c
      { k.cache c with slabsFree := some s, numOfSlabs := (k.cache c).numOfSlabs + 1 } := by
    rw [he]
    rfl
  have hfirst : ((Slab.initSlab k s c).cache c).first = update (k.cache c).first .FREE (some s) := by
    rw [hcache, update_self]
    funext g
    cases g <;> rfl
  have hobj : ((Slab.initSlab k s c).cache c).objNum = (k.cache c).objNum := by
    rw [hcache, update_self]
  have hmem : ∀ g, ∀ u ∈ update L .FREE (s :: L .FREE) g, u = s ∧ g = .FREE ∨ u ∈ L g := by
    intro g u hu
    by_cases hg : g = .FREE
    · subst hg
      rw [update_self] at hu
      exact (List.mem_cons.1 hu).imp_left fun hus => ⟨hus, rfl⟩
    · rw [update_of_ne hg] at hu
      exact .inr hu
  have hne : ∀ g, ∀ u ∈ L g, u ≠ s := fun g u hu hus => hs g (hus ▸ hu)
  refine ⟨⟨⟨?_, fun g u hu => ?_⟩, fun g u hu => ?_, ?_, hobj.symm ▸ h.objNum⟩, hcache, ?_, ?_, ?_, ?_⟩
  · rw [hfirst]
    refine (h.shelves.push (g := .FREE) hs).congr (fun g u hu => ?_) fun g u hu => ?_
    · by_cases hus : u = s
      · rw [hus, hself, update_self]
        rfl
      · rw [hother u hus, update_of_ne hus]
    · by_cases hus : u = s
      · rw [hus, hself]
        rfl
      · rw [hother u hus]
        rfl
  · rcases hmem g u hu with ⟨rfl, rfl⟩ | hu
    · rw [hself]
      rfl
    · rw [hother u (hne g u hu)]
      exact h.group g u hu
  · rw [hobj]
    rcases hmem g u hu with ⟨rfl, rfl⟩ | hu
    · rw [hself, update_self]
      exact Slab.init_filled _ _ _ h.objNum.1 h.objNum.2
    · rw [hother u (hne g u hu), update_of_ne (hne g u hu)]
      exact (h.filled g u hu).congr rfl
  · rw [hcache, update_self]
    simp only [h.numOfSlabs, slabsOf, List.length_append]
    simp
    omega
  · rw [hself]
    rfl
  · rw [hself]
    rfl
  · refine ⟨fun c' hc => ?_, ?_, fun u hu => ?_, ?_⟩
    · rw [hcache, update_of_ne hc]
    · rw [hcache, update_self]
      rfl
    · rw [not_or] at hu
      have hf : (k.cache c).slabsFree ≠ some u := fun hf =>
        hu.2 (mem_slabsOf.2 ⟨.FREE, h.shelves.first_mem hf⟩)
      rw [hother u hu.1, setAt_of_ne hf, update_of_ne hu.1]
    · rw [he]
      rfl
  · refine ⟨by rw [he]; rfl, fun u => ?_⟩
    by_cases hus : u = s
    · rw [hus, hself]
      rfl
    · rw [hother u hus]

/-! ## Deallocation -/

theorem Kmem.call_eq (k : Kmem) (fn : Ptr) (obj : Nat) :
    k.call fn obj = { k with calls := k.calls ++ fn.elim [] fun f => [(f, obj)] } := by
  cases fn with
  | none => simp only [Kmem.call, Option.elim_none, List.append_nil]
  | some f => rfl

/-- The calls of `fn`, unless it is null, on the objects of a slab from `m` on. -/
def Cache.callsOn (C : Cache) (fn : Ptr) (m : Nat) : List (Nat × Nat) :=
  fn.elim [] fun f => (List.range C.objNum).map fun i => (f, m + i * C.slotSize)

theorem Stocked.calls (h : Stocked k c L ch) (calls : List (Nat × Nat)) :
    Stocked { k with calls } c L ch := { h with }

theorem Slab.updateSlab_relisted (h : Slab.updateSlab k s = some k') : Relisted k k' := by
  have hmove : ∀ {owner : Ptr} {grp f}, (owner.bind fun c => Cache.moveSlab k c s grp).bind
      (fun k₁ => pure (k₁.modSlab s f)) = some k' → Relisted k k' := by
    intro owner grp f hm
    obtain ⟨k₁, h₁, hm⟩ := Option.bind_eq_some_iff.1 hm
    obtain ⟨c, -, h₁⟩ := Option.bind_eq_some_iff.1 h₁
    obtain rfl := Option.some.inj hm
    exact (Cache.moveSlab_relisted h₁).modSlab
  unfold Slab.updateSlab at h
  simp only [Option.bind_eq_bind] at h
  split at h
  · split at h <;> exact hmove h
  · split at h
    · exact hmove h
    · obtain rfl := Option.some.inj h
      exact (Relisted.refl k).modSlab

theorem Slab.takeObject_relisted {p r : Ptr} (h : Slab.takeObject k p = some (r, k')) :
    Relisted k k' := by
  unfold Slab.takeObject at h
  cases p with
  | none =>
    obtain rfl := (Prod.mk.inj (Option.some.inj h)).2
    exact .refl k
  | some s =>
    obtain ⟨m, -, h⟩ := Option.bind_eq_some_iff.1 h
    obtain ⟨owner, -, h⟩ := Option.bind_eq_some_iff.1 h
    obtain rfl := (Prod.mk.inj (Option.some.inj h)).2
    exact (Relisted.refl k).modSlab

theorem Cache.takePartial_relisted {r : Ptr} (h : Cache.takePartial k c = some (r, k')) :
    Relisted k k' := by
  unfold Cache.takePartial at h
  simp only [Option.bind_eq_bind] at h
  obtain ⟨⟨objp, k₁⟩, h₁, h⟩ := Option.bind_eq_some_iff.1 h
  have hr := Slab.takeObject_relisted h₁
  split at h
  · split at h
    · obtain ⟨k₂, h₂, h⟩ := Option.bind_eq_some_iff.1 h
      obtain rfl := (Prod.mk.inj (Option.some.inj h)).2
      exact hr.trans (Cache.moveSlab_relisted h₂)
    · obtain rfl := (Prod.mk.inj (Option.some.inj h)).2
      exact hr
  · obtain rfl := (Prod.mk.inj (Option.some.inj h)).2
    exact hr

theorem Slab.putIndex_relisted {p : Nat} (h : Slab.putIndex k s p = some k') : Relisted k k' := by
  unfold Slab.putIndex at h
  obtain ⟨m, -, h⟩ := Option.bind_eq_some_iff.1 h
  obtain ⟨owner, -, h⟩ := Option.bind_eq_some_iff.1 h
  obtain rfl := Option.some.inj h
  exact (Relisted.refl k).modSlab

/-- `updateSlab` moves a slab to the list for one more free slot, and counts it. -/
theorem updateSlab_spec (h : CacheRep k c L ch) (hs : s ∈ L g)
    (hlt : (ch s).length < (k.cache c).objNum) :
    ∃ k₁ L', Slab.updateSlab k s =
        some (k₁.modSlab s fun x => { x with numOfFreeSlots := x.numOfFreeSlots + 1 }) ∧
      Stocked k₁ c L' ch ∧
      (∀ g, ∀ u ∈ L' g,
        Level (if u = s then (ch s).length + 1 else (ch u).length) (k.cache c).objNum g) ∧
      Touched k k₁ c (· ∈ slabsOf L) ∧ (slabsOf L').Perm (slabsOf L) ∧ SameBlocks k k₁ ∧
      ∀ u, (k₁.slab u).body = (k.slab u).body := by
  have hf := h.filled g s hs
  have hg := h.level g s hs
  -- the slab moves from `g` to `grp`
  have hmove : ∀ grp, g ≠ .FREE → grp ≠ g →
      Level ((ch s).length + 1) (k.cache c).objNum grp →
      ∃ k₁ L', Cache.moveSlab k c s grp = some k₁ ∧ Stocked k₁ c L' ch ∧
        (∀ g, ∀ u ∈ L' g,
          Level (if u = s then (ch s).length + 1 else (ch u).length) (k.cache c).objNum g) ∧
        Touched k k₁ c (· ∈ slabsOf L) ∧ (slabsOf L').Perm (slabsOf L) ∧ SameBlocks k k₁ ∧
        ∀ u, (k₁.slab u).body = (k.slab u).body := by
    intro grp hfree hne hlevel
    obtain ⟨slab', C', he, hl, hr⟩ := moveSlab_spec grp h.toListed hs hfree hne
    refine ⟨_, _, he, h.toStocked.move hs hne hl hr, fun g' u hu => ?_, .of_relinked hr,
      moved_perm hs hne, .of_relinked hr, hr.slab⟩
    rcases mem_moved h.shelves.disjoint (h.shelves.lists g).nodup hs hne hu with ⟨rfl, rfl⟩ | ⟨h1, h2⟩
    · rwa [if_pos rfl]
    · rw [if_neg h2]
      exact h.level g' u h1
  unfold Slab.updateSlab
  simp only [hf.numOfFreeSlots, hf.numOfSlots, hf.owner, Option.bind_eq_bind, Option.bind_some,
    Option.pure_def]
  by_cases h0 : (ch s).length = 0
  · obtain rfl : g = .FULL := by
      cases g with
      | FULL => rfl
      | PARTIAL => exact absurd hg.1 (by omega)
      | FREE => exact absurd hg (by simp only [Level]; omega)
    rw [if_pos h0]
    by_cases h1 : (k.cache c).objNum = 1
    · obtain ⟨k₁, L', he, hrest⟩ := hmove .FREE (by decide) (by decide) (by simp [Level, h0, h1])
      refine ⟨k₁, L', ?_, hrest⟩
      simp only [if_pos h1, he, Option.bind_some]
    · obtain ⟨k₁, L', he, hrest⟩ := hmove .PARTIAL (by decide) (by decide)
        ⟨by omega, by have := h.objNum.1; omega⟩
      refine ⟨k₁, L', ?_, hrest⟩
      simp only [if_neg h1, he, Option.bind_some]
  · obtain rfl : g = .PARTIAL := by
      cases g with
      | FULL => exact absurd hg h0
      | PARTIAL => rfl
      | FREE => exact absurd hg (by simp only [Level]; omega)
    rw [if_neg h0]
    by_cases h1 : (ch s).length = (k.cache c).objNum - 1
    · obtain ⟨k₁, L', he, hrest⟩ := hmove .FREE (by decide) (by decide) (by
        simp only [Level]; omega)
      refine ⟨k₁, L', ?_, hrest⟩
      simp only [if_pos h1, he, Option.bind_some]
    · refine ⟨k, L, ?_, h.toStocked, fun g' u hu => ?_, .refl k c _, .rfl, .refl k, fun _ => rfl⟩
      · simp only [if_neg h1]
      · by_cases hus : u = s
        · subst hus
          obtain rfl := h.shelves.disjoint _ _ u hu hs
          rw [if_pos rfl]
          exact ⟨by omega, by omega⟩
        · rw [if_neg hus]
          exact h.level g' u hu

/-- The index that `putIndex` computes. -/
theorem putIndex_index {p slotSize : Nat} (hp : p = m + i * slotSize) (hsize : 1 ≤ slotSize)
    (hp64 : i * slotSize < 2 ^ 64) (hi : i < endIndex) :
    sub64 p m / slotSize % 2 ^ 32 = i := by
  have hle : m ≤ p := by omega
  have hend : endIndex < 2 ^ 32 := by decide
  rw [sub64_of_le hle (by omega), hp, Nat.add_sub_cancel_left, Nat.mul_div_cancel _ hsize]
  exact Nat.mod_eq_of_lt (Nat.lt_trans hi hend)

/-- The end of a deallocation: the slot `i` at `p` becomes the first free one. -/
theorem putIndex_spec {p : Nat} (h : Stocked k c L ch) (hs : s ∈ L g) (hm : (k.slab s).mem = some m)
    (hi : i ∉ ch s) (hlt : i < (k.cache c).objNum) (hp : p = m + i * (k.cache c).slotSize)
    (hsize : 1 ≤ (k.cache c).slotSize) (hp64 : i * (k.cache c).slotSize < 2 ^ 64) :
    ∃ k', Slab.putIndex
        (k.modSlab s fun x => { x with numOfFreeSlots := x.numOfFreeSlots + 1 }) s p = some k' ∧
      Stocked k' c L (update ch s (i :: ch s)) ∧ Touched k k' c (· ∈ slabsOf L) ∧
      SameBlocks k k' ∧ ∀ u, u ≠ s → k'.slab u = k.slab u := by
  have hf := h.filled g s hs
  have hput := hf.put hi hlt h.objNum.2
  have hindex := putIndex_index hp hsize hp64 (Nat.lt_trans hlt h.objNum.2)
  refine ⟨_, ?_, h.modSlab (f := fun x => { x with
      freeIndex := update x.freeIndex i x.free
      free := i
      numOfFreeSlots := x.numOfFreeSlots + 1 }) rfl rfl rfl hput,
    .modSlab k c (mem_slabsOf.2 ⟨g, hs⟩) _, .modSlab k s rfl, fun u hu => update_of_ne hu _ _⟩
  simp only [Slab.putIndex, Kmem.modSlab, update_self, hm, hf.owner, hindex, Function.update_idem,
    Option.bind_eq_bind, Option.bind_some, Option.pure_def]

/-- A live slot goes back to its slab: `updateSlab`, and `putIndex` after any calls. -/
theorem putSlot_spec {p : Nat} (h : CacheRep k c L ch) (hs : s ∈ L g)
    (hm : (k.slab s).mem = some m) (hi : i ∉ ch s) (hlt : i < (k.cache c).objNum)
    (hp : p = m + i * (k.cache c).slotSize) (hsize : 1 ≤ (k.cache c).slotSize)
    (hp64 : i * (k.cache c).slotSize < 2 ^ 64) :
    ∃ k₁, Slab.updateSlab k s = some k₁ ∧ (k₁.slab s).owner = some c ∧
      ∀ calls, ∃ k' L', Slab.putIndex { k₁ with calls } s p = some k' ∧
        CacheRep k' c L' (update ch s (i :: ch s)) ∧ Touched k k' c (· ∈ slabsOf L) ∧
        (slabsOf L').Perm (slabsOf L) ∧ SameBlocks k k' ∧
        ∀ u, u ≠ s → (k'.slab u).body = (k.slab u).body := by
  have hf := h.filled g s hs
  have hlen := (hf.put hi hlt h.objNum.2).length_le
  rw [List.length_cons] at hlen
  obtain ⟨k₁, L', hu, hst, hlevel, ht₁, hperm, hb₁, hbody⟩ := updateSlab_spec h hs hlen
  obtain ⟨g', hg'⟩ := mem_slabsOf.1 (hperm.mem_iff.2 (mem_slabsOf.2 ⟨g, hs⟩))
  have howner := (hst.filled g' s hg').owner
  refine ⟨_, hu, by simpa [Kmem.modSlab] using howner, fun calls => ?_⟩
  obtain ⟨k', he, hst', ht', hb', hsame⟩ := putIndex_spec (hst.calls calls) hg'
    (show (k₁.slab s).mem = some m from (hb₁.mem s).trans hm) hi (ht₁.objNum ▸ hlt)
    (show p = m + i * (k₁.cache c).slotSize by rw [ht₁.slotSize]; exact hp)
    (show 1 ≤ (k₁.cache c).slotSize by rw [ht₁.slotSize]; exact hsize)
    (show i * (k₁.cache c).slotSize < 2 ^ 64 by rw [ht₁.slotSize]; exact hp64)
  have hto : Touched k₁ { k₁ with calls } c (· ∈ slabsOf L) :=
    ⟨fun _ _ => rfl, rfl, fun _ _ => rfl, rfl⟩
  have ht'' := ht'.mono fun u hu => hperm.mem_iff.1 hu
  have hobj : (k'.cache c).objNum = (k.cache c).objNum := ht''.objNum.trans ht₁.objNum
  refine ⟨k', L', he, ⟨hst', fun g u hu => ?_⟩, (ht₁.trans hto).trans ht'', hperm,
    ⟨hb'.buddy.trans hb₁.buddy, fun u => (hb'.mem u).trans (hb₁.mem u)⟩,
    fun u hu => (congrArg Slab.body (hsame u hu)).trans (hbody u)⟩
  have hl := hlevel g u hu
  rw [hobj]
  by_cases hus : u = s
  · subst hus
    rw [if_pos rfl] at hl
    rwa [update_self, List.length_cons]
  · rw [if_neg hus] at hl
    rwa [update_of_ne hus]

/-- A live object goes back to its slab. -/
theorem putObject_spec {p : Nat} (h : CacheRep k c L ch) (hs : s ∈ L g)
    (hm : (k.slab s).mem = some m) (hi : i ∉ ch s) (hlt : i < (k.cache c).objNum)
    (hp : p = m + i * (k.cache c).slotSize) (hsize : 1 ≤ (k.cache c).slotSize)
    (hp64 : i * (k.cache c).slotSize < 2 ^ 64) (hhead : p / blockSize * blockSize = s) :
    ∃ k' L', Slab.putObject k p c = some k' ∧ CacheRep k' c L' (update ch s (i :: ch s)) ∧
      Touched k k' c (· ∈ slabsOf L) ∧ (slabsOf L').Perm (slabsOf L) ∧ SameBlocks k k' ∧
      k'.calls = k.calls ++ ((k.cache c).dtor.elim [] fun f => [(f, p)]) ++
        ((k.cache c).ctor.elim [] fun f => [(f, p)]) := by
  obtain ⟨k₁, hu, howner, hput⟩ := putSlot_spec h hs hm hi hlt hp hsize hp64
  have hr₁ := Slab.updateSlab_relisted hu
  have hctor : (k₁.cache c).ctor = (k.cache c).ctor := (congrArg Cache.ctor (hr₁.body c) :)
  have hdtor : (k₁.cache c).dtor = (k.cache c).dtor := (congrArg Cache.dtor (hr₁.body c) :)
  obtain ⟨calls₁, h₁, hc₁⟩ : ∃ calls, k₁.call (k₁.cache c).dtor p = { k₁ with calls } ∧
      calls = k.calls ++ (k.cache c).dtor.elim [] fun f => [(f, p)] :=
    ⟨_, Kmem.call_eq _ _ _, by rw [hr₁.calls, hdtor]⟩
  obtain ⟨calls₂, h₂, hc₂⟩ : ∃ calls, ({ k₁ with calls := calls₁ } : Kmem).call (k₁.cache c).ctor p =
      { k₁ with calls } ∧ calls = calls₁ ++ (k.cache c).ctor.elim [] fun f => [(f, p)] :=
    ⟨_, Kmem.call_eq _ _ _, by rw [hctor]⟩
  obtain ⟨k', L', he, hrep, ht, hperm, hb, -⟩ := hput calls₂
  refine ⟨k', L', ?_, hrep, ht, hperm, hb, ?_⟩
  · unfold Slab.putObject
    simp only [hhead, (h.filled g s hs).owner, ne_eq, not_true_eq_false, if_false, hu,
      Option.bind_eq_bind, Option.bind_some, howner, h₁, h₂]
    exact he
  · rw [(Slab.putIndex_relisted he).calls, hc₂, hc₁]

/-- An object of another cache changes nothing but the error. -/
theorem putObject_wrong {p : Nat} (h : (k.slab (p / blockSize * blockSize)).owner ≠ some c) :
    Slab.putObject k p c = some (k.setError c (-3)) := by
  unfold Slab.putObject
  simp only [if_pos h, pure]

end SlabKernel
