import SlabKernel.Slab.Objects

/-!
# Allocation from a cache

`cacheAlloc` makes sure that there is a partial slab and takes its first free slot. If the cache has
a slab with a free slot, nothing else is needed (`alloc_old`). Else it grows by a slab
(`grow_spec`), which an object cache gets from the buddy allocator (`alloc_new`).
-/

namespace SlabKernel

open Function (update update_self update_of_ne update_idem update_eq_self)
open PtrList

variable {k k' : Kmem} {c s m order : Nat} {L : SlabGroup → List Nat} {ch : Nat → List Nat}

/-! ## A slab with a free slot -/

/-- A cache that has a slab with a free slot makes it the first partial one. -/
theorem refill_old (h : CacheRep k c L ch)
    (hold : ¬ ((k.cache c).slabsPartial = none ∧ (k.cache c).slabsFree = none))
    (slabAlloc : Kmem → Nat → Option Kmem) :
    ∃ s k₁ L₁, s ∈ slabsOf L ∧ ch s ≠ [] ∧ Cache.refill slabAlloc k c = some k₁ ∧
      Stocked k₁ c L₁ ch ∧ (k₁.cache c).slabsPartial = some s ∧
      (k₁.cache c).numOfSlabs = (k.cache c).numOfSlabs ∧
      (∀ g, ∀ u ∈ L₁ g, u ≠ s → Level (ch u).length (k₁.cache c).objNum g) ∧
      Touched k k₁ c (· ∈ slabsOf L) ∧ (slabsOf L₁).Perm (slabsOf L) ∧ SameBlocks k k₁ ∧
      k₁.calls = k.calls := by
  unfold Cache.refill
  rw [if_neg hold]
  cases hp : (k.cache c).slabsPartial with
  | some s =>
    have hs : s ∈ L .PARTIAL :=
      h.shelves.first_mem (show (k.cache c).first .PARTIAL = some s from hp)
    refine ⟨s, k, L, mem_slabsOf.2 ⟨_, hs⟩, ?_, rfl, h.toStocked, hp, rfl,
      fun g u hu _ => h.level g u hu, .refl k c _, .rfl, .refl k, rfl⟩
    exact List.ne_nil_of_length_pos (h.level _ s hs).1
  | none =>
    cases hf : (k.cache c).slabsFree with
    | none => exact absurd ⟨hp, hf⟩ hold
    | some s =>
      have hs : s ∈ L .FREE :=
        h.shelves.first_mem (show (k.cache c).first .FREE = some s from hf)
      obtain ⟨k₁, he, hst, hpart, hnum, ht, hb⟩ := moveFree_stocked h.toStocked hf
      have hlen : (ch s).length = (k.cache c).objNum := h.level _ s hs
      have hpos := h.objNum.1
      refine ⟨s, k₁, _, mem_slabsOf.2 ⟨_, hs⟩, List.ne_nil_of_length_pos (by omega), he, hst, hpart,
        hnum, fun g u hu hus => ?_, ht, moved_perm hs (by decide), hb,
        (Cache.moveFree_relisted he).calls⟩
      rw [ht.objNum]
      exact h.level g u ((mem_moved h.shelves.disjoint (h.shelves.lists _).nodup hs (by decide)
        hu).resolve_left fun he => hus he.1).1

/-- The allocation takes the first free slot of a slab. -/
theorem alloc_old (h : CacheRep k c L ch) (hmem : ∀ s ∈ slabsOf L, (k.slab s).mem ≠ none)
    (hold : ¬ ((k.cache c).slabsPartial = none ∧ (k.cache c).slabsFree = none)) (n : Nat) :
    ∃ s i rest m k' L', s ∈ slabsOf L ∧ ch s = i :: rest ∧ (k.slab s).mem = some m ∧
      Cache.cacheAllocDepth (n + 1) k c = some (some (m + i * (k.cache c).slotSize), k') ∧
      CacheRep k' c L' (update ch s rest) ∧ Touched k k' c (· ∈ slabsOf L) ∧
      (slabsOf L').Perm (slabsOf L) ∧ SameBlocks k k' ∧ k'.calls = k.calls := by
  obtain ⟨s, k₁, L₁, hs, hne, hprep, hst, hpart, hnum, hlevel, ht, hperm, hb, hcalls⟩ :=
    refill_old h hold (Cache.slabAlloc (Cache.cacheAllocDepth n))
  obtain ⟨i, rest, hch⟩ := List.exists_cons_of_ne_nil hne
  obtain ⟨m, hm⟩ := Option.ne_none_iff_exists'.1 (hmem s hs)
  obtain ⟨k', L', he, hrep, ht', hperm', hb'⟩ :=
    takePartial_spec hst hpart hch ((hb.mem s).trans hm) hlevel
  refine ⟨s, i, rest, m, k', L', hs, hch, hm, ?_, hrep,
    ht.trans (ht'.mono fun u hu => hperm.mem_iff.1 hu), hperm'.trans hperm, hb.trans hb',
    (Cache.takePartial_relisted he).calls.trans hcalls⟩
  have hgrow : ¬ ((k₁.cache c).numOfSlabs > (k.cache c).numOfSlabs ∧
      (k₁.cache c).numOfSlabs > 1) := by
    rw [hnum]
    exact fun hgt => Nat.lt_irrefl _ hgt.1
  unfold Cache.cacheAllocDepth
  simp only [hprep, Option.bind_eq_bind, Option.bind_some, if_neg hgrow, he, ht.slotSize]

/-! ## A new slab -/

theorem Stocked.modCache (h : Stocked k c L ch) {f : Cache → Cache}
    (hfirst : (f (k.cache c)).first = (k.cache c).first)
    (hobj : (f (k.cache c)).objNum = (k.cache c).objNum)
    (hnum : (f (k.cache c)).numOfSlabs = (k.cache c).numOfSlabs) :
    Stocked (k.modCache c f) c L ch := by
  refine ⟨⟨?_, h.group⟩, fun g u hu => ?_, ?_, ?_⟩
  · have := h.shelves
    simp only [Kmem.modCache, update_self, hfirst]
    exact this
  · simp only [Kmem.modCache, update_self, hobj]
    exact h.filled g u hu
  · simp only [Kmem.modCache, update_self, hnum]
    exact h.numOfSlabs
  · simp only [Kmem.modCache, update_self, hobj]
    exact h.objNum

/-- The slabs after a new one has become the first partial one. -/
theorem grown_perm (L : SlabGroup → List Nat) (s : Nat) :
    (slabsOf (moved (update L .FREE (s :: L .FREE)) .FREE .PARTIAL s)).Perm (s :: slabsOf L) := by
  apply (moved_perm (by rw [update_self]; exact .head _) (by decide)).trans
  simp only [slabsOf]
  exact List.perm_middle

/-- A new slab at `s` with its objects from `m` on becomes the first partial one. -/
theorem grow_spec (h : CacheRep k c L ch) (hs : ∀ g, s ∉ L g) (m : Nat) (calls : List (Nat × Nat)) :
    ∃ k₁, Cache.moveFree { (Slab.initSlab k s c).modSlab s fun x => { x with mem := some m } with
        calls } c s .PARTIAL = some k₁ ∧
      Stocked k₁ c (moved (update L .FREE (s :: L .FREE)) .FREE .PARTIAL s)
        (update ch s (List.range (k.cache c).objNum)) ∧
      (k₁.cache c).slabsPartial = some s ∧
      (k₁.cache c).numOfSlabs = (k.cache c).numOfSlabs + 1 ∧
      (∀ g, ∀ u ∈ moved (update L .FREE (s :: L .FREE)) .FREE .PARTIAL s g, u ≠ s →
        Level (update ch s (List.range (k.cache c).objNum) u).length (k₁.cache c).objNum g) ∧
      Touched k k₁ c (fun u => u = s ∨ u ∈ slabsOf L) ∧ k₁.buddy = k.buddy ∧
      ∀ u, (k₁.slab u).mem = if u = s then some m else (k.slab u).mem := by
  obtain ⟨hst, hcache, -, -, ht, hb⟩ := initSlab_spec h.toStocked hs
  have hsL : s ∈ update L .FREE (s :: L .FREE) .FREE := by
    rw [update_self]
    exact .head _
  have hf := hst.filled _ s hsL
  rw [update_self] at hf
  have hst₂ := (hst.modSlab (f := fun x => { x with mem := some m }) rfl rfl rfl
    { hf with }).calls calls
  rw [update_idem] at hst₂
  have hfree : (((Slab.initSlab k s c).modSlab s fun x => { x with mem := some m }).cache
      c).slabsFree = some s := by
    simp only [Kmem.modSlab, hcache, update_self]
  obtain ⟨k₁, he, hst₃, hpart, hnum, ht₃, hb₃⟩ := moveFree_stocked hst₂ hfree
  have ht₂ : Touched (Slab.initSlab k s c)
      { (Slab.initSlab k s c).modSlab s fun x => { x with mem := some m } with calls } c
      (fun u => u = s ∨ u ∈ slabsOf L) := by
    have := Touched.modSlab (P := fun u => u = s ∨ u ∈ slabsOf L) (Slab.initSlab k s c) c
      (.inl rfl) fun x => { x with mem := some m }
    exact ⟨this.cache, this.fixed, this.slab, this.pool⟩
  have ht₁ : Touched k k₁ c (fun u => u = s ∨ u ∈ slabsOf L) := by
    refine (ht.trans ht₂).trans (ht₃.mono fun u hu => ?_)
    obtain ⟨g, hg⟩ := mem_slabsOf.1 hu
    by_cases hgf : g = .FREE
    · subst hgf
      rw [update_self] at hg
      exact (List.mem_cons.1 hg).imp_right fun hu => mem_slabsOf.2 ⟨_, hu⟩
    · rw [update_of_ne hgf] at hg
      exact .inr (mem_slabsOf.2 ⟨g, hg⟩)
  refine ⟨k₁, he, hst₃, hpart, hnum.trans ?_, fun g u hu hus => ?_, ht₁, ?_, fun u => ?_⟩
  · simp only [Kmem.modSlab, hcache, update_self]
  · rw [ht₁.objNum, update_of_ne hus]
    have hu' := ((mem_moved hst₂.shelves.disjoint (hst₂.shelves.lists _).nodup hsL (by decide)
      hu).resolve_left fun he => hus he.1).1
    by_cases hgf : g = .FREE
    · subst hgf
      rw [update_self] at hu'
      exact h.level _ u ((List.mem_cons.1 hu').resolve_left hus)
    · rw [update_of_ne hgf] at hu'
      exact h.level g u hu'
  · exact hb₃.buddy.trans hb.buddy
  · rw [hb₃.mem]
    by_cases hus : u = s
    · subst hus
      simp [Kmem.modSlab]
    · simp only [Kmem.modSlab, update_of_ne hus, if_neg hus]
      exact hb.mem u

/-- The end of an allocation from a cache that has grown. -/
theorem take_grown
    (hst : Stocked k c (moved (update L .FREE (s :: L .FREE)) .FREE .PARTIAL s)
      (update ch s (List.range (k.cache c).objNum)))
    (hpart : (k.cache c).slabsPartial = some s) (hm : (k.slab s).mem = some m)
    (hlevel : ∀ g, ∀ u ∈ moved (update L .FREE (s :: L .FREE)) .FREE .PARTIAL s g, u ≠ s →
      Level (update ch s (List.range (k.cache c).objNum) u).length (k.cache c).objNum g)
    (old : Nat) :
    ∃ k' L', Cache.takePartial (if (k.cache c).numOfSlabs > old ∧ (k.cache c).numOfSlabs > 1 then
        k.modCache c fun x => { x with shrink := 0 } else k) c = some (some m, k') ∧
      CacheRep k' c L' (update ch s (List.range' 1 ((k.cache c).objNum - 1))) ∧
      Touched k k' c (fun u => u = s ∨ u ∈ slabsOf L) ∧ (slabsOf L').Perm (s :: slabsOf L) ∧
      SameBlocks k k' ∧ k'.calls = k.calls := by
  have hperm := grown_perm L s
  -- the flag is not part of the invariant
  obtain ⟨k₁, hk₁, hst₁, ht₁, hb₁, hpart₁, hm₁, hcalls₁⟩ : ∃ k₁,
      (if (k.cache c).numOfSlabs > old ∧ (k.cache c).numOfSlabs > 1 then
        k.modCache c fun x => { x with shrink := 0 } else k) = k₁ ∧
      Stocked k₁ c (moved (update L .FREE (s :: L .FREE)) .FREE .PARTIAL s)
        (update ch s (List.range (k.cache c).objNum)) ∧
      Touched k k₁ c (fun u => u = s ∨ u ∈ slabsOf L) ∧ SameBlocks k k₁ ∧
      (k₁.cache c).slabsPartial = some s ∧ (k₁.slab s).mem = some m ∧ k₁.calls = k.calls := by
    split
    · exact ⟨_, rfl, hst.modCache rfl rfl rfl, .modCache k c _ _ rfl, ⟨rfl, fun _ => rfl⟩,
        by simpa only [Kmem.modCache, update_self] using hpart, hm, rfl⟩
    · exact ⟨_, rfl, hst, .refl k c _, .refl k, hpart, hm, rfl⟩
  have hrange : List.range (k.cache c).objNum = 0 :: List.range' 1 ((k.cache c).objNum - 1) := by
    have hpos := hst.objNum.1
    rw [List.range_eq_range']
    obtain ⟨n, hn⟩ : ∃ n, (k.cache c).objNum = n + 1 := ⟨_, (Nat.sub_add_cancel hpos).symm⟩
    rw [hn, List.range'_succ, Nat.add_sub_cancel]
  obtain ⟨k', L', he, hrep, ht', hperm', hb'⟩ := takePartial_spec hst₁ hpart₁
    (by rw [update_self, hrange]) hm₁ (ht₁.objNum ▸ hlevel)
  rw [update_idem] at hrep
  refine ⟨k', L', ?_, hrep, ht₁.trans (ht'.mono fun u hu => ?_), hperm'.trans hperm, hb₁.trans hb',
    (Cache.takePartial_relisted he).calls.trans hcalls₁⟩
  · rw [hk₁, he, Nat.zero_mul, Nat.add_zero]
  · exact List.mem_cons.1 (hperm.mem_iff.1 hu)

/-! ## Object caches -/

/-- The constructor runs on the objects of a new slab. -/
theorem construct_calls (k : Kmem) (c mem : Nat) (is : List Nat) :
    is.foldl (fun k i => k.call (k.cache c).ctor (mem + i * (k.cache c).slotSize)) k =
      { k with calls := k.calls ++ (k.cache c).ctor.elim [] fun f =>
          is.map fun i => (f, mem + i * (k.cache c).slotSize) } := by
  induction is generalizing k with
  | nil => cases (k.cache c).ctor <;>
      simp only [List.foldl_nil, List.map_nil, Option.elim, List.append_nil]
  | cons i is ih =>
    rw [List.foldl_cons, ih, Kmem.call_eq]
    cases (k.cache c).ctor with
    | none => simp only [Option.elim_none, List.append_nil]
    | some f =>
      simp only [Option.elim_some, List.map_cons, List.append_assoc, List.cons_append,
        List.nil_append]

/-- The allocation takes the first slot of a new slab. -/
theorem alloc_new {p : Nat} {buddy : Buddy} (h : CacheRep k c L ch) (htype : (k.cache c).type = 0)
    (hnew : (k.cache c).slabsPartial = none ∧ (k.cache c).slabsFree = none)
    (hb : k.buddy.alloc (k.cache c).slabOrder = (some p, buddy)) (hp : ∀ g, p ∉ L g) (n : Nat) :
    ∃ m k' L', m = p + sizeofSlab + 4 * (k.cache c).objNum ∧
      Cache.cacheAllocDepth (n + 1) k c = some (some m, k') ∧
      CacheRep k' c L' (update ch p (List.range' 1 ((k.cache c).objNum - 1))) ∧
      Touched k k' c (fun u => u = p ∨ u ∈ slabsOf L) ∧ (slabsOf L').Perm (p :: slabsOf L) ∧
      k'.buddy = buddy ∧ (∀ u, (k'.slab u).mem = if u = p then some m else (k.slab u).mem) ∧
      k'.calls = k.calls ++ (k.cache c).callsOn (k.cache c).ctor m := by
  have h₀ : CacheRep { k with buddy } c L ch := { h with }
  obtain ⟨-, hcache, hfa, hns, -, -⟩ := initSlab_spec h₀.toStocked hp
  have hcalls := construct_calls ((Slab.initSlab { k with buddy } p c).modSlab p fun x =>
    { x with mem := some (p + sizeofSlab + 4 * (k.cache c).objNum) }) c
    (p + sizeofSlab + 4 * (k.cache c).objNum) (List.range (k.cache c).objNum)
  obtain ⟨k₁, he, hst, hpart, hnum, hlevel, ht, hb₁, hmem⟩ :=
    grow_spec h₀ hp (p + sizeofSlab + 4 * (k.cache c).objNum) _
  have hcreate : Cache.slabAlloc (Cache.cacheAllocDepth n) k c = some k₁ := by
    unfold Cache.slabAlloc Slab.createSlab
    have hobj : (((Slab.initSlab { k with buddy } p c).modSlab p fun x =>
        { x with mem := some (p + sizeofSlab + 4 * (k.cache c).objNum) }).cache c).objNum =
        (k.cache c).objNum := by
      simp only [Kmem.modSlab, hcache, update_self]
    simp only [if_pos htype, hb, hfa, hns, hobj, hcalls]
    exact he
  have hcalls₁ : k₁.calls = k.calls ++ (k.cache c).callsOn (k.cache c).ctor
      (p + sizeofSlab + 4 * (k.cache c).objNum) := by
    rw [(Cache.moveFree_relisted he).calls]
    simp only [Kmem.modSlab, hcache, update_self, Slab.initSlab_calls, Cache.callsOn]
  have hobj₁ : (k₁.cache c).objNum = (k.cache c).objNum := ht.objNum
  rw [← hobj₁] at hst hlevel
  have hm : (k₁.slab p).mem = some (p + sizeofSlab + 4 * (k.cache c).objNum) := by
    rw [hmem, if_pos rfl]
  obtain ⟨k', L', he', hrep, ht', hperm, hb', hcalls'⟩ :=
    take_grown hst hpart hm hlevel (k.cache c).numOfSlabs
  rw [hobj₁] at hrep
  refine ⟨_, k', L', rfl, ?_, hrep, ⟨?_, ?_, ?_, ?_⟩, hperm, hb'.buddy.trans hb₁, fun u => ?_,
    hcalls'.trans hcalls₁⟩
  · unfold Cache.cacheAllocDepth Cache.refill
    simp only [if_pos hnew, hcreate, Option.bind_eq_bind, Option.bind_some, he']
  · exact fun c' hc => (ht'.cache c' hc).trans (ht.cache c' hc)
  · exact ht'.fixed.trans ht.fixed
  · exact fun u hu => (ht'.slab u hu).trans (ht.slab u hu)
  · exact ht'.pool.trans ht.pool
  · exact (hb'.mem u).trans (hmem u)

/-- There is no object without a slab. -/
theorem takePartial_none (hpart : (k.cache c).slabsPartial = none) :
    Cache.takePartial k c = some (none, k) := by
  unfold Cache.takePartial
  simp only [hpart, Slab.takeObject, Option.bind_eq_bind, Option.bind_some, pure]

/-- The allocation fails if the cache cannot grow. -/
theorem alloc_failed {err : Int} {n : Nat}
    (hnew : (k.cache c).slabsPartial = none ∧ (k.cache c).slabsFree = none)
    (hgrow : Cache.slabAlloc (Cache.cacheAllocDepth n) k c = some (k'.setError c err))
    (hc : k'.cache c = k.cache c) :
    Cache.cacheAllocDepth (n + 1) k c = some (none, k'.setError c err) := by
  have hcache : (k'.setError c err).cache c = { k.cache c with error := err } := by
    simp only [Kmem.setError, Kmem.modCache, update_self, hc]
  unfold Cache.cacheAllocDepth Cache.refill
  simp only [if_pos hnew, hgrow, Option.bind_eq_bind, Option.bind_some, hcache]
  rw [if_neg fun hgt => Nat.lt_irrefl _ hgt.1]
  exact takePartial_none (by rw [hcache]; exact hnew.1)

/-! ## Buffer caches -/

/-- A cache without its links in the list of caches. -/
def Cache.unlinked (C : Cache) : Cache := { C with next := none, prev := none }

theorem Cache.first_congr {C C' : Cache} (h : C'.unlinked = C.unlinked) : C'.first = C.first := by
  funext g
  cases g with
  | FULL => exact (congrArg Cache.slabsFull h :)
  | PARTIAL => exact (congrArg Cache.slabsPartial h :)
  | FREE => exact (congrArg Cache.slabsFree h :)

/-- The invariant of a cache is about the cache and its slabs only. -/
theorem CacheRep.frame (h : CacheRep k c L ch) {ch' : Nat → List Nat}
    (hc : (k'.cache c).unlinked = (k.cache c).unlinked)
    (hs : ∀ s ∈ slabsOf L, k'.slab s = k.slab s) (hch : ∀ s ∈ slabsOf L, ch' s = ch s) :
    CacheRep k' c L ch' := by
  have hfirst := Cache.first_congr hc
  have hobj : (k'.cache c).objNum = (k.cache c).objNum := (congrArg Cache.objNum hc :)
  have hnum : (k'.cache c).numOfSlabs = (k.cache c).numOfSlabs := (congrArg Cache.numOfSlabs hc :)
  have hs' : ∀ g, ∀ s ∈ L g, k'.slab s = k.slab s := fun g s hg => hs s (mem_slabsOf.2 ⟨g, hg⟩)
  have hch' : ∀ g, ∀ s ∈ L g, ch' s = ch s := fun g s hg => hch s (mem_slabsOf.2 ⟨g, hg⟩)
  refine ⟨⟨⟨?_, fun g s hg => ?_⟩, fun g s hg => ?_, hnum ▸ h.numOfSlabs, hobj ▸ h.objNum⟩,
    fun g s hg => ?_⟩
  · rw [hfirst]
    exact h.shelves.congr (fun g s hg => congrArg Slab.next (hs' g s hg)) fun g s hg =>
      congrArg Slab.prev (hs' g s hg)
  · rw [hs' g s hg]
    exact h.group g s hg
  · rw [hs' g s hg, hch' g s hg, hobj]
    exact h.filled g s hg
  · rw [hch' g s hg, hobj]
    exact h.level g s hg

/-- The allocation takes the first slot of a new slab, whose descriptor is at `s`. -/
theorem alloc_buffer {k₁ : Kmem} {d n : Nat} {buddy : Buddy} (htype : (k.cache c).type ≠ 0)
    (hnew : (k.cache c).slabsPartial = none ∧ (k.cache c).slabsFree = none)
    (hd : k.memBuffSlabs (CachePool.getPowerOfTwo (k.cache c).slotSize) = some d)
    (hdesc : Cache.cacheAllocDepth n k d = some (some s, k₁)) (h : CacheRep k₁ c L ch)
    (hc : k₁.cache c = k.cache c)
    (hb : k₁.buddy.alloc (k.cache c).slabOrder = (some m, buddy)) (hs : ∀ g, s ∉ L g) :
    ∃ k' L', Cache.cacheAllocDepth (n + 1) k c = some (some m, k') ∧
      CacheRep k' c L' (update ch s (List.range' 1 ((k.cache c).objNum - 1))) ∧
      Touched k₁ k' c (fun u => u = s ∨ u ∈ slabsOf L) ∧ (slabsOf L').Perm (s :: slabsOf L) ∧
      k'.buddy = buddy ∧ ∀ u, (k'.slab u).mem = if u = s then some m else (k₁.slab u).mem := by
  let k₂ := { k₁ with buddy }.modSlab s fun x => { x with mem := some m }
  have h₂ : CacheRep k₂ c L ch := h.frame rfl (fun u hu => update_of_ne (fun he : u = s => by
    obtain ⟨g, hg⟩ := mem_slabsOf.1 hu
    exact hs g (he ▸ hg)) _ _) fun _ _ => rfl
  have hmem₂ : ∀ u, (k₂.slab u).mem = if u = s then some m else (k₁.slab u).mem := by
    intro u
    by_cases hus : u = s
    · subst hus
      simp [k₂, Kmem.modSlab]
    · simp only [k₂, Kmem.modSlab, update_of_ne hus, if_neg hus]
  obtain ⟨-, -, -, -, -, hb₂⟩ := initSlab_spec h₂.toStocked hs
  have hself : { (Slab.initSlab k₂ s c).modSlab s fun x => { x with mem := some m } with
      calls := (Slab.initSlab k₂ s c).calls } = Slab.initSlab k₂ s c := by
    have hm : ((Slab.initSlab k₂ s c).slab s).mem = some m := by
      rw [hb₂.mem, hmem₂, if_pos rfl]
    unfold Kmem.modSlab
    rw [← hm, update_eq_self]
  obtain ⟨k₃, he, hst, hpart, hnum, hlevel, ht, hbd, hmem⟩ :=
    grow_spec h₂ hs m (Slab.initSlab k₂ s c).calls
  rw [hself] at he
  have hcreate : Cache.slabAlloc (Cache.cacheAllocDepth n) k c = some k₃ := by
    unfold Cache.slabAlloc Slab.createBufferSlab
    simp only [if_neg htype, hd, hdesc, Option.bind_eq_bind, Option.bind_some, hb]
    exact he
  have hobj : (k₃.cache c).objNum = (k.cache c).objNum := by
    rw [ht.objNum]
    exact congrArg Cache.objNum hc
  have hobj₂ : (k₂.cache c).objNum = (k₃.cache c).objNum := ht.objNum.symm
  rw [hobj₂] at hst hlevel
  obtain ⟨k', L', he', hrep, ht', hperm, hb', -⟩ := take_grown hst hpart
    (by rw [hmem, if_pos rfl]) hlevel (k.cache c).numOfSlabs
  rw [hobj] at hrep
  have ht₂ : Touched k₁ k₂ c (fun u => u = s ∨ u ∈ slabsOf L) := by
    have := Touched.modSlab (P := fun u => u = s ∨ u ∈ slabsOf L) { k₁ with buddy } c (.inl rfl)
      fun x => { x with mem := some m }
    exact ⟨this.cache, this.fixed, this.slab, this.pool⟩
  refine ⟨k', L', ?_, hrep, (ht₂.trans ht).trans ht', hperm, hb'.buddy.trans hbd, fun u => ?_⟩
  · unfold Cache.cacheAllocDepth Cache.refill
    simp only [if_pos hnew, hcreate, Option.bind_eq_bind, Option.bind_some, he']
  · rw [hb'.mem, hmem, hmem₂]
    split
    · rfl
    · rfl

end SlabKernel
