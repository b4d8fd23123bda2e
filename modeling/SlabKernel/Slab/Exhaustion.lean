import SlabKernel.Slab.Descriptors

/-!
# The slab allocator without memory

What each call does when blocks are short, in any state of the clients among other users of the
buddy allocator (`survives_exhaustion`):

* An allocation always returns, null iff the cache has no free slot and there is no block for a slab
  (`Kmem.Supply`).
* A creation returns null iff no record has a free slot and there is no page for another record
  (`Kmem.Available`). Otherwise it returns a cache, of any size for which `getOrder` ends.
* The first request of a size class creates the cache of its class and sets the members of the cache
  without a check: it is undefined iff that creation returns null. Otherwise a request returns a
  buffer iff the class has room for one (`Kmem.Room`), whatever has failed before.
-/

namespace SlabKernel

open Function (update update_self update_of_ne)
open PtrList CachePool Runs

variable {k k' : Kmem} {V V' : View} {extra : List (Nat × Nat)} {c d i size : Nat}

/-! ## Creations -/

/-- A creation gives a cache iff there is a slot, and hangs only where `getOrder` does. -/
theorem Kmem.Whole.create_iff (h : k.Whole V extra) (size : Nat) (ctor dtor : Ptr) :
    (kmem_cache_create k size ctor dtor = none ↔ k.Available ∧ Cache.getOrder size = none) ∧
    ∀ r k', kmem_cache_create k size ctor dtor = some (r, k') → (r ≠ none ↔ k.Available) := by
  unfold kmem_cache_create
  rcases h.pool.allocateSlot h.pool_buddy h.start with
    ⟨ha, k', V', he, -⟩ | ⟨ha, c, k', V', he, -⟩
  · simp only [he, Option.bind_eq_bind, Option.bind_some, pure, reduceCtorEq, ha, false_and,
      Option.some.injEq, Prod.mk.injEq, true_and, iff_false, not_not]
    exact fun r k' hr => hr.1.symm
  · simp only [he, Option.bind_eq_bind, Option.bind_some, ha, true_and, iff_true]
    unfold Cache.construct
    cases ho : Cache.getOrder size with
    | none =>
      simp only [Option.bind_eq_bind, Option.bind_none, reduceCtorEq, false_implies, implies_true,
        and_true]
    | some r =>
      simp only [Option.bind_eq_bind, Option.bind_some, pure, reduceCtorEq, Option.some.injEq,
        Prod.mk.injEq, true_and]
      exact fun r k' hr => hr.1 ▸ Option.some_ne_none c

/-! ## Requests -/

/-- An allocation from a cache of buffers that has no slab yet, and that the view leaves out. -/
theorem Kmem.Inv.alloc_first (h : k.Inv V extra) (hc : c ∉ V.caches) (htype : (k.cache c).type ≠ 0)
    (hd : k.memBuffSlabs (getPowerOfTwo (k.cache c).slotSize) = some d) (hdm : d ∈ V.caches)
    (hfirst : ∀ g, (k.cache c).first g = none) (hnum : (k.cache c).numOfSlabs = 0)
    (hobj : 1 ≤ (k.cache c).objNum ∧ (k.cache c).objNum < endIndex) (n : Nat) :
    ∃ r k', Cache.cacheAllocDepth (n + 2) k c = some (r, k') ∧ (r ≠ none ↔ k.Room c) := by
  obtain ⟨-, hdo, -⟩ := h.classes.descriptor _ d hd hdm
  have hcd : c ≠ d := fun he => hc (he ▸ hdm)
  have hnew : (k.cache c).slabsPartial = none ∧ (k.cache c).slabsFree = none :=
    ⟨hfirst .PARTIAL, hfirst .FREE⟩
  have hroom : k.Room c ↔ k.Supply d ∧ ((k.buddyAfter d).alloc (k.cache c).slabOrder).1 ≠ none := by
    unfold Kmem.Room
    simp only [hnew, hd, and_self, forall_const, Option.some.injEq, exists_eq_left']
  obtain ⟨r, k₁, V₁, he, h₁, hg, -, -, hsupply, hafter, hcache⟩ := h.alloc_object hdm hdo n
  have hc₁ := hcache c hcd
  rw [hroom, ← hsupply, ← hafter]
  cases r with
  | none =>
    have hgrow : Cache.slabAlloc (Cache.cacheAllocDepth (n + 1)) k c =
        some (k₁.setError c (-1)) := by
      unfold Cache.slabAlloc Slab.createBufferSlab
      simp only [if_neg htype, hd, he, Option.bind_eq_bind, Option.bind_some, pure]
    exact ⟨none, _, SlabKernel.alloc_failed hnew hgrow hc₁,
      iff_of_false (not_not_intro rfl) fun hn => hn.1 rfl⟩
  | some s =>
    rcases h₁.inv.buddy.alloc (k.cache c).slabOrder with hbn | ⟨m, b, hbs, -⟩
    · have hgrow : Cache.slabAlloc (Cache.cacheAllocDepth (n + 1)) k c =
          some ((k₁.modSlab s fun x => { x with mem := none }).setError c (-1)) := by
        unfold Cache.slabAlloc Slab.createBufferSlab
        simp only [if_neg htype, hd, he, Option.bind_eq_bind, Option.bind_some, hbn, pure]
      refine ⟨none, _, SlabKernel.alloc_failed hnew hgrow hc₁,
        iff_of_false (not_not_intro rfl) fun hn => hn.2 ?_⟩
      rw [hbn]
    · have hrep : CacheRep k₁ c (fun _ => []) V₁.chain :=
        .empty (fun g => hc₁ ▸ hfirst g) (hc₁ ▸ hnum) (hc₁ ▸ hobj)
      obtain ⟨k', L, he', -⟩ := SlabKernel.alloc_buffer htype hnew hd he hrep hc₁ hbs
        fun g => List.not_mem_nil
      refine ⟨some m, k', he', iff_of_true (Option.some_ne_none m) ⟨Option.some_ne_none s, ?_⟩⟩
      rw [hbs]
      exact Option.some_ne_none m

/-- The cache of a size class after its first request, left out of the view. -/
theorem Kmem.Whole.readied_none (h : k.Whole V extra) (hsize : minBuffSize ≤ size)
    (hsize' : size ≤ maxBuffSize) (hnone : k.memoryBuffers (getPowerOfTwo size) = none)
    (ha : k.Available) :
    ∃ k₁ W c, k.readied size = some k₁ ∧ k₁.Inv W extra ∧ c ∉ W.caches ∧
      k₁.memoryBuffers (getPowerOfTwo size) = some c ∧ k₁.memBuffSlabs = k.memBuffSlabs ∧
      (∀ a ∈ V.caches, a ∈ W.caches) ∧
      ((k₁.cache c).slotSize = 2 ^ (minBuffOrder + getPowerOfTwo size) ∧ (k₁.cache c).type ≠ 0) ∧
      (∀ g, (k₁.cache c).first g = none) ∧ (k₁.cache c).numOfSlabs = 0 ∧
      (k₁.cache c).objNum = firstObjNum size := by
  have hbound := class_bound hsize hsize'
  rcases h.create_object none none (Nat.one_le_two_pow) (hbound.trans (by decide)) with
    ⟨hn, -⟩ | ⟨-, c, k₀, V₀, o, he, hw, hcr, -, ho, hbufs, hdescs⟩
  · exact absurd ha hn
  have hcm : c ∈ V₀.caches := hcr.mem.2 (.inr rfl)
  have hret := hw.retire hcm fun s _ hl => by
    obtain ⟨u, j, hslot, -⟩ := hl
    have := hslot.slab
    rw [hcr.slabs] at this
    cases this
  rw [show V₀.slabBlocks k₀ c = [] by unfold View.slabBlocks; rw [hcr.slabs]; rfl,
    List.nil_append] at hret
  have hmem : ∀ a, a ∈ (V₀.retire c).caches ↔ a ∈ V.caches := fun a => by
    unfold View.retire
    rw [hw.nodup.mem_erase_iff, hcr.mem]
    constructor
    · exact fun hor => hor.2.resolve_right hor.1
    · exact fun ha => ⟨hcr.ne ha, .inl ha⟩
  let k₁ := ({ k₀ with memoryBuffers := update k₀.memoryBuffers (getPowerOfTwo size) (some c) } :
    Kmem).modCache c (·.toBuffer size)
  have hother : ∀ a ≠ c, k₁.cache a = k₀.cache a := fun a ha => update_of_ne ha _ _
  have hself : k₁.cache c = (k₀.cache c).toBuffer size := update_self _ _ _
  have hne : ∀ a ∈ (V₀.retire c).caches, a ≠ c := fun a ha => hcr.ne ((hmem a).1 ha)
  have hbufs₁ : k₁.memoryBuffers = update k.memoryBuffers (getPowerOfTwo size) (some c) :=
    hbufs ▸ rfl
  have hframe : Frame k₀ k₁ (V₀.retire c) (V₀.retire c) fun _ => False :=
    ⟨fun _ ha _ => ha, fun a ha _ => by rw [hother a (hne a ha)], fun _ _ _ => rfl,
      fun _ _ _ _ _ => rfl, fun _ _ _ _ _ => rfl⟩
  have hlay : ∀ a ∈ (V₀.retire c).caches, (k₁.cache a).layout = (k₀.cache a).layout :=
    fun a ha => by rw [hother a (hne a ha)]
  have hclasses : Classes k₁ (V₀.retire c) := by
    refine ⟨fun a ha => ?_, fun j a hj ha => ?_, fun j d hj hd => ?_⟩
    · rcases hret.classes.kind a ha with hobj | ⟨j, hj⟩
      · exact .inl (hobj.congr (hlay a ha))
      · refine .inr ⟨j, ?_⟩
        rw [hbufs₁, update_of_ne fun hji => ?_, ← hbufs, hj]
        rw [hbufs, hji, hnone] at hj
        cases hj
    · rw [hbufs₁] at hj
      by_cases hji : j = getPowerOfTwo size
      · rw [hji, update_self, Option.some.injEq] at hj
        exact absurd hj.symm (hne a ha)
      · rw [update_of_ne hji, ← hbufs] at hj
        obtain ⟨hlt, hb⟩ := hret.classes.buffer j a hj ha
        exact ⟨hlt, hb.congr (hlay a ha)⟩
    · obtain ⟨hlt, hobj, horder, hs⟩ := hret.classes.descriptor j d hj hd
      obtain ⟨-, h2, -, h4, -⟩ := Cache.layout_eq (hlay d hd)
      exact ⟨hlt, hobj.congr (hlay d hd), h4.trans horder, h2.trans hs⟩
  have hcache := hcr.cache
  have hblocks : (V₀.retire c).blocks k₁ = (V₀.retire c).blocks k₀ := by
    unfold View.blocks
    rw [List.flatMap_congr fun a ha => hframe.slabBlocks ha not_false]
  refine ⟨k₁, V₀.retire c, c, ?_, hret.of_frame hframe hret.nodup hclasses
    (fun j d hd _ => ⟨hd, not_false⟩) (fun a ha => .inl ⟨ha, not_false⟩)
    (by rw [hblocks]; exact hret.buddy) rfl, fun hm => hne c hm rfl, ?_, hdescs,
    fun a ha => (hmem a).2 ha, ⟨?_, ?_⟩, fun g => ?_, ?_, ?_⟩
  · unfold Kmem.readied bufferInit
    simp only [hnone, he, Option.bind_eq_bind, Option.bind_some, update_self, pure]
    rfl
  · rw [hbufs₁, update_self]
  · rw [hself]
    exact (congrArg Cache.slotSize hcache :)
  · simp [hself, Cache.toBuffer]
  · rw [hself]
    have := Cache.first_congr (C := Cache.init _ none none o _) hcache
    have hg := congrFun this g
    cases g <;> exact hg
  · rw [hself]
    exact (congrArg Cache.numOfSlabs hcache :)
  · rw [hself]
    rfl

/-- A request in the range of the size classes. -/
theorem Kmem.Whole.kmalloc_iff (h : k.Whole V extra)
    (hready : ∀ i < bufferNum, k.memBuffSlabs i ≠ none) (hsize : minBuffSize ≤ size)
    (hsize' : size ≤ maxBuffSize) :
    (SlabKernel.kmalloc k size = none ↔
      k.memoryBuffers (getPowerOfTwo size) = none ∧ ¬ k.Available) ∧
    ∀ r k', SlabKernel.kmalloc k size = some (r, k') → ∃ k₁ c, k.readied size = some k₁ ∧
      k₁.memoryBuffers (getPowerOfTwo size) = some c ∧ (r ≠ none ↔ k₁.Room c) := by
  obtain ⟨hi, -, -⟩ := getPowerOfTwo_spec hsize hsize'
  obtain ⟨d, hd⟩ := Option.ne_none_iff_exists'.1 (hready _ hi)
  have hdm := h.descriptors _ d hd
  rw [kmalloc_eq hsize hsize']
  -- it is enough to know what the allocation does
  have hreturns : ∀ k₁ c r k', k.readied size = some k₁ →
      k₁.memoryBuffers (getPowerOfTwo size) = some c → Cache.cacheAlloc k₁ c = some (r, k') →
      (r ≠ none ↔ k₁.Room c) →
      ((k.readied size).bind fun k => (k.memoryBuffers (getPowerOfTwo size)).bind
        (Cache.cacheAlloc k)) ≠ none ∧
      ∀ r k', ((k.readied size).bind fun k => (k.memoryBuffers (getPowerOfTwo size)).bind
        (Cache.cacheAlloc k)) = some (r, k') → ∃ k₁ c, k.readied size = some k₁ ∧
          k₁.memoryBuffers (getPowerOfTwo size) = some c ∧ (r ≠ none ↔ k₁.Room c) := by
    intro k₁ c r k' hk hc he hroom
    simp only [hk, Option.bind_some, hc, he]
    refine ⟨Option.some_ne_none _, fun r' k'' hr => ⟨k₁, c, rfl, hc, ?_⟩⟩
    rw [Option.some.injEq, Prod.mk.injEq] at hr
    exact hr.1 ▸ hroom
  cases hc : k.memoryBuffers (getPowerOfTwo size) with
  | some c =>
    obtain ⟨r, k', V', he, -, -, hroom, -⟩ :=
      h.alloc_buffer hc (h.buffers _ c hc) hd hdm (2 ^ 64 - 2)
    have hk : k.readied size = some k := by
      unfold Kmem.readied
      simp only [hc]
    obtain ⟨hne, hr⟩ := hreturns k c r k' hk hc he hroom
    exact ⟨iff_of_false hne fun hn => (nomatch hn.1), hr⟩
  | none =>
    by_cases ha : k.Available
    · obtain ⟨k₁, W, c, hk, hinv, hcW, hc₁, hdescs, hsub, ⟨hslot, htype⟩, hfirst, hnum, hobj⟩ :=
        h.readied_none hsize hsize' hc ha
      have hlt : firstObjNum size < endIndex := by
        unfold firstObjNum
        split
        · decide
        · exact (Nat.div_le_self _ _).trans_lt (by decide)
      obtain ⟨r, k', he, hroom⟩ := hinv.alloc_first hcW htype
        (by rw [hslot, getPowerOfTwo_pow hi, hdescs]; exact hd) (hsub d hdm) hfirst hnum
        (by rw [hobj]; exact ⟨firstObjNum_pos hsize, hlt⟩) (2 ^ 64 - 2)
      obtain ⟨hne, hr⟩ := hreturns k₁ c r k' hk hc₁ he hroom
      exact ⟨iff_of_false hne fun hn => hn.2 ha, hr⟩
    · have hnone : k.readied size = none := by
        obtain ⟨hreturns, hr⟩ := h.create_iff (2 ^ (minBuffOrder + getPowerOfTwo size)) none none
        obtain ⟨⟨r, k'⟩, he⟩ := Option.ne_none_iff_exists'.1 fun hn => ha (hreturns.1 hn).1
        obtain rfl : r = none := not_not.1 fun hne => ha ((hr r k' he).1 hne)
        unfold Kmem.readied bufferInit
        simp only [hc, he, Option.bind_eq_bind, Option.bind_some, update_self, Option.bind_none]
      simp only [hnone, Option.bind_none, iff_true_intro ha, reduceCtorEq, false_implies,
        implies_true, and_true]

/-! ## Runs -/

namespace SharedClient

variable {s s' : SharedClient}

/-- The cache of a size class stays. -/
theorem class_step {op : SharedCall} (h : ∃ V, s.Inv V) (hok : s.Ok op)
    (hs : s.step op = some s') (hc : s.client.kmem.memoryBuffers i = some c) :
    s'.client.kmem.memoryBuffers i = some c := by
  obtain ⟨V, h⟩ := h
  by_cases hop : ∀ c, op ≠ .call c
  · obtain ⟨b, others, he, -⟩ := h.other hok hop
    rw [he, Option.some.injEq] at hs
    subst hs
    exact hc
  simp only [not_forall, not_not] at hop
  obtain ⟨op, rfl⟩ := hop
  unfold SharedClient.step at hs
  obtain ⟨client, he, rfl⟩ := Option.map_eq_some_iff.1 hs
  change client.kmem.memoryBuffers i = some c
  by_cases hm : ∃ size, op = .kmalloc size
  · obtain ⟨size, rfl⟩ := hm
    by_cases hr : size < minBuffSize ∨ size > maxBuffSize
    · rw [SlabClient.kmalloc_range hr, Option.some.injEq] at he
      exact he ▸ hc
    obtain ⟨hsize, hsize', hfit⟩ := SlabClient.Legal.kmalloc hok hr
    rcases h.kmalloc hsize hsize' hfit with
      ⟨-, -, hn⟩ | ⟨r, k', V', c', d, he', -, -, -, -, hbufs, -, hcase, -⟩
    · simp only [SlabClient.step, hn, Option.map_none, reduceCtorEq] at he
    · simp only [SlabClient.step, he', Option.map_some, Option.some.injEq] at he
      subst he
      rw [show k'.memoryBuffers = _ from hbufs]
      by_cases hi : i = getPowerOfTwo size
      · subst hi
        rcases hcase with ⟨hc', -⟩ | ⟨hn, -⟩
        · rw [update_self, ← hc', hc]
        · rw [hn] at hc
          cases hc
      · rw [update_of_ne hi, hc]
  · simp only [not_exists] at hm
    obtain ⟨V', S, -, -, hbufs, -⟩ := h.step_frame hok hm he
    rw [hbufs, hc]

theorem class_run {ops : List SharedCall} (h : ∃ V, s.Inv V)
    (hrun : Run Ok SharedClient.step s ops s') (hc : s.client.kmem.memoryBuffers i = some c) :
    s'.client.kmem.memoryBuffers i = some c := by
  refine (hrun.inv (fun t => (∃ V, t.Inv V) ∧ t.client.kmem.memoryBuffers i = some c) ?_
    ⟨h, hc⟩).2
  intro s₁ op s₂ h₁ hok hs
  obtain ⟨⟨V, hV⟩, hc₁⟩ := h₁
  exact ⟨hV.step hok hs, class_step ⟨V, hV⟩ hok hs hc₁⟩

/-- A request that returns has made the cache of its class. -/
theorem class_kmalloc (h : ∃ V, s.Inv V) (hok : s.Ok (.call (.kmalloc size)))
    (hsize : minBuffSize ≤ size) (hsize' : size ≤ maxBuffSize)
    (hs : s.step (.call (.kmalloc size)) = some s') :
    ∃ c, s'.client.kmem.memoryBuffers (getPowerOfTwo size) = some c := by
  obtain ⟨V, h⟩ := h
  obtain ⟨-, -, hfit⟩ := SlabClient.Legal.kmalloc hok (by omega)
  unfold SharedClient.step at hs
  obtain ⟨client, he, rfl⟩ := Option.map_eq_some_iff.1 hs
  rcases h.kmalloc hsize hsize' hfit with
    ⟨-, -, hn⟩ | ⟨r, k', V', c, d, he', -, -, -, -, hbufs, -⟩
  · simp only [SlabClient.step, hn, Option.map_none, reduceCtorEq] at he
  · simp only [SlabClient.step, he', Option.map_some, Option.some.injEq] at he
    subst he
    exact ⟨c, by rw [show k'.memoryBuffers = _ from hbufs, update_self]⟩

/-- **Exhaustion.** In every state of a run, whatever has failed in it: a creation hangs iff a slot of
a record is available and `getOrder` does not end, and else is null iff no slot is available; an
allocation always returns and is null iff the cache has no supply; a request outside of the size
classes returns null; one in their range is undefined iff it is the first of its class and no slot is
available, and else returns a buffer iff its class has room. After a request that has returned, with
a buffer or without, every later one of the class returns, with a buffer iff there is room then. -/
theorem survives_exhaustion {heap : HeapBounds} {space : Nat} {blockNum : Int}
    {ops : List SharedCall} (hinit : kmem_init heap 12 space blockNum = some k)
    (hrun : Run Ok SharedClient.step (boot k) ops s) :
    (∀ size ctor dtor, (kmem_cache_create s.client.kmem size ctor dtor = none ↔
        s.client.kmem.Available ∧ Cache.getOrder size = none) ∧
      ∀ r k', kmem_cache_create s.client.kmem size ctor dtor = some (r, k') →
        (r ≠ none ↔ s.client.kmem.Available)) ∧
    (∀ size, size + 76 ≤ 2 ^ 63 → Cache.getOrder size ≠ none) ∧
    (∀ c ∈ s.client.handles, ∃ r k', kmem_cache_alloc s.client.kmem c = some (r, k') ∧
      (r ≠ none ↔ s.client.kmem.Supply c)) ∧
    (∀ size, size < minBuffSize ∨ size > maxBuffSize →
      kmalloc s.client.kmem size = some (none, s.client.kmem)) ∧
    (∀ size, minBuffSize ≤ size → size ≤ maxBuffSize →
      (kmalloc s.client.kmem size = none ↔
        s.client.kmem.memoryBuffers (getPowerOfTwo size) = none ∧ ¬ s.client.kmem.Available) ∧
      ∀ r k', kmalloc s.client.kmem size = some (r, k') → ∃ k₁ c,
        s.client.kmem.readied size = some k₁ ∧
        k₁.memoryBuffers (getPowerOfTwo size) = some c ∧ (r ≠ none ↔ k₁.Room c)) ∧
    ∀ size s₁ ops' s₂ size', minBuffSize ≤ size → size ≤ maxBuffSize →
      s.Ok (.call (.kmalloc size)) → s.step (.call (.kmalloc size)) = some s₁ →
      Run Ok SharedClient.step s₁ ops' s₂ → minBuffSize ≤ size' → size' ≤ maxBuffSize →
      getPowerOfTwo size' = getPowerOfTwo size →
      ∃ c r k', s₂.client.kmem.memoryBuffers (getPowerOfTwo size') = some c ∧
        kmalloc s₂.client.kmem size' = some (r, k') ∧ (r ≠ none ↔ s₂.client.kmem.Room c) := by
  obtain ⟨V, h⟩ := run_inv (boot_inv hinit) hrun
  refine ⟨h.whole.create_iff, fun size hsize => ?_, fun c hc => ?_, fun size hr => ?_,
    fun size => h.whole.kmalloc_iff h.ready, ?_⟩
  · obtain ⟨o, ho, -⟩ := Cache.getOrder_spec hsize
    exact Option.ne_none_iff_exists'.2 ⟨_, ho⟩
  · obtain ⟨hcm, ho, -⟩ := h.user c hc
    obtain ⟨r, k', V', he, -, -, -, -, hsupply, -⟩ := h.whole.alloc_object hcm ho (2 ^ 64 - 1)
    exact ⟨r, k', he, hsupply⟩
  · unfold SlabKernel.kmalloc allocateBuffer
    rw [if_pos hr]
  · intro size s₁ ops' s₂ size' hsize hsize' hok hs hrun' hsize₂ hsize₂' hclass
    have h₁ := h.step hok hs
    obtain ⟨c, hc⟩ := class_kmalloc ⟨V, h⟩ hok hsize hsize' hs
    have hc₂ := class_run h₁ hrun' hc
    obtain ⟨V₂, h₂⟩ := run_inv h₁ hrun'
    obtain ⟨hdef, hroom⟩ := h₂.whole.kmalloc_iff h₂.ready hsize₂ hsize₂'
    rw [← hclass] at hc₂
    obtain ⟨⟨r, k'⟩, he⟩ := Option.ne_none_iff_exists'.1 fun hn => by
      have := (hdef.1 hn).1
      rw [hc₂] at this
      cases this
    obtain ⟨k₁, c₁, hk₁, hc₁, hr⟩ := hroom r k' he
    have hk : s₂.client.kmem.readied size' = some s₂.client.kmem := by
      unfold Kmem.readied
      simp only [hc₂]
    rw [hk, Option.some.injEq] at hk₁
    subst hk₁
    rw [hc₂, Option.some.injEq] at hc₁
    exact ⟨c, r, k', hc₂, he, hc₁ ▸ hr⟩

/-- A cache has given an object when others take every block. Its slab still has free slots, and so
has the first record. -/
theorem survives_exhaustion_heap128 : ∃ k s,
    kmem_init Buddy.heap128 12 Buddy.heap128.startAddr 4096 = some k ∧
    Run Ok SharedClient.step (boot k)
      ([.call (.create 64 none none), .call (.alloc 2147554976)] ++
        [11, 10, 9, 8, 7, 6, 5, 4, 3, 2, 1, 0].map .take) s ∧
    (s.client.kmem.buddy.alloc 0).1 = none ∧
    (∃ r k', kmem_cache_alloc s.client.kmem 2147554976 = some (r, k') ∧
      (r ≠ none ↔ s.client.kmem.Supply 2147554976)) ∧
    ∃ r k', kmem_cache_create s.client.kmem 64 none none = some (r, k') ∧
      (r ≠ none ↔ s.client.kmem.Available) := by
  have h : ((kmem_init Buddy.heap128 12 Buddy.heap128.startAddr 4096).bind fun k =>
      (SharedClient.step (boot k) (.call (.create 64 none none))).bind fun s₁ =>
      (s₁.step (.call (.alloc 2147554976))).bind fun s₂ =>
      ([11, 10, 9, 8, 7, 6, 5, 4, 3, 2, 1, 0].map SharedCall.take).foldlM SharedClient.step s₂
        >>= fun s => if 2147554976 ∈ s₁.client.handles ∧ 2147554976 ∈ s.client.handles ∧
          (s.client.kmem.buddy.alloc 0).1 = none then some () else none) = some () := by
    decide +kernel
  obtain ⟨k, hk, h⟩ := Option.bind_eq_some_iff.1 h
  obtain ⟨s₁, hs₁, h⟩ := Option.bind_eq_some_iff.1 h
  obtain ⟨s₂, hs₂, h⟩ := Option.bind_eq_some_iff.1 h
  obtain ⟨s, hs, h⟩ := Option.bind_eq_some_iff.1 h
  obtain ⟨⟨hc₁, hc, hb⟩, -⟩ := Option.ite_none_right_eq_some.1 h
  have hcalls : Run Ok SharedClient.step (boot k)
      [.call (.create 64 none none), .call (.alloc 2147554976)] s₂ :=
    .cons (.inl ⟨by decide, by decide⟩) hs₁ (.cons (.inl hc₁) hs₂ .nil)
  have hrun := hcalls.trans (.of_foldlM (fun op hop t => by
    obtain ⟨o, -, rfl⟩ := List.mem_map.1 hop
    exact trivial) hs)
  obtain ⟨hcreate, horder, halloc, -⟩ := survives_exhaustion hk hrun
  obtain ⟨hreturns, hr⟩ := hcreate 64 none none
  obtain ⟨⟨r, k'⟩, he⟩ :=
    Option.ne_none_iff_exists'.1 fun hn => horder 64 (by decide) (hreturns.1 hn).2
  exact ⟨k, s, hk, hrun, hb, halloc _ hc, r, k', he, hr r k' he⟩

/-- With the slots of the first record used up and every block taken a creation returns null, as it
should, but the first request of a size class sets the members of the cache through the null pointer. -/
theorem survives_exhaustion_fails : ∃ k s k',
    kmem_init Buddy.heap128 12 Buddy.heap128.startAddr 4096 = some k ∧
    Run Ok SharedClient.step (boot k)
      (List.replicate 18 (.call (.create 64 none none)) ++
        [11, 10, 9, 8, 7, 6, 5, 4, 3, 2, 1, 0].map .take) s ∧
    kmem_cache_create s.client.kmem 64 none none = some (none, k') ∧
    s.Ok (.call (.kmalloc 32)) ∧ s.step (.call (.kmalloc 32)) = none := by
  have h : ((kmem_init Buddy.heap128 12 Buddy.heap128.startAddr 4096).bind fun k =>
      ((List.replicate 18 (SharedCall.call (.create 64 none none)) ++
        [11, 10, 9, 8, 7, 6, 5, 4, 3, 2, 1, 0].map SharedCall.take).foldlM SharedClient.step
          (boot k)).bind fun s => (kmem_cache_create s.client.kmem 64 none none).bind fun r =>
        if r.1 = none ∧ (s.step (.call (.kmalloc 32))).isNone then some () else none) =
      some () := by
    decide +kernel
  obtain ⟨k, hk, h⟩ := Option.bind_eq_some_iff.1 h
  obtain ⟨s, hs, h⟩ := Option.bind_eq_some_iff.1 h
  obtain ⟨⟨r, k'⟩, hcreate, h⟩ := Option.bind_eq_some_iff.1 h
  obtain ⟨⟨rfl, hkmalloc⟩, -⟩ := Option.ite_none_right_eq_some.1 h
  refine ⟨k, s, k', hk, .of_foldlM (fun op hop t => ?_) hs, hcreate, SlabClient.Legal.pow s.client 5,
    Option.isNone_iff_eq_none.1 hkmalloc⟩
  rcases List.mem_append.1 hop with hop | hop
  · rw [(List.mem_replicate.1 hop).2]
    exact .inl ⟨by decide, by decide⟩
  · obtain ⟨o, -, rfl⟩ := List.mem_map.1 hop
    exact trivial

end SharedClient

end SlabKernel
