import SlabKernel.Slab.Small

/-!
# Teardown

The clients' caches go first, in any order; then `SlabFinalize` destroys the caches of the size
classes, the buffer caches before the descriptor caches, in whose objects their headers lie. No cache
is left then, so one record is (`View.Tight`), which `CachePoolFinalize` gives back. At every step
the blocks that leave the view are those given back (`Returned`). All records must be on their list
(`Unbroken`), as they are when no creation has failed.
-/

namespace SlabKernel

open Function (update update_self update_of_ne)
open PtrList CachePool Runs

/-- The clients' caches `cs`, then the two finalizers. -/
def teardown (k : Kmem) (cs : List Nat) : Option Kmem := do
  let k ← cs.foldlM (fun k c => kmem_cache_destroy k (some c)) k
  let k ← SlabFinalize k
  CachePoolFinalize k

variable {k k' : Kmem} {V V' : View} {extra : List (Nat × Nat)} {c d i n : Nat}

theorem Returned.refl (k : Kmem) (V : View) : Returned k k V V := ⟨[], .rfl, rfl⟩

/-! ## The caches of the clients -/

theorem SlabClient.Inv.destroyAll {s : SlabClient} {cs : List Nat} (h : s.Inv V extra)
    (hu : Unbroken s.kmem V) (hcs : cs.Perm s.handles) :
    ∃ (s' : SlabClient) (V' : View),
      cs.foldlM (fun k c => kmem_cache_destroy k (some c)) s.kmem = some s'.kmem ∧
      s'.Inv V' extra ∧ Unbroken s'.kmem V' ∧ s'.handles = [] ∧ Returned s.kmem s'.kmem V V' := by
  induction cs generalizing s V with
  | nil => exact ⟨s, V, rfl, h, hu, List.nil_perm.1 hcs, .refl _ _⟩
  | cons c cs ih =>
    rcases h.destroy (hcs.subset (.head _)) with
      ⟨hl, -⟩ | ⟨k', V', he, h', hu', -, -, -, -, hret, -⟩
    · exact absurd hu.1 hl
    obtain ⟨s', V'', he', h'', hu'', hnil, hret'⟩ :=
      ih h' (hu' hu) (List.cons_perm_iff_perm_erase.1 hcs).2
    refine ⟨s', V'', ?_, h'', hu'', hnil, hret.trans hret'⟩
    rw [List.foldlM_cons, he]
    exact he'

/-! ## The caches of the size classes -/

/-- The buffer caches from the class `i` on are left, and the descriptor caches. -/
structure Buffered (k : Kmem) (V : View) (extra : List (Nat × Nat)) (i : Nat) : Prop where
  pooled : k.Pooled V extra
  unbroken : Unbroken k V
  buffer : ∀ j c, i ≤ j → k.memoryBuffers j = some c → c ∈ V.caches
  descriptor : ∀ j d, k.memBuffSlabs j = some d → d ∈ V.caches
  ready : ∀ j < bufferNum, k.memBuffSlabs j ≠ none
  apart : ∀ i j c, k.memBuffSlabs i = some c → k.memBuffSlabs j = some c → i = j
  caches : ∀ c ∈ V.caches, (∃ j, k.memBuffSlabs j = some c) ∨
    ∃ j, i ≤ j ∧ k.memoryBuffers j = some c

/-- The descriptor caches from the class `i` on are left. -/
structure Described (k : Kmem) (V : View) (extra : List (Nat × Nat)) (i : Nat) : Prop where
  pooled : k.Pooled V extra
  unbroken : Unbroken k V
  descriptor : ∀ j d, i ≤ j → k.memBuffSlabs j = some d → d ∈ V.caches
  apart : ∀ i j c, k.memBuffSlabs i = some c → k.memBuffSlabs j = some c → i = j
  caches : ∀ c ∈ V.caches, ∃ j, i ≤ j ∧ k.memBuffSlabs j = some c

/-- One buffer cache is destroyed. -/
theorem Buffered.step (h : Buffered k V extra i) (hi : i < bufferNum) :
    ∃ k' V', kmem_cache_destroy k (k.memoryBuffers i) = some k' ∧ Buffered k' V' extra (i + 1) ∧
      Returned k k' V V' := by
  cases hc : k.memoryBuffers i with
  | none =>
    refine ⟨k, V, rfl, { h with buffer := fun j c hj => h.buffer j c (by omega), caches := ?_ },
      .refl k V⟩
    intro c hcm
    rcases h.caches c hcm with hd | ⟨j, hj, hjc⟩
    · exact .inl hd
    · have hne : j ≠ i := fun he => by
        rw [he, hc] at hjc
        cases hjc
      exact .inr ⟨j, by omega, hjc⟩
  | some c =>
    have hcm := h.buffer i c (Nat.le_refl i) hc
    obtain ⟨-, hb⟩ := h.pooled.classes.buffer i c hc hcm
    obtain ⟨d, hd⟩ := Option.ne_none_iff_exists'.1 (h.ready i hi)
    obtain ⟨k₁, V₁, he₁, hs₁, hret₁⟩ :=
      h.pooled.destroyCache_buffer hcm hb hi hd (h.descriptor i d hd)
    rcases h.pooled.destroy hcm he₁ hs₁ hret₁ with
      ⟨hl, -⟩ | ⟨k', V', he, hp, hu, -, hcaches, hbufs, hdescs, hret, -⟩
    · exact absurd h.unbroken.1 hl
    have hmem : ∀ a, a ∈ V'.caches ↔ a ≠ c ∧ a ∈ V.caches := fun a => by
      rw [hcaches, h.pooled.nodup.mem_erase_iff]
    refine ⟨k', V', he, ⟨hp, hu h.unbroken, fun j a hj ha => ?_, fun j a ha => ?_, ?_, ?_,
      fun a ha => ?_⟩, hret⟩
    · rw [hbufs] at ha
      refine (hmem a).2 ⟨?_, h.buffer j a (by omega) ha⟩
      intro he
      subst he
      have h1 := (h.pooled.classes.buffer j a ha hcm).2.slotSize
      have := Nat.pow_right_injective (Nat.le_refl 2) (h1.symm.trans hb.slotSize)
      omega
    · rw [hdescs] at ha
      refine (hmem a).2 ⟨?_, h.descriptor j a ha⟩
      intro he
      subst he
      have h1 := (h.pooled.classes.descriptor j a ha hcm).2.1.type
      exact absurd (h1.symm.trans hb.type) (by decide)
    · rw [hdescs]
      exact h.ready
    · rw [hdescs]
      exact h.apart
    · rw [hdescs, hbufs]
      obtain ⟨hne, ham⟩ := (hmem a).1 ha
      rcases h.caches a ham with hd' | ⟨j, hj, hja⟩
      · exact .inl hd'
      · have hji : j ≠ i := fun he => by
          rw [he, hc, Option.some.injEq] at hja
          exact hne hja.symm
        exact .inr ⟨j, by omega, hja⟩

/-- One descriptor cache is destroyed; no header is left in its objects. -/
theorem Described.step (h : Described k V extra i) (hi : k.memBuffSlabs i ≠ none) :
    ∃ k' V', kmem_cache_destroy k (k.memBuffSlabs i) = some k' ∧ Described k' V' extra (i + 1) ∧
      k'.memBuffSlabs = k.memBuffSlabs ∧ Returned k k' V V' := by
  obtain ⟨d, hd⟩ := Option.ne_none_iff_exists'.1 hi
  have hdm := h.descriptor i d (Nat.le_refl i) hd
  have htype : ∀ a ∈ V.caches, (k.cache a).type = 0 := fun a ha => by
    obtain ⟨j, -, hj⟩ := h.caches a ha
    exact (h.pooled.classes.descriptor j a hj ha).2.1.type
  obtain ⟨k₁, he₁, hs₁, hret₁, -⟩ := h.pooled.destroyCache_object hdm
    (h.pooled.classes.descriptor i d hd hdm).2.1 fun s hs _ => by
      obtain ⟨a, ha, hta, -⟩ := hs
      exact hta (htype a (List.mem_of_mem_erase ha))
  rcases h.pooled.destroy hdm he₁ hs₁ hret₁ with
    ⟨hl, -⟩ | ⟨k', V', he, hp, hu, -, hcaches, -, hdescs, hret, -⟩
  · exact absurd h.unbroken.1 hl
  have hmem : ∀ a, a ∈ V'.caches ↔ a ≠ d ∧ a ∈ V.caches := fun a => by
    rw [hcaches, h.pooled.nodup.mem_erase_iff]
  refine ⟨k', V', hd ▸ he, ⟨hp, hu h.unbroken, fun j a hj ha => ?_, ?_, fun a ha => ?_⟩, hdescs,
    hret⟩
  · rw [hdescs] at ha
    refine (hmem a).2 ⟨?_, h.descriptor j a (by omega) ha⟩
    intro he
    subst he
    have := h.apart i j a hd ha
    omega
  · rw [hdescs]
    exact h.apart
  · rw [hdescs]
    obtain ⟨hne, ham⟩ := (hmem a).1 ha
    obtain ⟨j, hj, hja⟩ := h.caches a ham
    have hji : j ≠ i := fun he => by
      rw [he, hd, Option.some.injEq] at hja
      exact hne hja.symm
    exact ⟨j, by omega, hja⟩

theorem Buffered.destroyArray (h : Buffered k V extra i) (hn : i + n = bufferNum) :
    ∃ k' V', CachePool.destroyArray Kmem.memoryBuffers n i k = some k' ∧
      Buffered k' V' extra bufferNum ∧ Returned k k' V V' := by
  induction n generalizing k V i with
  | zero =>
    obtain rfl : i = bufferNum := hn
    exact ⟨k, V, rfl, h, .refl k V⟩
  | succ n ih =>
    obtain ⟨k₁, V₁, he₁, h₁, hret₁⟩ := h.step (by omega)
    obtain ⟨k', V', he, h', hret⟩ := ih h₁ (by omega)
    refine ⟨k', V', ?_, h', hret₁.trans hret⟩
    unfold CachePool.destroyArray
    simp only [he₁, Option.bind_eq_bind, Option.bind_some]
    exact he

theorem Described.destroyArray (h : Described k V extra i)
    (hready : ∀ j < bufferNum, k.memBuffSlabs j ≠ none) (hn : i + n = bufferNum) :
    ∃ k' V', CachePool.destroyArray Kmem.memBuffSlabs n i k = some k' ∧
      Described k' V' extra bufferNum ∧ Returned k k' V V' := by
  induction n generalizing k V i with
  | zero =>
    obtain rfl : i = bufferNum := hn
    exact ⟨k, V, rfl, h, .refl k V⟩
  | succ n ih =>
    obtain ⟨k₁, V₁, he₁, h₁, hdescs, hret₁⟩ := h.step (hready i (by omega))
    obtain ⟨k', V', he, h', hret⟩ := ih h₁ (hdescs ▸ hready) (by omega)
    refine ⟨k', V', ?_, h', hret₁.trans hret⟩
    unfold CachePool.destroyArray
    simp only [he₁, Option.bind_eq_bind, Option.bind_some]
    exact he

/-- `SlabFinalize` leaves no cache. -/
theorem Buffered.slabFinalize (h : Buffered k V extra 0) :
    ∃ k' V', SlabFinalize k = some k' ∧ k'.Pooled V' extra ∧ Unbroken k' V' ∧ V'.caches = [] ∧
      Returned k k' V V' := by
  obtain ⟨k₁, V₁, he₁, h₁, hret₁⟩ := h.destroyArray (Nat.zero_add _)
  have hclass : ∀ c ∈ V₁.caches, ∀ j, bufferNum ≤ j → k₁.memoryBuffers j ≠ some c := by
    intro c hc j hj hjc
    have := (h₁.pooled.classes.buffer j c hjc hc).1
    omega
  have hd : Described k₁ V₁ extra 0 := by
    refine ⟨h₁.pooled, h₁.unbroken, fun j d _ => h₁.descriptor j d, h₁.apart, fun c hc => ?_⟩
    rcases h₁.caches c hc with ⟨j, hj⟩ | ⟨j, hj, hjc⟩
    · exact ⟨j, Nat.zero_le j, hj⟩
    · exact absurd hjc (hclass c hc j hj)
  obtain ⟨k', V', he, h', hret⟩ := hd.destroyArray h₁.ready (Nat.zero_add _)
  refine ⟨k', V', ?_, h'.pooled, h'.unbroken, ?_, hret₁.trans hret⟩
  · unfold SlabFinalize
    simp only [he₁, Option.bind_eq_bind, Option.bind_some]
    exact he
  · refine List.eq_nil_iff_forall_not_mem.2 fun c hc => ?_
    obtain ⟨j, hj, hjc⟩ := h'.caches c hc
    have := (h'.pooled.classes.descriptor j c hjc hc).1
    omega

/-! ## The records -/

theorem freeRecords_spec {b : Buddy} {p : Ptr} {l : List Nat} {fuel : Nat}
    (h : Linked (fun r => (k.record r).next) p l) (hl : l.length ≤ fuel)
    (hb : k.buddy.freeAll (l.map (·, 0)) = some b) :
    freeRecords fuel p k = some { k with buddy := b } := by
  induction l generalizing k p fuel with
  | nil =>
    obtain rfl : p = none := h
    obtain rfl : k.buddy = b := Option.some.inj hb
    cases fuel <;> rfl
  | cons r l ih =>
    obtain ⟨rfl, h⟩ := h
    cases fuel with
    | zero => exact absurd hl (Nat.not_succ_le_zero _)
    | succ fuel =>
      obtain ⟨⟨n, b₁⟩, hb₁, hb⟩ := Option.bind_eq_some_iff.1 hb
      have he := ih (k := { k with buddy := b₁ }) h (Nat.le_of_succ_le_succ hl) hb
      unfold freeRecords
      simp only [Kmem.free, hb₁, Option.map_some, Option.bind_eq_bind, Option.bind_some]
      exact he

/-- `CachePoolFinalize` gives the records back when there is no cache. -/
theorem cachePoolFinalize_spec (h : k.Pooled V extra) (hu : Unbroken k V) (hc : V.caches = []) :
    ∃ k' l, CachePoolFinalize k = some k' ∧ (V.blocks k).Perm l ∧
      k.buddy.freeAll l = some k'.buddy ∧ Buddy.Inv k'.buddy extra := by
  have hblocks : V.blocks k = V.records.map (·, 0) := by
    unfold View.blocks
    rw [hc, List.flatMap_nil, List.append_nil]
  have hb := h.buddy
  rw [hblocks] at hb
  obtain ⟨b, hf, -, hinv⟩ := hb.freeAll
  rw [← hu.1] at hf
  refine ⟨_, _, freeRecords_spec h.pool.listed ?_ hf, .of_eq (hu.1 ▸ hblocks), hf, hinv⟩
  rw [hu.1]
  exact h.records_length

/-! ## Teardown -/

/-- All blocks are given back, whatever is live. -/
theorem SlabClient.Inv.teardown {s : SlabClient} {cs : List Nat} (h : s.Inv V extra)
    (hu : Unbroken s.kmem V) (hcs : cs.Perm s.handles) :
    ∃ k' l, SlabKernel.teardown s.kmem cs = some k' ∧ (V.blocks s.kmem).Perm l ∧
      s.kmem.buddy.freeAll l = some k'.buddy ∧ Buddy.Inv k'.buddy extra := by
  obtain ⟨s₁, V₁, he₁, h₁, hu₁, hnil, l₁, hp₁, hf₁⟩ := h.destroyAll hu hcs
  have hbuf : Buffered s₁.kmem V₁ extra 0 := by
    refine ⟨h₁.whole.toPooled, hu₁, fun j c _ => h₁.whole.buffers j c, h₁.whole.descriptors, h₁.ready,
      h₁.apart, fun c hc => ?_⟩
    rcases h₁.caches c hc with hm | hd | ⟨j, hj⟩
    · rw [hnil] at hm
      exact absurd hm List.not_mem_nil
    · exact .inl hd
    · exact .inr ⟨j, Nat.zero_le j, hj⟩
  obtain ⟨k₂, V₂, he₂, h₂, hu₂, hc₂, l₂, hp₂, hf₂⟩ := hbuf.slabFinalize
  obtain ⟨k', l₃, he₃, hp₃, hf₃, hinv⟩ := cachePoolFinalize_spec h₂ hu₂ hc₂
  refine ⟨k', l₁ ++ (l₂ ++ l₃), ?_, hp₁.trans ((hp₂.trans (hp₃.append_left _)).append_left _),
    Buddy.freeAll_append hf₁ (Buddy.freeAll_append hf₂ hf₃), hinv⟩
  unfold SlabKernel.teardown
  simp only [he₁, he₂, Option.bind_eq_bind, Option.bind_some]
  exact he₃

namespace SlabClient

theorem small_unbroken {ops : List SlabCall} {s s' : SlabClient}
    (h : ∃ V, s.Inv V extra ∧ s.Paged ∧ Unbroken s.kmem V)
    (hrun : Run (fun s op => s.SmallOk op ∧ s.Fed op) SlabClient.step s ops s') :
    ∃ V, s'.Inv V extra ∧ s'.Paged ∧ Unbroken s'.kmem V := by
  refine hrun.inv (fun s => ∃ V, s.Inv V extra ∧ s.Paged ∧ Unbroken s.kmem V) ?_ h
  rintro s₁ op s₂ ⟨V, h₁, hp₁, hu₁⟩ hok hs
  obtain ⟨V', h₂, hp₂, hk⟩ := h₁.small hp₁ hok.1 hs
  exact ⟨V', h₂, hp₂, hk.unbroken hok.2 hu₁⟩

/-- **Teardown.** After every run in which no creation fails the allocators have the blocks of their
records and slabs, and destroying the clients' caches in any order, `SlabFinalize` and
`CachePoolFinalize` give each of them back once, with its order. The buddy allocator then has a
single free block again. -/
theorem teardown_returns {heap : HeapBounds} {space : Nat} {blockNum : Int} {ops : List SlabCall}
    {s : SlabClient} {cs : List Nat} (hinit : kmem_init heap 12 space blockNum = some k)
    (hrun : Run (fun s op => s.SmallOk op ∧ s.Fed op) SlabClient.step (boot k) ops s)
    (hcs : cs.Perm s.handles) :
    ∃ V l k', s.Inv V [] ∧ (V.blocks s.kmem).Perm l ∧ SlabKernel.teardown s.kmem cs = some k' ∧
      s.kmem.buddy.freeAll l = some k'.buddy ∧ k'.buddy.Unused := by
  obtain ⟨V₀, h₀, hu₀⟩ := boot_unbroken hinit
  obtain ⟨V, h, -, hu⟩ :=
    small_unbroken ⟨V₀, h₀, fun c hc => absurd hc List.not_mem_nil, hu₀⟩ hrun
  obtain ⟨k', l, he, hp, hf, hinv⟩ := h.teardown hu hcs
  exact ⟨V, l, k', h, hp, he, hf, hinv.unused⟩

theorem teardown_returns_heap128 : ∃ k s,
    kmem_init Buddy.heap128 12 Buddy.heap128.startAddr 4096 = some k ∧
    Run (fun s op => s.SmallOk op ∧ s.Fed op) SlabClient.step (boot k)
      [.create 64 none none, .kmalloc 32] s ∧
    ∃ k', SlabKernel.teardown s.kmem [2147554976] = some k' ∧ k'.buddy.Unused := by
  obtain ⟨k, s₁, s, hk, h₁, h₂, hc, ha⟩ : ∃ k s₁ s,
      kmem_init Buddy.heap128 12 Buddy.heap128.startAddr 4096 = some k ∧
      SlabClient.step (boot k) (.create 64 none none) = some s₁ ∧
      s₁.step (.kmalloc 32) = some s ∧ s.handles = [2147554976] ∧ k.Available :=
    ⟨_, _, _, rfl, rfl, rfl, rfl, by decide +kernel⟩
  have hrun : Run (fun s op => s.SmallOk op ∧ s.Fed op) SlabClient.step (boot k)
      [.create 64 none none, .kmalloc 32] s :=
    .cons ⟨⟨by decide, by decide⟩, ha⟩ h₁ (.cons ⟨⟨5, rfl⟩, trivial⟩ h₂ .nil)
  obtain ⟨-, -, k', -, -, he, -, hu⟩ := teardown_returns hk hrun (.of_eq hc.symm)
  exact ⟨k, s, hk, hrun, k', he, hu⟩

end SlabClient

end SlabKernel
