import SlabKernel.Slab.Cells
import SlabKernel.System.Model

/-!
# The caches of the kernel

`Owns s cache L`: the live objects of the kernel's cache of the kind `c` are `L c`. The kernel's own
calls change `L` by the object that they take or give back (`Owns.alloc`, `Owns.free`); the calls of
other parts, on other caches, leave it alone (`Owns.other`).
-/

namespace SlabKernel

open Function (update update_self update_of_ne)
open CachePool Runs

variable {s s' : SharedClient} {V : View} {op : SharedCall} {cache : ObjectKind → Ptr}
  {L L' : ObjectKind → List Nat} {c : ObjectKind} {d p : Nat}

/-! ## Calls on other caches -/

theorem SharedClient.Inv.not_uses {op : SlabCall} {client : SlabClient} {V' : View}
    {extra : List (Nat × Nat)} (h : s.client.Inv V extra) (h' : client.Inv V' extra)
    (hd : d ∈ s.client.handles) (hd' : d ∈ client.handles)
    (hn : ¬ (SharedCall.call op).Names d) : ¬ s.client.Uses client op d := by
  cases op with
  | create size ctor dtor => exact not_false
  | alloc cachep => exact fun he => hn he.symm
  | free cachep objp => exact fun he => hn he.symm
  | destroy cachep => exact fun he => hn he.symm
  | shrink cachep => exact fun he => hn he.symm
  | kmalloc size =>
    rintro (hb | hb)
    · exact h'.not_class hd' _ hb
    · exact (h.user d hd).2.2 _ hb
  | kfree objp =>
    rintro ⟨size, -, hb⟩
    exact h.not_class hd _ hb

/-- The record of a cache that the call is not made on. -/
theorem SlabClient.step_record {s s' : SlabClient} {op : SlabCall} (hs : s.step op = some s')
    (hd : d ∈ s.handles) (hn : ¬ (SharedCall.call op).Names d) :
    d ∈ s'.handles ∧ ∀ p, (d, p) ∈ s'.live ↔ (d, p) ∈ s.live := by
  cases op <;> obtain ⟨r, -, rfl⟩ := Option.map_eq_some_iff.1 hs
  case create => exact ⟨List.mem_append_left _ hd, fun _ => Iff.rfl⟩
  case alloc cachep =>
    refine ⟨hd, fun p => ?_⟩
    simp only [List.mem_append, List.mem_map, Prod.mk.injEq]
    refine or_iff_right ?_
    rintro ⟨q, -, he, -⟩
    exact hn he
  case free cachep objp =>
    exact ⟨hd, fun p => List.mem_erase_of_ne fun he => hn (Prod.mk.inj he).1.symm⟩
  case destroy cachep =>
    have hne : d ≠ cachep := fun he => hn he.symm
    refine ⟨(List.mem_erase_of_ne hne).2 hd, fun p => ?_⟩
    simp only [List.mem_filter, ne_eq, hne, not_false_eq_true, decide_true, and_true]
  case shrink => exact ⟨hd, fun _ => Iff.rfl⟩
  case kmalloc => exact ⟨hd, fun _ => Iff.rfl⟩
  case kfree => exact ⟨hd, fun _ => Iff.rfl⟩

/-- A call leaves a cache alone that it is not made on. -/
theorem SharedClient.Inv.kept (h : s.Inv V) (hok : s.Ok op) (hs : s.step op = some s')
    (hd : d ∈ s.client.handles) (hn : ¬ op.Names d) :
    d ∈ s'.client.handles ∧
      (s'.client.kmem.cache d).unlinked = (s.client.kmem.cache d).unlinked ∧
      ∀ p, (d, p) ∈ s'.client.live ↔ (d, p) ∈ s.client.live := by
  by_cases hop : ∀ c, op ≠ .call c
  · obtain ⟨b, others, he, -⟩ := h.other hok hop
    obtain rfl := Option.some.inj (hs.symm.trans he)
    exact ⟨hd, rfl, fun _ => Iff.rfl⟩
  · simp only [not_forall, not_not] at hop
    obtain ⟨op, rfl⟩ := hop
    obtain ⟨client, hc, rfl⟩ := Option.map_eq_some_iff.1 hs
    obtain ⟨hd', hlive⟩ := SlabClient.step_record hc hd hn
    obtain ⟨V', hi, hk⟩ := SlabClient.Inv.step h hok hc
    exact ⟨hd', hk.frame.cache d (h.user d hd).1 (not_uses h hi hd hd' hn), hlive⟩

/-! ## The objects of the kernel -/

/-- The memory of the buddy allocator lies in the RAM. -/
def Kmem.InRam (k : Kmem) : Prop :=
  ramStart ≤ k.buddy.kernelStartAddr ∧ k.buddy.kernelStartAddr + 2 ^ 12 * blockSize ≤ ramEnd

/-- The cache has objects of the kind `c`, and slabs of one page. -/
structure Cache.Holds (C : Cache) (c : ObjectKind) : Prop where
  page : C.InPage
  slotSize : C.slotSize = c.size

/-- The live objects of the kernel's caches are `L`. -/
structure Owns (s : SharedClient) (cache : ObjectKind → Ptr) (L : ObjectKind → List Nat) : Prop where
  view : ∃ V, s.Inv V
  ram : s.client.kmem.InRam
  handle : ∀ c d, cache c = some d → d ∈ s.client.handles ∧ (s.client.kmem.cache d).Holds c
  apart : ∀ c c' d, cache c = some d → cache c' = some d → c = c'
  nodup : ∀ c, (L c).Nodup
  live : ∀ c p, p ∈ L c ↔ ∃ d, cache c = some d ∧ (d, p) ∈ s.client.live

theorem Cache.Holds.of_unlinked {C C' : Cache} (h : C.Holds c) (he : C'.unlinked = C.unlinked) :
    C'.Holds c := by
  have horder : C'.slabOrder = C.slabOrder := (congrArg Cache.slabOrder he :)
  have hnum : C'.objNum = C.objNum := (congrArg Cache.objNum he :)
  exact ⟨h.page.imp horder.trans hnum.trans, (congrArg Cache.slotSize he :).trans h.slotSize⟩

theorem Cache.Holds.of_fixed {C C' : Cache} (h : C.Holds c) (he : C'.fixed = C.fixed) :
    C'.Holds c := by
  have horder : C'.slabOrder = C.slabOrder := (congrArg Cache.slabOrder he :)
  have hnum : C'.objNum = C.objNum := (congrArg Cache.objNum he :)
  exact ⟨h.page.imp horder.trans hnum.trans, (congrArg Cache.slotSize he :).trans h.slotSize⟩

namespace Owns

theorem mem_iff (h : Owns s cache L) (hc : cache c = some d) : p ∈ L c ↔ (d, p) ∈ s.client.live := by
  rw [h.live c p]
  exact ⟨fun ⟨d', hc', hp⟩ => Option.some.inj (hc.symm.trans hc') ▸ hp, fun hp => ⟨d, hc, hp⟩⟩

/-- A call that is admitted, and leaves the kernel's caches and the lists in agreement. -/
theorem step (h : Owns s cache L) (hok : s.Ok op) (hs : s.step op = some s')
    (hhandle : ∀ c d, cache c = some d → d ∈ s'.client.handles ∧ (s'.client.kmem.cache d).Holds c)
    (hnd : ∀ c, (L' c).Nodup)
    (hlive : ∀ c p, p ∈ L' c ↔ ∃ d, cache c = some d ∧ (d, p) ∈ s'.client.live) :
    Owns s' cache L' := by
  obtain ⟨V, hi⟩ := h.view
  refine ⟨hi.step hok hs, ?_, hhandle, h.apart, hnd, hlive⟩
  have hreg := SharedClient.step_region hs
  unfold Kmem.InRam
  rw [hreg.start]
  exact h.ram

/-- A call of another part. -/
theorem other (h : Owns s cache L) (hok : s.Ok op) (hn : ∀ c d, cache c = some d → ¬ op.Names d)
    (hs : s.step op = some s') : Owns s' cache L := by
  obtain ⟨V, hi⟩ := h.view
  refine h.step hok hs (fun c d hc => ?_) h.nodup fun c p => ?_
  · obtain ⟨hd, hholds⟩ := h.handle c d hc
    obtain ⟨hd', hcache, -⟩ := hi.kept hok hs hd (hn c d hc)
    exact ⟨hd', hholds.of_unlinked hcache⟩
  · rw [h.live c p]
    refine exists_congr fun d => and_congr_right fun hc => ?_
    obtain ⟨-, -, hl⟩ := hi.kept hok hs (h.handle c d hc).1 (hn c d hc)
    exact (hl p).symm

/-- A call on the kernel's cache of the kind `c`, after which its live objects are `l`. -/
theorem own (h : Owns s cache L) (hc : cache c = some d) (hok : s.Ok op) (hs : s.step op = some s')
    (hn : ∀ d', d' ≠ d → ¬ op.Names d') (hd : d ∈ s'.client.handles)
    (hholds : (s'.client.kmem.cache d).Holds c) {l : List Nat} (hnd : l.Nodup)
    (hlive : ∀ p, p ∈ l ↔ (d, p) ∈ s'.client.live) : Owns s' cache (update L c l) := by
  obtain ⟨V, hi⟩ := h.view
  have hne : ∀ c' d', c' ≠ c → cache c' = some d' → d' ≠ d := fun c' d' hcc hc' he =>
    hcc (h.apart c' c d (he ▸ hc') hc)
  refine h.step hok hs (fun c' d' hc' => ?_) (fun c' => ?_) fun c' p => ?_
  · by_cases hcc : c' = c
    · subst hcc
      obtain rfl := Option.some.inj (hc.symm.trans hc')
      exact ⟨hd, hholds⟩
    · obtain ⟨hd', hholds'⟩ := h.handle c' d' hc'
      obtain ⟨hd'', hcache, -⟩ := hi.kept hok hs hd' (hn d' (hne c' d' hcc hc'))
      exact ⟨hd'', hholds'.of_unlinked hcache⟩
  · by_cases hcc : c' = c
    · subst hcc
      rwa [update_self]
    · rw [update_of_ne hcc]
      exact h.nodup c'
  · by_cases hcc : c' = c
    · subst hcc
      rw [update_self, hlive p]
      exact ⟨fun hp => ⟨d, hc, hp⟩, fun ⟨d', hc', hp⟩ => Option.some.inj (hc.symm.trans hc') ▸ hp⟩
    · rw [update_of_ne hcc, h.live c' p]
      refine exists_congr fun d' => and_congr_right fun hc' => ?_
      obtain ⟨-, -, hl⟩ := hi.kept hok hs (h.handle c' d' hc').1 (hn d' (hne c' d' hcc hc'))
      exact (hl p).symm

/-- `kmem_cache_alloc` on a cache of the kernel; a new object is not live before. -/
theorem alloc {r : Ptr} {k' : Kmem} (h : Owns s cache L) (hc : cache c = some d)
    (he : kmem_cache_alloc s.client.kmem d = some (r, k'))
    (hs : s.step (.call (.alloc d)) = some s') :
    s.Ok (.call (.alloc d)) ∧ Owns s' cache (update L c (r.toList ++ L c)) ∧
      ∀ p, r = some p → p ∉ L c := by
  obtain ⟨V, hi⟩ := h.view
  obtain ⟨hd, hholds⟩ := h.handle c d hc
  have hok : s.Ok (.call (.alloc d)) := .inl hd
  obtain ⟨r', k'', V', he', -, hserved, hnew, -⟩ := SlabClient.Inv.alloc hi hd
  obtain ⟨rfl, rfl⟩ := Prod.mk.inj (Option.some.inj (he.symm.trans he'))
  have hfresh : ∀ p, r = some p → p ∉ L c := fun p hp hm => hnew p hp ((h.mem_iff hc).1 hm)
  have hs' := hs
  unfold SharedClient.step SlabClient.step at hs'
  simp only [he, Option.map_some] at hs'
  obtain rfl := Option.some.inj hs'
  refine ⟨hok, h.own (l := r.toList ++ L c) hc hok hs (fun d' hne he => hne he.symm) hd ?_ ?_
    fun p => ?_, hfresh⟩
  · exact hholds.of_fixed (hserved.fixed d)
  · cases r with
    | none => exact h.nodup c
    | some p => exact List.nodup_cons.2 ⟨hfresh p rfl, h.nodup c⟩
  · simp only [List.mem_append, List.mem_map, Option.mem_toList, Prod.mk.injEq, true_and,
      exists_eq_right, h.mem_iff hc]

/-- `kmem_cache_free` of a live object of a cache of the kernel. -/
theorem free (h : Owns s cache L) (hc : cache c = some d) (hp : p ∈ L c) :
    s.Ok (.call (.free d p)) ∧ ∃ s', s.step (.call (.free d p)) = some s' ∧
      Owns s' cache (update L c ((L c).erase p)) := by
  obtain ⟨V, hi⟩ := h.view
  obtain ⟨hd, hholds⟩ := h.handle c d hc
  have hl := (h.mem_iff hc).1 hp
  have hok : s.Ok (.call (.free d p)) := .inl ⟨hd, d, hl, hholds.page⟩
  obtain ⟨k', V', he, -, hserved, -⟩ := SlabClient.Inv.free hi hd hl hholds.page
  have hs : s.step (.call (.free d p)) = some { s with
      client := { s.client with kmem := k', live := s.client.live.erase (d, p) } } := by
    unfold SharedClient.step SlabClient.step
    simp only [he, Option.map_some]
  refine ⟨hok, _, hs, h.own hc hok hs (fun d' hne he => hne he.symm) hd ?_ ((h.nodup c).erase p)
    fun q => ?_⟩
  · exact hholds.of_fixed (hserved.fixed d)
  · rw [(h.nodup c).mem_erase_iff, hi.nodup.mem_erase_iff, h.mem_iff hc]
    simp only [ne_eq, Prod.mk.injEq, true_and]

/-- `kmem_cache_create` of a cache of the kernel that there is not yet, with its handle. -/
theorem create {ctor dtor r : Ptr} {k' : Kmem} (h : Owns s cache L) (hc : cache c = none)
    (he : kmem_cache_create s.client.kmem c.size ctor dtor = some (r, k'))
    (hs : s.step (.call (.create c.size ctor dtor)) = some s') :
    s.Ok (.call (.create c.size ctor dtor)) ∧ Owns s' (update cache c r) L := by
  obtain ⟨V, hi⟩ := h.view
  have hsize : 1 ≤ c.size ∧ c.size ≤ 4020 := by cases c <;> decide
  have hok : s.Ok (.call (.create c.size ctor dtor)) := .inl ⟨hsize.1, by unfold blockSize; omega⟩
  have ho := h.other hok (fun _ _ _ => not_false) hs
  refine ⟨hok, ?_⟩
  cases r with
  | none =>
    rw [← hc, Function.update_eq_self]
    exact ho
  | some d =>
  obtain ⟨V', hi'⟩ := hi.step hok hs
  obtain rfl : s' = { s with
      client := { s.client with kmem := k', handles := s.client.handles ++ [d] } } := by
    unfold SharedClient.step SlabClient.step at hs
    simp only [he, Option.map_some] at hs
    exact (Option.some.inj hs).symm
  -- the new cache
  have hnew : d ∉ s.client.handles := fun hd =>
    (List.nodup_append.1 hi'.handles).2.2 d hd d (.head _) rfl
  have hholds : (k'.cache d).Holds c := by
    rcases SlabClient.Inv.create hi ctor dtor hsize.1 (by unfold blockSize; omega) with
      ⟨-, k'', V'', hn, -⟩ | ⟨-, d', k'', V'', o, he', -, -, -, -, hcache, horder, -⟩
    · rw [hn] at he
      cases he
    · obtain ⟨hd, rfl⟩ := Prod.mk.inj (Option.some.inj (he.symm.trans he'))
      obtain rfl := Option.some.inj hd
      rw [Cache.getOrder_object hsize.2, Option.some.injEq, Prod.mk.injEq] at horder
      exact ⟨.inl ((congrArg Cache.slabOrder hcache :).trans horder.1.symm),
        (congrArg Cache.slotSize hcache :)⟩
  have hold : ∀ c' d', cache c' = some d' → d' ≠ d := fun c' d' hc' hd =>
    hnew (hd ▸ (h.handle c' d' hc').1)
  refine ⟨ho.view, ho.ram, fun c' d' hc' => ?_, fun c₁ c₂ d' h₁ h₂ => ?_, h.nodup,
    fun c' p => ?_⟩
  · by_cases hcc : c' = c
    · subst hcc
      rw [update_self, Option.some.injEq] at hc'
      subst hc'
      exact ⟨List.mem_append_right _ (.head _), hholds⟩
    · rw [update_of_ne hcc] at hc'
      exact ho.handle c' d' hc'
  · by_cases hcc₁ : c₁ = c <;> by_cases hcc₂ : c₂ = c
    · rw [hcc₁, hcc₂]
    · subst hcc₁
      rw [update_self, Option.some.injEq] at h₁
      rw [update_of_ne hcc₂] at h₂
      exact absurd h₁.symm (hold c₂ d' h₂)
    · subst hcc₂
      rw [update_self, Option.some.injEq] at h₂
      rw [update_of_ne hcc₁] at h₁
      exact absurd h₂.symm (hold c₁ d' h₁)
    · rw [update_of_ne hcc₁] at h₁
      rw [update_of_ne hcc₂] at h₂
      exact h.apart c₁ c₂ d' h₁ h₂
  · rw [ho.live c' p]
    by_cases hcc : c' = c
    · subst hcc
      rw [hc, update_self]
      refine iff_of_false ?_ ?_
      · rintro ⟨d', hn, -⟩
        cases hn
      rintro ⟨d', hd', hl⟩
      obtain rfl := Option.some.inj hd'
      exact hnew (hi.owner _ hl)
    · rw [update_of_ne hcc]

/-- The objects of the kernel lie in the RAM. -/
theorem inRam (h : Owns s cache L) (hp : p ∈ L c) : ramStart ≤ p ∧ p < ramEnd := by
  obtain ⟨V, hi⟩ := h.view
  obtain ⟨d, hc, hl⟩ := (h.live c p).1 hp
  obtain ⟨hlo, hhi⟩ := h.ram
  obtain ⟨hin, hin'⟩ := Item.In.inside hi.whole (SlabClient.Inv.item_of_live hi hl)
  have hpos := hi.whole.slotSize_pos (hi.user d (h.handle c d hc).1).1
  simp only [Item.range] at hin hin'
  omega

end Owns

end SlabKernel
