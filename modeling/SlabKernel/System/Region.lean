import SlabKernel.Threads.Nodes

/-!
# The memory of the allocators does not move

Only `buddyInit` writes the bounds of the memory that the buddy allocator manages. Each function of
the slab allocator leaves them alone (`Region`), whatever the state, and so does every run of the
clients and of the other users (`SharedClient.run_region`).
-/

namespace SlabKernel

open Function (update)
open CachePool Runs

namespace Buddy

variable {b b' : Buddy}

theorem SameGeom.of_eq (h : b' = b) : SameGeom b b' := by
  subst h
  exact .rfl

theorem sameGeom_getBlock (b : Buddy) (order : Nat) : SameGeom b (b.getBlock order).2 := by
  unfold getBlock
  split
  · exact .rfl
  · exact ⟨rfl, rfl, rfl⟩

theorem sameGeom_splitBlock (b : Buddy) (addr upper lower : Nat) :
    SameGeom b (b.splitBlock addr upper lower) := by
  induction upper generalizing b with
  | zero => exact .rfl
  | succ upper ih =>
    unfold splitBlock
    split
    · exact ((sameGeom_addBlock _ _ _).trans (sameGeom_flipParent _ _ _)).trans (ih _)
    · exact .rfl

theorem sameGeom_allocLoop (b : Buddy) (order n curSize : Nat) :
    SameGeom b (b.allocLoop order n curSize).2 := by
  induction n generalizing b curSize with
  | zero => exact .rfl
  | succ n ih =>
    have hget := sameGeom_getBlock b curSize
    unfold allocLoop
    split
    · rename_i b₁ he
      rw [he] at hget
      exact hget.trans (ih b₁ _)
    · rename_i p b₁ he
      rw [he] at hget
      have hsplit := hget.trans (sameGeom_splitBlock b₁ p curSize order)
      dsimp only
      split
      · exact hsplit
      · exact hsplit.trans (sameGeom_flipBit _ _)

theorem sameGeom_alloc (b : Buddy) (order : Int) : SameGeom b (b.alloc order).2 := by
  unfold alloc
  split
  · exact .rfl
  · exact sameGeom_allocLoop b _ _ _

theorem sameGeom_coalesceLoop {order index n : Nat} {prev curr r : Ptr}
    (h : b.coalesceLoop order index n prev curr = some (r, b')) : SameGeom b b' := by
  induction n generalizing prev curr with
  | zero =>
    cases curr with
    | none =>
      obtain ⟨-, rfl⟩ := Prod.mk.inj (Option.some.inj h)
      exact .rfl
    | some curr => cases h
  | succ n ih =>
    cases curr with
    | none =>
      obtain ⟨-, rfl⟩ := Prod.mk.inj (Option.some.inj h)
      exact .rfl
    | some curr =>
      unfold coalesceLoop at h
      split at h
      · obtain ⟨-, rfl⟩ := Prod.mk.inj (Option.some.inj h)
        cases prev <;> exact ⟨rfl, rfl, rfl⟩
      · exact ih h

theorem sameGeom_returnBlock {order addr : Nat} {r : Ptr}
    (h : b.returnBlock order addr = some (r, b')) : SameGeom b b' := by
  unfold returnBlock at h
  split at h
  · obtain ⟨-, rfl⟩ := Prod.mk.inj (Option.some.inj h)
    exact sameGeom_addBlock _ _ _
  · dsimp only at h
    split at h
    · obtain ⟨⟨curr, b₁⟩, hc, h⟩ := Option.bind_eq_some_iff.1 h
      have hb : b₁ = b' := by
        cases curr <;> exact (Prod.mk.inj (Option.some.inj h)).2
      exact (sameGeom_flipBit _ _).trans (hb ▸ sameGeom_coalesceLoop hc)
    · obtain ⟨-, rfl⟩ := Prod.mk.inj (Option.some.inj h)
      exact (sameGeom_flipBit _ _).trans (sameGeom_addBlock _ _ _)

theorem sameGeom_freeLoop {n curSize curAddr : Nat} (h : b.freeLoop n curSize curAddr = some b') :
    SameGeom b b' := by
  induction n generalizing b curSize curAddr with
  | zero =>
    obtain rfl := Option.some.inj h
    exact .rfl
  | succ n ih =>
    unfold freeLoop at h
    split at h
    · cases h
    · rename_i b₁ he
      obtain rfl := Option.some.inj h
      exact sameGeom_returnBlock he
    · rename_i freeAddr b₁ he
      exact (sameGeom_returnBlock he).trans (ih h)

theorem sameGeom_free {addr : Ptr} {order : Nat} {r : Int}
    (h : b.free addr order = some (r, b')) : SameGeom b b' := by
  cases addr with
  | none =>
    obtain ⟨-, rfl⟩ := Prod.mk.inj (Option.some.inj h)
    exact .rfl
  | some addr =>
    obtain ⟨b₁, he, h⟩ := Option.map_eq_some_iff.1 h
    obtain ⟨-, rfl⟩ := Prod.mk.inj h
    exact sameGeom_freeLoop he

end Buddy

/-! ## Functions that do not call the buddy allocator -/

section

variable {k k' : Kmem} {c s p : Nat} {grp : SlabGroup}

@[simp] theorem Kmem.setPrev_buddy (k : Kmem) (p v : Ptr) : (k.setPrev p v).buddy = k.buddy := by
  cases p <;> rfl

@[simp] theorem Kmem.call_buddy (k : Kmem) (fn : Ptr) (obj : Nat) :
    (k.call fn obj).buddy = k.buddy := by
  cases fn <;> rfl

theorem Cache.moveFree_buddy (h : Cache.moveFree k c s grp = some k') : k'.buddy = k.buddy := by
  unfold Cache.moveFree at h
  obtain ⟨first, -, h⟩ := Option.bind_eq_some_iff.1 h
  dsimp only at h
  split at h <;>
  · obtain rfl := Option.some.inj h
    simp [Kmem.modCache, Kmem.modSlab]

theorem Cache.moveSlab_buddy (h : Cache.moveSlab k c s grp = some k') : k'.buddy = k.buddy := by
  unfold Cache.moveSlab at h
  dsimp only at h
  split at h
  · obtain ⟨first, -, h⟩ := Option.bind_eq_some_iff.1 h
    split at h <;>
    · obtain ⟨k₁, hk₁, h⟩ := Option.bind_eq_some_iff.1 h
      obtain rfl := Option.some.inj hk₁
      cases grp <;>
      · obtain rfl := Option.some.inj h
        simp [Kmem.modCache, Kmem.modSlab]
  · obtain ⟨k₁, hk₁, h⟩ := Option.bind_eq_some_iff.1 h
    obtain rfl := Option.some.inj hk₁
    cases grp <;>
    · obtain rfl := Option.some.inj h
      simp [Kmem.modCache, Kmem.modSlab]

theorem Slab.initSlab_buddy (k : Kmem) (s c : Nat) : (Slab.initSlab k s c).buddy = k.buddy := by
  simp [Slab.initSlab, Kmem.modCache, Kmem.modSlab]

theorem Slab.takeObject_buddy {slab r : Ptr} (h : Slab.takeObject k slab = some (r, k')) :
    k'.buddy = k.buddy := by
  cases slab with
  | none =>
    obtain ⟨-, rfl⟩ := Prod.mk.inj (Option.some.inj h)
    rfl
  | some s =>
    obtain ⟨mem, -, h⟩ := Option.bind_eq_some_iff.1 h
    obtain ⟨owner, -, h⟩ := Option.bind_eq_some_iff.1 h
    obtain ⟨-, rfl⟩ := Prod.mk.inj (Option.some.inj h)
    rfl

theorem Slab.updateSlab_buddy (h : Slab.updateSlab k s = some k') : k'.buddy = k.buddy := by
  have hmove : ∀ {r : Option Kmem}, (∀ k₁, r = some k₁ → k₁.buddy = k.buddy) →
      (r.bind fun k => some (k.modSlab s fun x =>
        { x with numOfFreeSlots := x.numOfFreeSlots + 1 })) = some k' → k'.buddy = k.buddy :=
    fun hr h => by
      obtain ⟨k₁, hk₁, h⟩ := Option.bind_eq_some_iff.1 h
      obtain rfl := Option.some.inj h
      exact hr k₁ hk₁
  have howner : ∀ {grp} k₁, ((k.slab s).owner.bind fun owner => Cache.moveSlab k owner s grp) =
      some k₁ → k₁.buddy = k.buddy := fun k₁ h₁ => by
    obtain ⟨owner, -, h₁⟩ := Option.bind_eq_some_iff.1 h₁
    exact Cache.moveSlab_buddy h₁
  unfold Slab.updateSlab at h
  dsimp only at h
  split at h
  · split at h <;> exact hmove howner h
  · split at h
    · exact hmove howner h
    · exact hmove (fun k₁ hk₁ => Option.some.inj hk₁ ▸ rfl) h

theorem Slab.putIndex_buddy (h : Slab.putIndex k s p = some k') : k'.buddy = k.buddy := by
  obtain ⟨mem, -, h⟩ := Option.bind_eq_some_iff.1 h
  obtain ⟨owner, -, h⟩ := Option.bind_eq_some_iff.1 h
  obtain rfl := Option.some.inj h
  rfl

theorem Slab.putObject_buddy (h : Slab.putObject k p c = some k') : k'.buddy = k.buddy := by
  unfold Slab.putObject at h
  dsimp only at h
  split at h
  · obtain rfl := Option.some.inj h
    rfl
  · obtain ⟨k₁, hk₁, h⟩ := Option.bind_eq_some_iff.1 h
    obtain ⟨owner, -, h⟩ := Option.bind_eq_some_iff.1 h
    rw [Slab.putIndex_buddy h, Kmem.call_buddy, Kmem.call_buddy, Slab.updateSlab_buddy hk₁]

theorem Cache.cacheFree_buddy {objp : Ptr} (h : Cache.cacheFree k c objp = some k') :
    k'.buddy = k.buddy := by
  cases objp with
  | none =>
    obtain rfl := Option.some.inj h
    rfl
  | some p => exact Slab.putObject_buddy h

theorem kfree_buddy {objp : Ptr} (h : kfree k objp = some k') : k'.buddy = k.buddy := by
  cases objp with
  | none =>
    obtain rfl := Option.some.inj h
    rfl
  | some p =>
    obtain ⟨r, -, h⟩ := Option.bind_eq_some_iff.1 h
    cases r with
    | none =>
      obtain rfl := Option.some.inj h
      rfl
    | some header =>
      obtain ⟨k₁, hk₁, h⟩ := Option.bind_eq_some_iff.1 h
      rw [Slab.putIndex_buddy h, Slab.updateSlab_buddy hk₁]

theorem Cache.takePartial_buddy {r : Ptr} (h : Cache.takePartial k c = some (r, k')) :
    k'.buddy = k.buddy := by
  unfold Cache.takePartial at h
  obtain ⟨⟨objp, k₁⟩, hk₁, h⟩ := Option.bind_eq_some_iff.1 h
  rw [← Slab.takeObject_buddy hk₁]
  dsimp only at h
  split at h
  · split at h
    · obtain ⟨k₂, hk₂, h⟩ := Option.bind_eq_some_iff.1 h
      obtain ⟨-, rfl⟩ := Prod.mk.inj (Option.some.inj h)
      exact Cache.moveSlab_buddy hk₂
    · obtain ⟨-, rfl⟩ := Prod.mk.inj (Option.some.inj h)
      rfl
  · obtain ⟨-, rfl⟩ := Prod.mk.inj (Option.some.inj h)
    rfl

theorem CachePool.unlinkCache_buddy (h : unlinkCache k c = some k') : k'.buddy = k.buddy := by
  unfold unlinkCache at h
  split at h
  · obtain ⟨first, -, h⟩ := Option.bind_eq_some_iff.1 h
    dsimp only at h
    split at h <;>
    · obtain rfl := Option.some.inj h
      rfl
  · obtain ⟨last, -, h⟩ := Option.bind_eq_some_iff.1 h
    obtain ⟨t, -, h⟩ := Option.bind_eq_some_iff.1 h
    obtain rfl := Option.some.inj h
    rfl
  · obtain rfl := Option.some.inj h
    rfl

theorem CachePool.bufferInit_buddy {index size : Nat} (h : bufferInit k index size = some k') :
    k'.buddy = k.buddy := by
  obtain ⟨c, -, h⟩ := Option.bind_eq_some_iff.1 h
  obtain rfl := Option.some.inj h
  rfl

end

/-! ## Functions that call the buddy allocator -/

/-- The two states manage the same memory. -/
abbrev Kmem.Region (k k' : Kmem) : Prop := Buddy.SameGeom k.buddy k'.buddy

section

variable {k k' : Kmem} {c s p : Nat}

theorem Kmem.free_region {addr : Ptr} {order : Nat} (h : k.free addr order = some k') :
    k.Region k' := by
  obtain ⟨⟨r, b⟩, hb, rfl⟩ := Option.map_eq_some_iff.1 h
  exact Buddy.sameGeom_free hb

/-! ### Allocation -/

theorem Slab.createSlab_region {size : Nat} (h : Slab.createSlab k size c = some k') :
    k.Region k' := by
  have hb := Buddy.sameGeom_alloc k.buddy size
  unfold Slab.createSlab at h
  split at h
  · rename_i b he
    obtain rfl := Option.some.inj h
    rw [he] at hb
    exact hb
  · rename_i newSlab b he
    rw [he] at hb
    -- the constructors leave the buddy allocator alone
    have hfold : ∀ (l : List Nat) (ctor : Kmem → Ptr) (obj : Kmem → Nat → Nat) (k : Kmem),
        (l.foldl (fun k i => k.call (ctor k) (obj k i)) k).buddy = k.buddy := by
      intro l ctor obj k
      induction l generalizing k with
      | nil => rfl
      | cons i l ih => rw [List.foldl_cons, ih, Kmem.call_buddy]
    refine hb.trans (.of_eq ?_)
    rw [Cache.moveFree_buddy h, hfold]
    exact Slab.initSlab_buddy _ _ _

theorem Slab.createBufferSlab_region {cacheAlloc : Kmem → Nat → Option (Ptr × Kmem)} {size : Nat}
    (hall : ∀ k c r k', cacheAlloc k c = some (r, k') → k.Region k')
    (h : Slab.createBufferSlab cacheAlloc k size c = some k') : k.Region k' := by
  unfold Slab.createBufferSlab at h
  split at h
  · obtain rfl := Option.some.inj h
    exact .rfl
  · obtain ⟨⟨r, k₁⟩, hk₁, h⟩ := Option.bind_eq_some_iff.1 h
    have h₁ := hall _ _ _ _ hk₁
    cases r with
    | none =>
      obtain rfl := Option.some.inj h
      exact h₁
    | some newSlab =>
      have hb := Buddy.sameGeom_alloc k₁.buddy size
      dsimp only at h
      split at h
      · obtain rfl := Option.some.inj h
        exact h₁.trans hb
      · refine h₁.trans (hb.trans (.of_eq ?_))
        rw [Cache.moveFree_buddy h, Slab.initSlab_buddy]
        rfl

theorem Cache.refill_region {slabAlloc : Kmem → Nat → Option Kmem}
    (hall : ∀ k c k', slabAlloc k c = some k' → k.Region k')
    (h : Cache.refill slabAlloc k c = some k') : k.Region k' := by
  unfold Cache.refill at h
  split at h
  · exact hall _ _ _ h
  · split at h
    · exact .of_eq (Cache.moveFree_buddy h)
    · obtain rfl := Option.some.inj h
      exact .rfl

theorem Cache.cacheAllocDepth_region {depth : Nat} {r : Ptr}
    (h : Cache.cacheAllocDepth depth k c = some (r, k')) : k.Region k' := by
  induction depth generalizing k k' c r with
  | zero => cases h
  | succ depth ih =>
    obtain ⟨k₁, hk₁, h⟩ := Option.bind_eq_some_iff.1 h
    have h₁ : k.Region k₁ := by
      refine Cache.refill_region (fun k c k' hk => ?_) hk₁
      unfold Cache.slabAlloc at hk
      split at hk
      · exact Slab.createSlab_region hk
      · exact Slab.createBufferSlab_region (fun k c r k' => ih) hk
    refine h₁.trans (.of_eq ?_)
    rw [Cache.takePartial_buddy h]
    split <;> rfl

theorem kmem_cache_alloc_region {r : Ptr} (h : kmem_cache_alloc k c = some (r, k')) :
    k.Region k' :=
  Cache.cacheAllocDepth_region h

theorem kmem_cache_create_region {size : Nat} {ctor dtor r : Ptr}
    (h : kmem_cache_create k size ctor dtor = some (r, k')) : k.Region k' := by
  have hb : Buddy.SameGeom k.buddy k.buddyCreated := by
    unfold Kmem.buddyCreated
    split
    · exact Buddy.sameGeom_alloc _ _
    · exact .rfl
  unfold Kmem.Region
  rw [kmem_cache_create_buddy h]
  exact hb

theorem kmalloc_region {size : Nat} {r : Ptr} (h : kmalloc k size = some (r, k')) :
    k.Region k' := by
  unfold kmalloc allocateBuffer at h
  split at h
  · obtain ⟨-, rfl⟩ := Prod.mk.inj (Option.some.inj h)
    exact .rfl
  · have hend : ∀ {k₁ : Kmem} {i : Nat}, ((k₁.memoryBuffers i).bind fun c =>
        Cache.cacheAlloc k₁ c) = some (r, k') → k₁.Region k' := fun h => by
      obtain ⟨c, -, h⟩ := Option.bind_eq_some_iff.1 h
      exact kmem_cache_alloc_region h
    dsimp only at h
    split at h
    · obtain ⟨k₁, hk₁, h⟩ := Option.bind_eq_some_iff.1 h
      obtain rfl := Option.some.inj hk₁
      exact hend h
    · obtain ⟨⟨c, k₁⟩, hk₁, h⟩ := Option.bind_eq_some_iff.1 h
      obtain ⟨k₂, hk₂, h⟩ := Option.bind_eq_some_iff.1 h
      have h₂ : k₂.buddy = _ := bufferInit_buddy hk₂
      exact (kmem_cache_create_region hk₁).trans (.trans (.of_eq h₂) (hend h))

/-! ### Destruction -/

theorem Slab.destroySlab_region (h : Slab.destroySlab k s = some k') : k.Region k' := by
  -- the end, after the calls of the destructor
  have hend : ∀ {k₁ : Kmem} {mem : Ptr} {type : Int} {order i : Nat},
      (if type = 0 then k₁.free (some s) order >>= fun k =>
          some (k.modSlab s fun x => { x with owner := none })
        else k₁.free mem order >>= fun k => k.memBuffSlabs i >>= fun slabCache =>
          Cache.cacheFree k slabCache (some s)) = some k' → k₁.Region k' := fun h => by
    split at h
    · obtain ⟨k₂, hk₂, h⟩ := Option.bind_eq_some_iff.1 h
      obtain rfl := Option.some.inj h
      have h₂ := Kmem.free_region hk₂
      exact h₂
    · obtain ⟨k₂, hk₂, h⟩ := Option.bind_eq_some_iff.1 h
      obtain ⟨d, -, h⟩ := Option.bind_eq_some_iff.1 h
      exact (Kmem.free_region hk₂).trans (.of_eq (Cache.cacheFree_buddy h))
  obtain ⟨owner, -, h⟩ := Option.bind_eq_some_iff.1 h
  dsimp only at h
  split at h
  · obtain ⟨k₁, hk₁, h⟩ := Option.bind_eq_some_iff.1 h
    obtain rfl := Option.some.inj hk₁
    exact hend h
  · obtain ⟨mem, -, h⟩ := Option.bind_eq_some_iff.1 h
    obtain ⟨k₁, hk₁, h⟩ := Option.bind_eq_some_iff.1 h
    obtain rfl := Option.some.inj hk₁
    have hr := hend h
    exact hr

theorem Cache.shrinkLoop_region {this fuel count n : Nat} {curr : Ptr}
    (h : Cache.shrinkLoop this fuel curr count k = some (n, k')) : k.Region k' := by
  induction fuel generalizing curr count k with
  | zero =>
    cases curr with
    | none =>
      obtain ⟨-, rfl⟩ := Prod.mk.inj (Option.some.inj h)
      exact .rfl
    | some old => cases h
  | succ fuel ih =>
    cases curr with
    | none =>
      obtain ⟨-, rfl⟩ := Prod.mk.inj (Option.some.inj h)
      exact .rfl
    | some old =>
      obtain ⟨owner, -, h⟩ := Option.bind_eq_some_iff.1 h
      obtain ⟨k₁, hk₁, h⟩ := Option.bind_eq_some_iff.1 h
      have h₁ := Slab.destroySlab_region hk₁
      exact h₁.trans (ih h)

theorem Cache.deallocSlabGroup_region {fuel : Nat} {curr : Ptr}
    (h : Cache.deallocSlabGroup fuel curr k = some k') : k.Region k' := by
  induction fuel generalizing curr k with
  | zero =>
    cases curr with
    | none =>
      obtain rfl := Option.some.inj h
      exact .rfl
    | some old => cases h
  | succ fuel ih =>
    cases curr with
    | none =>
      obtain rfl := Option.some.inj h
      exact .rfl
    | some old =>
      obtain ⟨k₁, hk₁, h⟩ := Option.bind_eq_some_iff.1 h
      exact (Slab.destroySlab_region hk₁).trans (ih h)

theorem kmem_cache_destroy_region {cachep : Ptr} (h : kmem_cache_destroy k cachep = some k') :
    k.Region k' := by
  cases cachep with
  | none =>
    obtain rfl := Option.some.inj h
    exact .rfl
  | some c =>
    obtain ⟨k₁, hk₁, h⟩ := Option.bind_eq_some_iff.1 h
    have h₁ : k.Region k₁ := by
      obtain ⟨k₂, hk₂, hk₁⟩ := Option.bind_eq_some_iff.1 hk₁
      obtain ⟨k₃, hk₃, hk₁⟩ := Option.bind_eq_some_iff.1 hk₁
      exact (Cache.deallocSlabGroup_region hk₂).trans ((Cache.deallocSlabGroup_region hk₃).trans
        (Cache.deallocSlabGroup_region hk₁))
    obtain ⟨k₂, hk₂, h⟩ := Option.bind_eq_some_iff.1 h
    have h₂ : k₁.Region k₂ := .of_eq (unlinkCache_buddy hk₂)
    refine h₁.trans (h₂.trans ?_)
    dsimp only at h
    split at h
    · unfold destroyRecord at h
      obtain ⟨prev, -, h⟩ := Option.bind_eq_some_iff.1 h
      obtain ⟨q, -, h⟩ := Option.bind_eq_some_iff.1 h
      have hf := Kmem.free_region h
      refine .trans (.of_eq ?_) hf
      split <;> rfl
    · obtain rfl := Option.some.inj h
      exact .rfl

theorem kmem_cache_shrink_region {n : Nat} (h : kmem_cache_shrink k c = some (n, k')) :
    k.Region k' := by
  unfold kmem_cache_shrink Cache.cacheShrink at h
  split at h
  · obtain ⟨-, rfl⟩ := Prod.mk.inj (Option.some.inj h)
    exact .rfl
  · exact Cache.shrinkLoop_region h

/-! ### Boot -/

theorem CachePool.createRecord_region {r : Ptr} (h : createRecord k = some (r, k')) :
    k.Region k' := by
  have hb := Buddy.sameGeom_alloc k.buddy 0
  unfold createRecord at h
  split at h
  · rename_i b he
    obtain ⟨-, rfl⟩ := Prod.mk.inj (Option.some.inj h)
    rw [he] at hb
    exact hb
  · rename_i b he
    obtain ⟨n, -, h⟩ := Option.bind_eq_some_iff.1 h
    obtain ⟨-, rfl⟩ := Prod.mk.inj (Option.some.inj h)
    rw [he] at hb
    exact hb

theorem CachePool.SlabInitLoop_region {n i : Nat} (h : SlabInitLoop n i k = some k') :
    k.Region k' := by
  induction n generalizing i k with
  | zero =>
    obtain rfl := Option.some.inj h
    exact .rfl
  | succ n ih =>
    obtain ⟨⟨c, k₁⟩, hk₁, h⟩ := Option.bind_eq_some_iff.1 h
    have h' := ih h
    exact (kmem_cache_create_region hk₁).trans h'

/-- `kmem_init` manages the memory that `buddyInit` has set aside. -/
theorem kmem_init_region {heap : HeapBounds} {maxOrder space : Nat} {blockNum : Int}
    (h : kmem_init heap maxOrder space blockNum = some k) :
    ∃ b heap', Buddy.buddyInit heap maxOrder space blockNum = some (b, heap') ∧
      Buddy.SameGeom b k.buddy := by
  obtain ⟨⟨b, heap'⟩, hb, h⟩ := Option.bind_eq_some_iff.1 h
  obtain ⟨k₁, hk₁, h⟩ := Option.bind_eq_some_iff.1 h
  obtain ⟨⟨r, k₂⟩, hk₂, hk₁⟩ := Option.bind_eq_some_iff.1 hk₁
  obtain ⟨record, -, hk₁⟩ := Option.bind_eq_some_iff.1 hk₁
  obtain rfl := Option.some.inj hk₁
  have h₂ := CachePool.createRecord_region hk₂
  have h₁ := CachePool.SlabInitLoop_region h
  exact ⟨b, heap', hb, h₂.trans h₁⟩

end

/-! ## Runs -/

namespace SharedClient

variable {s s' : SharedClient}

theorem step_region {op : SharedCall} (h : s.step op = some s') :
    s.client.kmem.Region s'.client.kmem := by
  cases op with
  | call op =>
    obtain ⟨client, hc, rfl⟩ := Option.map_eq_some_iff.1 h
    cases op <;> obtain ⟨r, hr, rfl⟩ := Option.map_eq_some_iff.1 hc
    · exact kmem_cache_create_region hr
    · exact kmem_cache_alloc_region hr
    · exact .of_eq (Cache.cacheFree_buddy hr)
    · exact kmem_cache_destroy_region hr
    · exact kmem_cache_shrink_region hr
    · exact kmalloc_region hr
    · exact .of_eq (kfree_buddy hr)
  | take order =>
    obtain rfl := Option.some.inj h
    exact Buddy.sameGeom_alloc _ _
  | give addr order =>
    obtain ⟨k, hk, rfl⟩ := Option.map_eq_some_iff.1 h
    exact Kmem.free_region hk

theorem run_region {ok : SharedClient → SharedCall → Prop} {ops : List SharedCall}
    (h : Run ok SharedClient.step s ops s') : s.client.kmem.Region s'.client.kmem := by
  induction h with
  | nil => exact .rfl
  | cons _ hs _ ih => exact (step_region hs).trans ih

end SharedClient

end SlabKernel
