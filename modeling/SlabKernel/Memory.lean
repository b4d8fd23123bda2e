import SlabKernel.Mmu.Ownership
import SlabKernel.Slab.Cells
import SlabKernel.Slab.Sharing
import SlabKernel.Slab.Small

/-!
# The allocators together

The slab allocator and the page table take their pages from one buddy allocator. `Memory` is the
clients of the slab allocator with the page table, their calls interleaved. Each of the two keeps its
invariant with the blocks of the other beside its own (`Memory.Inv`), so all that they keep in memory
lies apart (`allocators_disjoint`). A call changes only the caches that it uses.
-/

namespace SlabKernel

open Function (update update_self update_of_ne)
open PtrList CachePool Runs Radix

/-! ## The page table's pages -/

namespace MMU

/-- The pages of the tables, the root last. -/
def tables (s : MMU) : List Nat :=
  s.rootTablePointer.elim [] fun root => s.subtables root ++ [root]

variable {s : MMU} {live : List (Nat × Nat)} {b : Buddy}

theorem Inv.tables_live (h : s.Inv live) : Buddy.Inv s.buddy (s.tables.map (·, 0) ++ live) := by
  obtain ⟨hr, addr, tables, hrep⟩ := h
  obtain ⟨root, hr⟩ := Option.ne_none_iff_exists'.1 hr
  unfold MMU.tables
  rw [hr, Option.elim_some]
  exact hrep.buddy.perm (((hrep.tables_perm hr).map (·, 0)).append_right live)

/-- What others do to the buddy allocator does not concern the tables. -/
theorem Inv.withBuddy {live' : List (Nat × Nat)} (h : s.Inv live)
    (hb : Buddy.Inv b (s.tables.map (·, 0) ++ live')) (hstart : blockSize ∣ b.kernelStartAddr) :
    MMU.Inv { s with buddy := b } live' := by
  obtain ⟨hr, addr, tables, hrep⟩ := h
  obtain ⟨root, hroot⟩ := Option.ne_none_iff_exists'.1 hr
  unfold MMU.tables at hb
  rw [hroot, Option.elim_some] at hb
  refine ⟨hr, addr, tables, { hrep with buddy := ?_, start := hstart }⟩
  exact hb.perm (((hrep.tables_perm hroot).map (·, 0)).append_right live').symm

end MMU

/-! ## The memory -/

/-- The clients of the slab allocator and the page table; their buddy allocator is the same. -/
structure Memory where
  client : SlabClient
  mmu : MMU

inductive MemoryCall
  | slab (op : SlabCall)
  | page (call : PageCall)

namespace Memory

/-- A call of a client, or one on the page table. -/
def step (s : Memory) : MemoryCall → Option Memory
  | .slab op => (s.client.step op).map fun client =>
    { client, mmu := { s.mmu with buddy := client.kmem.buddy } }
  | .page call => (PageClient.step ⟨s.mmu, []⟩ call).map fun t =>
    { client := { s.client with kmem := { s.client.kmem with buddy := t.mmu.buddy } }, mmu := t.mmu }

/-- Objects are small, buffers are requested by powers of two, and pages lie below `2 ^ 39`. -/
def Ok (s : Memory) : MemoryCall → Prop
  | .slab op => s.client.SmallOk op
  | .page call => call.Own ∧ PageClient.Ok ⟨s.mmu, []⟩ call

/-- After `kmem_init` and the first statements of `MMUInit`. -/
def boot (k : Kmem) (mmu : MMU) : Memory where
  client := .boot { k with buddy := mmu.buddy }
  mmu

/-- The caches that a call may change. -/
def Uses (s s' : Memory) : MemoryCall → Nat → Prop
  | .slab op => s.client.Uses s'.client op
  | .page _ => fun _ => False

/-- The blocks of the page table. -/
abbrev pages (s : Memory) : List (Nat × Nat) := s.mmu.tables.map (·, 0)

/-- Each of the two allocators has the blocks of the other beside its own. -/
structure Inv (s : Memory) (V : View) : Prop where
  client : s.client.Inv V s.pages
  paged : s.client.Paged
  mmu : s.mmu.Inv (V.blocks s.client.kmem)
  same : s.mmu.buddy = s.client.kmem.buddy

variable {s s' : Memory} {V : View} {op : SlabCall} {call : PageCall} {m : MemoryCall}

/-! ## Steps -/

/-- The client's calls leave the tables alone. -/
theorem Inv.slab (h : s.Inv V) (hok : s.client.SmallOk op) (hs : s.step (.slab op) = some s') :
    ∃ V', s'.Inv V' ∧ Frame s.client.kmem s'.client.kmem V V' (s.Uses s' (.slab op)) := by
  obtain ⟨client, hc, rfl⟩ := Option.map_eq_some_iff.1 hs
  obtain ⟨V', hi, hp, hk⟩ := h.client.small h.paged hok hc
  refine ⟨V', ⟨hi, hp, ?_, rfl⟩, hk.frame⟩
  exact h.mmu.withBuddy (hi.whole.buddy.perm List.perm_append_comm) hi.whole.start

/-- The page table's calls do not depend on the blocks of others. -/
theorem own_step {mmu : MMU} {others : List (Nat × Nat)} {t : PageClient} (hown : call.Own)
    (hs : PageClient.step ⟨mmu, []⟩ call = some t) :
    PageClient.step ⟨mmu, others⟩ call = some ⟨t.mmu, others⟩ := by
  cases call with
  | map vaddr bits =>
    obtain ⟨mmu', he, rfl⟩ := Option.map_eq_some_iff.1 hs
    exact Option.map_eq_some_iff.2 ⟨mmu', he, rfl⟩
  | pmap start end_ bits =>
    obtain ⟨mmu', he, rfl⟩ := Option.map_eq_some_iff.1 hs
    exact Option.map_eq_some_iff.2 ⟨mmu', he, rfl⟩
  | punmap start end_ =>
    obtain ⟨mmu', he, rfl⟩ := Option.map_eq_some_iff.1 hs
    exact Option.map_eq_some_iff.2 ⟨mmu', he, rfl⟩
  | invalid vaddr =>
    obtain ⟨mmu', he, rfl⟩ := Option.map_eq_some_iff.1 hs
    exact Option.map_eq_some_iff.2 ⟨mmu', he, rfl⟩
  | take order => exact hown.elim
  | give addr order => exact hown.elim

theorem own_ok {mmu : MMU} {others : List (Nat × Nat)} (hown : call.Own)
    (hok : PageClient.Ok ⟨mmu, []⟩ call) : PageClient.Ok ⟨mmu, others⟩ call := by
  cases call with
  | map vaddr bits => exact hok
  | pmap start end_ bits => exact hok
  | punmap start end_ => exact hok
  | invalid vaddr => exact hok
  | take order => exact hown.elim
  | give addr order => exact hown.elim

/-- A call on the page table leaves the slab allocator alone, but for the buddy allocator. -/
theorem Inv.page (h : s.Inv V) (hok : s.Ok (.page call)) (hs : s.step (.page call) = some s') :
    ∃ V', s'.Inv V' ∧ Frame s.client.kmem s'.client.kmem V V' (s.Uses s' (.page call)) := by
  obtain ⟨hown, hok⟩ := hok
  obtain ⟨t, ht, rfl⟩ := Option.map_eq_some_iff.1 hs
  have hpage : PageClient.Inv ⟨s.mmu, V.blocks s.client.kmem⟩ := h.mmu
  obtain ⟨hinv, hsame, -⟩ := hpage.step (own_ok hown hok) (own_step hown ht)
  have hmmu : t.mmu.Inv (V.blocks s.client.kmem) := hinv
  have hg : Buddy.SameGeom s.client.kmem.buddy t.mmu.buddy := h.same ▸ hsame.geom
  have hb := hmmu.tables_live.perm List.perm_append_comm
  refine ⟨V, ⟨h.client.withBuddy hb hg, h.paged, hmmu, rfl⟩, ?_⟩
  exact (h.client.whole.withBuddy hb hg.start _).frame

theorem Inv.step (h : s.Inv V) (hok : s.Ok m) (hs : s.step m = some s') :
    ∃ V', s'.Inv V' ∧ Frame s.client.kmem s'.client.kmem V V' (s.Uses s' m) := by
  cases m with
  | slab op => exact h.slab hok hs
  | page call => exact h.page hok hs

/-! ## Runs -/

theorem boot_inv {heap : HeapBounds} {space : Nat} {blockNum : Int} {ld : Linker} {k : Kmem}
    {mmu : MMU} (hinit : kmem_init heap 12 space blockNum = some k)
    (hroot : (MMU.unset k.buddy).allocRoot.map (·.sectionMap ld) = some mmu) :
    ∃ V, (boot k mmu).Inv V := by
  obtain ⟨V, hV, hp⟩ := SlabClient.boot_small hinit
  have hb : Buddy.Inv (MMU.unset k.buddy).buddy (V.blocks k) := by
    have := hV.whole.buddy
    rw [List.append_nil] at this
    exact this
  obtain ⟨hmmu, hg, -⟩ := MMU.allocRoot_inv hb hV.whole.start hroot
  have hlive := hmmu.tables_live.perm List.perm_append_comm
  exact ⟨V, hV.withBuddy hlive hg, hp, hmmu, rfl⟩

theorem run_inv {ops : List MemoryCall} (h : ∃ V, s.Inv V) (hrun : Run Ok step s ops s') :
    ∃ V, s'.Inv V := by
  refine hrun.inv (fun s => ∃ V, s.Inv V) (fun s₁ m s₂ h₁ hok hs => ?_) h
  obtain ⟨V, h₁⟩ := h₁
  obtain ⟨V', h₂, -⟩ := h₁.step hok hs
  exact ⟨V', h₂⟩

/-- What the two allocators keep in memory. -/
def Holds (s : Memory) (V : View) (x : Item) : Prop := x.In s.client.kmem V s.pages

abbrev range (s : Memory) (x : Item) : Nat × Nat := x.range s.client.kmem

/-- **The allocators' memory.** After any run of calls on caches, buffers and pages, no two of the
items that are live overlap: objects, headers of slabs with their arrays, caches, headers of records,
tables. They lie in the memory of the buddy allocator, and its links in the free blocks are in none of
them. Live objects and buffers are items; an object of a cache of descriptors may be the header
of a slab. The next call changes no slab, list, counter or object of a cache that it does not use. -/
theorem allocators_disjoint {heap : HeapBounds} {space : Nat} {blockNum : Int} {ld : Linker}
    {k : Kmem} {mmu : MMU} {ops : List MemoryCall}
    (hinit : kmem_init heap 12 space blockNum = some k)
    (hroot : (MMU.unset k.buddy).allocRoot.map (·.sectionMap ld) = some mmu)
    (hrun : Run Ok step (boot k mmu) ops s) :
    ∃ V, s.Inv V ∧
      (∀ x y, s.Holds V x → s.Holds V y → x ≠ y → Apart (s.range x) (s.range y)) ∧
      (∀ x, s.Holds V x →
        Within (s.range x) (s.client.kmem.buddy.kernelStartAddr, 2 ^ 12 * blockSize) ∧
        ∀ L, Buddy.FreeLists s.client.kmem.buddy L → ∀ j ≤ 12, ∀ f ∈ L j, Apart (s.range x) (f, 8)) ∧
      (∀ c ∈ V.caches, ∀ p, Live s.client.kmem V c p → s.Holds V (.object c p) ∨
        s.Holds V (.header p) ∧ s.range (.header p) = (p, (s.client.kmem.cache c).slotSize)) ∧
      (∀ q ∈ s.client.live, s.Holds V (.object q.1 q.2)) ∧
      (∀ q ∈ s.client.buffers, ∃ c, s.client.kmem.memoryBuffers (getPowerOfTwo q.2) = some c ∧
        s.Holds V (.object c q.1) ∧ q.2 ≤ (s.client.kmem.cache c).slotSize) ∧
      (∀ t ∈ s.mmu.tables, s.Holds V (.other (t, 0)) ∧ s.range (.other (t, 0)) = (t, pageSize)) ∧
      ∀ m s', s.Ok m → s.step m = some s' →
        ∃ V', s'.Inv V' ∧ Frame s.client.kmem s'.client.kmem V V' (s.Uses s' m) ∧
          ∀ c ∈ V.caches, ¬ s.Uses s' m c →
            ∀ p, Live s'.client.kmem V' c p ↔ Live s.client.kmem V c p := by
  obtain ⟨V, h⟩ := run_inv (boot_inv hinit hroot) hrun
  have hw := h.client.whole
  refine ⟨V, h, fun x y hx hy hne => ?_, fun x hx => ⟨?_, fun L hL j hj f hf => ?_⟩,
    fun c hc p hl => ?_, fun q hq => ?_, fun q hq => ?_, fun t ht => ⟨?_, ?_⟩, fun m s' hok hs => ?_⟩
  · exact Item.apart hw hx hy hne
  · exact Item.In.inside hw hx
  · exact Item.In.apart_free hw hx hL hj hf
  · exact Item.of_live hw hc hl
  · exact h.client.item_of_live hq
  · exact h.client.item_of_buffer hq
  · exact List.mem_map.2 ⟨t, ht, rfl⟩
  · simp only [Item.range, blockRange]
    rfl
  · obtain ⟨V', h', hf⟩ := h.step hok hs
    exact ⟨V', h', hf, fun c hc hS p => hf.live hc hS⟩

theorem allocators_disjoint_heap128 : ∃ k mmu s V,
    kmem_init Buddy.heap128 12 Buddy.heap128.startAddr 4096 = some k ∧
    (MMU.unset k.buddy).allocRoot.map (·.sectionMap PageClient.linker128) = some mmu ∧
    Run Ok step (boot k mmu)
      [.slab (.create 64 none none), .page (.map 0x8000b000 0x1e), .slab (.kmalloc 64)] s ∧
    s.Inv V ∧ ∀ x y, s.Holds V x → s.Holds V y → x ≠ y → Apart (s.range x) (s.range y) := by
  have h : ((kmem_init Buddy.heap128 12 Buddy.heap128.startAddr 4096).bind fun k =>
      ((MMU.unset k.buddy).allocRoot.map (·.sectionMap PageClient.linker128)).bind fun mmu =>
      [.slab (.create 64 none none), .page (.map 0x8000b000 0x1e), .slab (.kmalloc 64)].foldlM
        step (boot k mmu)).isSome = true := by
    decide +kernel
  obtain ⟨s, hs⟩ := Option.isSome_iff_exists.1 h
  obtain ⟨k, hk, hs⟩ := Option.bind_eq_some_iff.1 hs
  obtain ⟨mmu, hmmu, hs⟩ := Option.bind_eq_some_iff.1 hs
  have hrun : Run Ok step (boot k mmu) _ s := .of_foldlM (fun m hm s => by
    simp only [List.mem_cons, List.not_mem_nil, or_false] at hm
    rcases hm with rfl | rfl | rfl
    · exact ⟨by decide, by decide⟩
    · exact ⟨trivial, (by decide : 0x8000b000 < 2 ^ 39)⟩
    · exact ⟨6, rfl⟩) hs
  obtain ⟨V, hV, hapart, -⟩ := allocators_disjoint hk hmmu hrun
  exact ⟨k, mmu, s, V, hk, hmmu, hrun, hV, hapart⟩

end Memory

end SlabKernel
