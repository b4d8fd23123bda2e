import SlabKernel.Buddy.Tiling
import SlabKernel.Lib.Queues
import SlabKernel.Slab.Alloc

/-!
# The invariant of the slab allocator

A `View` is what the memory represents: the caches, the lists and chains of their slabs, the cache
records and their free slots. `k.Inv V extra` relates it to the state: the lists are well formed,
every slab lies where its cache needs it (`Placed`), and the buddy allocator has handed out exactly
the blocks of the records and slabs, and those of `extra`. `k.Pooled V extra` adds that the
caches are those on the list of caches, each in its slot of a record, and `k.Whole V extra` that the
caches of the size classes are among them.

A creation that fails loses the tail of the list of records, and a later one then starts a new list:
the records from `head` on (`View.listed`) need not be all records. They are as long as no creation
fails (`Unbroken`).

A live object is a slot that is not on the chain of its slab. Blocks are disjoint, so slots are
(`Inv.slot_apart`). An operation on one cache keeps the invariant if it keeps the part of that cache
(`Inv.of_touched`).
-/

namespace SlabKernel

open Function (update update_self update_of_ne update_eq_self)
open PtrList

/-! ## Layout -/

/-- The number of objects of a slab of the size class `i`: `numObjects` of `SlabInit`. -/
def numObjects (i : Nat) : Nat :=
  if blockSize < 2 ^ (minBuffOrder + i) then 1 else blockSize / 2 ^ (minBuffOrder + i)

/-- A cache of objects: the header of a slab and its objects share a block. -/
structure Cache.IsObject (C : Cache) : Prop where
  type : C.type = 0
  slabSize : C.slabSize = 2 ^ C.slabOrder * blockSize
  slotSize : 1 ≤ C.slotSize
  fits : sizeofSlab + 4 * C.objNum + C.objNum * C.slotSize ≤ C.slabSize

/-- Every object starts in the page of the header of its slab. -/
def Cache.InPage (C : Cache) : Prop := C.slabOrder = 0 ∨ C.objNum = 1

instance (C : Cache) : Decidable C.InPage := inferInstanceAs (Decidable (_ ∨ _))

/-- The cache of the buffers of the size class `i`: a slab is a block of buffers. -/
structure Cache.IsBuffer (C : Cache) (i : Nat) : Prop where
  type : C.type = 1
  slotSize : C.slotSize = 2 ^ (minBuffOrder + i)
  slabOrder : C.slabOrder = CachePool.getOrder (2 ^ (minBuffOrder + i))
  slabSize : C.slabSize = 2 ^ C.slabOrder * blockSize
  order : C.slabOrder = 0 ∨ C.objNum = 1
  objNum : C.objNum = numObjects i
  fits : C.objNum * C.slotSize ≤ C.slabSize

/-- What the memory of the slab allocator represents. -/
structure View where
  caches : List Nat
  lists : Nat → SlabGroup → List Nat
  chain : Nat → List Nat
  records : List Nat
  listed : List Nat
  slots : Nat → List Nat

/-- The slabs of the cache `c`. -/
def View.slabs (V : View) (c : Nat) : List Nat := slabsOf (V.lists c)

/-- The block of the slab `s` of the cache `c`: address and order. -/
def Kmem.block (k : Kmem) (c s : Nat) : Nat × Nat :=
  (if (k.cache c).type = 0 then s else (k.slab s).mem.getD 0, (k.cache c).slabOrder)

/-- The blocks of the slabs of the cache `c`. -/
def View.slabBlocks (V : View) (k : Kmem) (c : Nat) : List (Nat × Nat) :=
  (V.slabs c).map (k.block c)

/-- The blocks of the slab allocator. -/
def View.blocks (V : View) (k : Kmem) : List (Nat × Nat) :=
  V.records.map (·, 0) ++ V.caches.flatMap (V.slabBlocks k)

/-- The slot `i` of the slab `s` of the cache `c` is at `p`. -/
structure Slot (k : Kmem) (V : View) (c s i p : Nat) : Prop where
  slab : s ∈ V.slabs c
  lt : i < (k.cache c).objNum
  addr : ∃ m, (k.slab s).mem = some m ∧ p = m + i * (k.cache c).slotSize

/-- There is a live object of the cache `c` at `p`. -/
def Live (k : Kmem) (V : View) (c p : Nat) : Prop := ∃ s i, Slot k V c s i p ∧ i ∉ V.chain s

/-- The slab `s` of the cache `c` is in place. A buffer slab has its header in a live object of
another cache. -/
structure Placed (k : Kmem) (V : View) (c s : Nat) : Prop where
  object : (k.cache c).type = 0 → (k.slab s).mem = some (s + sizeofSlab + 4 * (k.cache c).objNum)
  buffer : (k.cache c).type ≠ 0 → (k.slab s).mem ≠ none ∧
    ∃ d ∈ V.caches, k.memBuffSlabs (CachePool.getPowerOfTwo (k.cache c).slotSize) = some d ∧
      Live k V d s

/-- `s` is the header of a buffer slab. -/
def Header (k : Kmem) (V : View) (s : Nat) : Prop :=
  ∃ c ∈ V.caches, (k.cache c).type ≠ 0 ∧ s ∈ V.slabs c

/-! ## The pool of caches -/

/-- The slot `j` of the record `r`. -/
def slotAddr (r j : Nat) : Nat := r + sizeofCacheRecord + j * sizeofCache

/-- The number of slots of a record. -/
abbrev slotNum : Nat := 31

/-- The record `r` has the free slots `free`. -/
structure RecordRep (k : Kmem) (r : Nat) (free : List Nat) : Prop where
  numOfSlots : (k.record r).numOfSlots = slotNum
  numOfFreeSlots : (k.record r).numOfFreeSlots = free.length
  chain : Linked k.freeLink (k.record r).freeSlot free
  slots : ∀ a ∈ free, ∃ j < slotNum, a = slotAddr r j

/-- The lists of the caches and of the records; each cache is in a used slot of a record. -/
structure Pool (k : Kmem) (V : View) : Prop where
  caches : DQueue (fun c => (k.cache c).next) (fun c => (k.cache c).prev) k.cacheHead k.cacheTail
    V.caches
  listed : Linked (fun r => (k.record r).next) k.head V.listed
  tail : ∀ t, k.tail = some t → V.listed.getLast? = some t
  subset : V.listed ⊆ V.records
  nodup : V.records.Nodup
  free : ∀ r ∈ V.records, RecordRep k r (V.slots r)
  used : ∀ c ∈ V.caches, ∃ r ∈ V.records, ∃ j < slotNum, c = slotAddr r j ∧ c ∉ V.slots r

/-- No slot of a record is lost, and no record but the first one is without caches. -/
structure View.Tight (V : View) : Prop where
  slots : ∀ r ∈ V.records, ∀ j < slotNum, slotAddr r j ∉ V.slots r → slotAddr r j ∈ V.caches
  busy : ∀ r ∈ V.records, V.listed.head? ≠ some r → ∃ j < slotNum, slotAddr r j ∈ V.caches

/-- All records are on the list, and its tail is known. -/
def Unbroken (k : Kmem) (V : View) : Prop := V.listed = V.records ∧ k.tail ≠ none

/-- The kinds of the caches. -/
structure Classes (k : Kmem) (V : View) : Prop where
  kind : ∀ c ∈ V.caches, (k.cache c).IsObject ∨ ∃ i, k.memoryBuffers i = some c
  buffer : ∀ i c, k.memoryBuffers i = some c → c ∈ V.caches →
    i < bufferNum ∧ (k.cache c).IsBuffer i
  descriptor : ∀ i d, k.memBuffSlabs i = some d → d ∈ V.caches → i < bufferNum ∧
    (k.cache d).IsObject ∧ (k.cache d).slabOrder = 0 ∧
      (k.cache d).slotSize = sizeofSlab + numObjects i * 4

/-- A cache serves the buffers of one class. -/
theorem Classes.buffer_inj {k : Kmem} {V : View} {i j c : Nat} (h : Classes k V)
    (hi : k.memoryBuffers i = some c) (hj : k.memoryBuffers j = some c) (hc : c ∈ V.caches) :
    i = j := by
  have h1 := (h.buffer i c hi hc).2.slotSize
  have h2 := (h.buffer j c hj hc).2.slotSize
  have := Nat.pow_right_injective (Nat.le_refl 2) (h1.symm.trans h2)
  omega

/-- A cache of buffers holds no descriptors. -/
theorem Classes.not_descriptor {k : Kmem} {V : View} {i j c : Nat} (h : Classes k V)
    (hi : k.memoryBuffers i = some c) (hc : c ∈ V.caches) : k.memBuffSlabs j ≠ some c := by
  intro hj
  have h1 := (h.buffer i c hi hc).2.type
  have h2 := (h.descriptor j c hj hc).2.1.type
  rw [h1] at h2
  cases h2

/-- The invariant of the slabs: `k` represents `V`, and other users of the buddy allocator have the
blocks `extra`. -/
structure Kmem.Inv (k : Kmem) (V : View) (extra : List (Nat × Nat)) : Prop where
  nodup : V.caches.Nodup
  classes : Classes k V
  reps : ∀ c ∈ V.caches, CacheRep k c (V.lists c) V.chain
  placed : ∀ c ∈ V.caches, ∀ s ∈ V.slabs c, Placed k V c s
  buddy : Buddy.Inv k.buddy (V.blocks k ++ extra)
  start : blockSize ∣ k.buddy.kernelStartAddr

/-- The caches are those on the list of caches, in the slots of the records. -/
structure Kmem.Pooled (k : Kmem) (V : View) (extra : List (Nat × Nat)) : Prop extends
    k.Inv V extra where
  pool : Pool k V
  tight : V.Tight

/-- The invariant of the slab allocator: no cache of the size classes has been destroyed. -/
structure Kmem.Whole (k : Kmem) (V : View) (extra : List (Nat × Nat)) : Prop extends
    k.Pooled V extra where
  buffers : ∀ i c, k.memoryBuffers i = some c → c ∈ V.caches
  descriptors : ∀ i d, k.memBuffSlabs i = some d → d ∈ V.caches

/-- What determines the layout of the slabs of a cache. -/
def Cache.layout (C : Cache) := (C.type, C.slotSize, C.slabSize, C.slabOrder, C.objNum)

section
variable {C C' : Cache}

theorem Cache.layout_eq (h : C'.layout = C.layout) : C'.type = C.type ∧ C'.slotSize = C.slotSize ∧
    C'.slabSize = C.slabSize ∧ C'.slabOrder = C.slabOrder ∧ C'.objNum = C.objNum := by
  unfold Cache.layout at h
  simpa only [Prod.mk.injEq] using h

theorem Cache.IsObject.congr (h : C.IsObject) (hl : C'.layout = C.layout) : C'.IsObject := by
  obtain ⟨h1, h2, h3, h4, h5⟩ := Cache.layout_eq hl
  refine ⟨h1.trans h.type, ?_, h2 ▸ h.slotSize, ?_⟩
  · rw [h3, h4]
    exact h.slabSize
  · rw [h5, h2, h3]
    exact h.fits

theorem Cache.IsBuffer.congr {i : Nat} (h : C.IsBuffer i) (hl : C'.layout = C.layout) :
    C'.IsBuffer i := by
  obtain ⟨h1, h2, h3, h4, h5⟩ := Cache.layout_eq hl
  refine ⟨h1.trans h.type, h2.trans h.slotSize, h4.trans h.slabOrder, ?_, ?_, h5.trans h.objNum, ?_⟩
  · rw [h3, h4]
    exact h.slabSize
  · rw [h4, h5]
    exact h.order
  · rw [h5, h2, h3]
    exact h.fits

end

/-! ## Geometry -/

namespace Kmem.Inv

variable {k : Kmem} {V : View} {extra : List (Nat × Nat)} {c c' s s' i i' p p' : Nat}

/-- A slab belongs to one cache. -/
theorem owner (h : k.Inv V extra) (hc : c ∈ V.caches) (hs : s ∈ V.slabs c) :
    (k.slab s).owner = some c := by
  obtain ⟨g, hg⟩ := mem_slabsOf.1 hs
  exact ((h.reps c hc).filled g s hg).owner

theorem owner_inj (h : k.Inv V extra) (hc : c ∈ V.caches) (hc' : c' ∈ V.caches)
    (hs : s ∈ V.slabs c) (hs' : s ∈ V.slabs c') : c = c' :=
  Option.some.inj ((h.owner hc hs).symm.trans (h.owner hc' hs'))

theorem slotSize_pos (h : k.Inv V extra) (hc : c ∈ V.caches) : 1 ≤ (k.cache c).slotSize := by
  rcases h.classes.kind c hc with ho | ⟨i, hi⟩
  · exact ho.slotSize
  · rw [(h.classes.buffer i c hi hc).2.slotSize]
    exact Nat.one_le_two_pow

theorem block_mem (hc : c ∈ V.caches) (hs : s ∈ V.slabs c) : k.block c s ∈ V.blocks k ++ extra :=
  List.mem_append_left _ (List.mem_append_right _
    (List.mem_flatMap.2 ⟨c, hc, List.mem_map.2 ⟨s, hs, rfl⟩⟩))

theorem record_mem {r : Nat} (hr : r ∈ V.records) : (r, 0) ∈ V.blocks k ++ extra :=
  List.mem_append_left _ (List.mem_append_left _ (List.mem_map.2 ⟨r, hr, rfl⟩))

/-- A block starts a page. -/
theorem aligned (h : k.Inv V extra) {b : Nat × Nat} (hb : b ∈ V.blocks k ++ extra) :
    blockSize ∣ b.1 := by
  obtain ⟨-, n, hn, -⟩ := h.buddy.inside hb
  rw [hn]
  exact (Nat.dvd_add_right h.start).2 (Nat.dvd_mul_left _ _)

theorem records_length (h : k.Inv V extra) : V.records.length ≤ addrSpace := by
  have hle := h.buddy.length_le
  unfold View.blocks at hle
  simp only [List.length_append, List.length_map] at hle
  unfold addrSpace
  omega

theorem slabs_length (h : k.Inv V extra) (hc : c ∈ V.caches) : (V.slabs c).length ≤ 2 ^ 12 := by
  have hle := h.buddy.length_le
  have hsub : (V.slabBlocks k c).length ≤ (V.caches.flatMap (V.slabBlocks k)).length := by
    rw [(Queues.contents_perm (V.slabBlocks k) hc).length_eq, List.length_append]
    exact Nat.le_add_right _ _
  unfold View.slabBlocks at hsub
  unfold View.blocks at hle
  simp only [List.length_append, List.length_map] at hle hsub
  unfold View.slabBlocks at hle
  omega

theorem list_length (h : k.Inv V extra) (hc : c ∈ V.caches) (g : SlabGroup) :
    (V.lists c g).length ≤ 2 ^ 12 := by
  have hle := h.slabs_length hc
  unfold View.slabs slabsOf at hle
  simp only [List.length_append] at hle
  cases g <;> omega

/-- A slab has its own block. -/
theorem block_inj (h : k.Inv V extra) (hc : c ∈ V.caches) (hs : s ∈ V.slabs c)
    (hc' : c' ∈ V.caches) (hs' : s' ∈ V.slabs c') (he : k.block c s = k.block c' s') :
    c = c' ∧ s = s' := by
  have hnd := (List.nodup_append.1 (List.nodup_append.1 h.buddy.1).1).2.1
  have hmem : k.block c s ∈ V.slabBlocks k c := List.mem_map.2 ⟨s, hs, rfl⟩
  obtain rfl := Queues.contents_inj hnd hc hc' hmem (he ▸ List.mem_map.2 ⟨s', hs', rfl⟩)
  exact ⟨rfl, List.inj_on_of_nodup_map ((List.nodup_flatMap.1 hnd).1 c hc) hs hs' he⟩

/-- The slots of a slab lie in its block, behind the header. -/
theorem slot_inside (h : k.Inv V extra) (hc : c ∈ V.caches) (hs : Slot k V c s i p) :
    (k.block c s).1 ≤ p ∧ p + (k.cache c).slotSize ≤ (k.block c s).1 + 2 ^ (k.block c s).2 * blockSize ∧
      ((k.cache c).type = 0 → s + sizeofSlab + 4 * (k.cache c).objNum ≤ p) := by
  obtain ⟨m, hm, rfl⟩ := hs.addr
  have hle : i * (k.cache c).slotSize + (k.cache c).slotSize ≤
      (k.cache c).objNum * (k.cache c).slotSize := by
    rw [← Nat.succ_mul]
    exact Nat.mul_le_mul_right _ hs.lt
  rcases h.classes.kind c hc with ho | ⟨n, hn⟩
  · have hmem := (h.placed c hc s hs.slab).object ho.type
    rw [hm, Option.some.injEq] at hmem
    have hfits := ho.fits
    rw [ho.slabSize] at hfits
    unfold Kmem.block
    rw [if_pos ho.type]
    subst hmem
    simp only
    exact ⟨by omega, by omega, fun _ => by omega⟩
  · have hb := (h.classes.buffer n c hn hc).2
    have htype : (k.cache c).type ≠ 0 := by rw [hb.type]; decide
    have hfits := hb.fits
    rw [hb.slabSize] at hfits
    unfold Kmem.block
    rw [if_neg htype, hm]
    simp only [Option.getD_some]
    exact ⟨by omega, by omega, fun h0 => absurd h0 htype⟩

/-- Slots do not overlap. -/
theorem slot_apart (h : k.Inv V extra) (hc : c ∈ V.caches) (hc' : c' ∈ V.caches)
    (hs : Slot k V c s i p) (hs' : Slot k V c' s' i' p') :
    (c = c' ∧ s = s' ∧ i = i') ∨ p + (k.cache c).slotSize ≤ p' ∨ p' + (k.cache c').slotSize ≤ p := by
  by_cases he : k.block c s = k.block c' s'
  · obtain ⟨rfl, rfl⟩ := h.block_inj hc hs.slab hc' hs'.slab he
    obtain ⟨m, hm, rfl⟩ := hs.addr
    obtain ⟨m', hm', rfl⟩ := hs'.addr
    obtain rfl := Option.some.inj (hm.symm.trans hm')
    rcases Nat.lt_trichotomy i i' with hlt | rfl | hlt
    · have := Nat.mul_le_mul_right (k.cache c).slotSize hlt
      rw [Nat.succ_mul] at this
      exact .inr (.inl (by omega))
    · exact .inl ⟨rfl, rfl, rfl⟩
    · have := Nat.mul_le_mul_right (k.cache c).slotSize hlt
      rw [Nat.succ_mul] at this
      exact .inr (.inr (by omega))
  · obtain ⟨h1, h2, -⟩ := h.slot_inside hc hs
    obtain ⟨h1', h2', -⟩ := h.slot_inside hc' hs'
    have := h.buddy.apart (block_mem hc hs.slab) (block_mem hc' hs'.slab) he
    exact .inr (by omega)

theorem slot_unique (h : k.Inv V extra) (hc : c ∈ V.caches) (hc' : c' ∈ V.caches)
    (hs : Slot k V c s i p) (hs' : Slot k V c' s' i' p) : c = c' ∧ s = s' ∧ i = i' := by
  have h1 := h.slotSize_pos hc
  have h2 := h.slotSize_pos hc'
  exact (h.slot_apart hc hc' hs hs').resolve_right (by omega)

/-- The slot of a live object is not on the chain. -/
theorem not_live (h : k.Inv V extra) (hc : c ∈ V.caches) (hc' : c' ∈ V.caches)
    (hs : Slot k V c s i p) (hi : i ∈ V.chain s) : ¬ Live k V c' p := by
  intro hx
  obtain ⟨s', i', hs', hi'⟩ := hx
  obtain ⟨rfl, rfl, rfl⟩ := h.slot_unique hc hc' hs hs'
  exact hi' hi

/-- The header of a slab is in the page of its objects. -/
theorem header (h : k.Inv V extra) (hc : c ∈ V.caches) (ho : (k.cache c).IsObject)
    (hpage : (k.cache c).InPage) (hs : Slot k V c s i p) : p / blockSize * blockSize = s := by
  obtain ⟨h1, h2, -⟩ := h.slot_inside hc hs
  have h3 := h.aligned (block_mem hc hs.slab)
  have h4 := ho.slotSize
  unfold Kmem.block at h1 h2 h3
  rw [if_pos ho.type] at h1 h2 h3
  obtain ⟨n, hn⟩ := h3
  simp only at h1 h2 hn
  rcases hpage with hzero | hone
  · rw [hzero] at h2
    unfold blockSize at *
    omega
  · obtain ⟨m, hm, hp⟩ := hs.addr
    have hlt := hs.lt
    rw [hone] at hlt
    rw [show i = 0 by omega, Nat.zero_mul, Nat.add_zero] at hp
    rw [(h.placed c hc s hs.slab).object ho.type, Option.some.injEq, hone] at hm
    unfold blockSize sizeofSlab at *
    omega

/-- A header lies in an object of a descriptor cache. -/
theorem not_header (h : k.Inv V extra) (hc : c ∈ V.caches) (hd : ∀ i, k.memBuffSlabs i ≠ some c)
    (hp : Live k V c p) : ¬ Header k V p := by
  intro hx
  obtain ⟨c', hc', ht, hs⟩ := hx
  obtain ⟨-, d, hdm, hd', s₁, i₁, hs₁, -⟩ := (h.placed c' hc' p hs).buffer ht
  obtain ⟨s₂, i₂, hs₂, -⟩ := hp
  obtain ⟨rfl, -, -⟩ := h.slot_unique hdm hc hs₁ hs₂
  exact hd _ hd'

/-- A slab of an object cache starts its page, an object does not. -/
theorem not_slab (h : k.Inv V extra) (hc : c ∈ V.caches) (ho : (k.cache c).type = 0)
    (hs : Slot k V c s i p) (hc' : c' ∈ V.caches) (ho' : (k.cache c').type = 0) :
    p ∉ V.slabs c' := by
  intro hp
  obtain ⟨h1, h2, h3⟩ := h.slot_inside hc hs
  have h3 := h3 ho
  have hpos := h.slotSize_pos hc
  have hb : (k.block c' p).1 = p := if_pos ho'
  have hb₀ : (k.block c s).1 = s := if_pos ho
  have hpow : 0 < 2 ^ (k.block c' p).2 * blockSize := Nat.mul_pos (Nat.two_pow_pos _) (by decide)
  have hne : k.block c' p ≠ k.block c s := fun he => by
    have := congrArg Prod.fst he
    rw [hb, hb₀] at this
    unfold sizeofSlab at h3
    omega
  have := h.buddy.apart (block_mem (k := k) hc' hp) (block_mem hc hs.slab) hne
  omega

end Kmem.Inv

/-! ## Frames -/

/-- Nothing has changed for the caches outside of `S`. -/
structure Frame (k k' : Kmem) (V V' : View) (S : Nat → Prop) : Prop where
  mem : ∀ c ∈ V.caches, ¬ S c → c ∈ V'.caches
  cache : ∀ c ∈ V.caches, ¬ S c → (k'.cache c).unlinked = (k.cache c).unlinked
  lists : ∀ c ∈ V.caches, ¬ S c → V'.lists c = V.lists c
  slab : ∀ c ∈ V.caches, ¬ S c → ∀ s ∈ V.slabs c, k'.slab s = k.slab s
  chain : ∀ c ∈ V.caches, ¬ S c → ∀ s ∈ V.slabs c, V'.chain s = V.chain s

/-- New lists for the cache `c`, and new chains. -/
def View.put (V : View) (c : Nat) (L : SlabGroup → List Nat) (ch : Nat → List Nat) : View :=
  { V with lists := update V.lists c L, chain := ch }

/-- No cache but `c` has the slab `s`. -/
def View.Spare (V : View) (c s : Nat) : Prop := ∀ c' ∈ V.caches, c' ≠ c → s ∉ V.slabs c'

section
variable {k k' k'' : Kmem} {V V' V'' : View} {extra : List (Nat × Nat)} {c c' s i p : Nat}
  {S : Nat → Prop} {L : SlabGroup → List Nat} {ch : Nat → List Nat} {P : Nat → Prop}

@[simp] theorem View.put_caches : (V.put c L ch).caches = V.caches := rfl

@[simp] theorem View.put_chain : (V.put c L ch).chain = ch := rfl

@[simp] theorem View.put_lists : (V.put c L ch).lists c = L := update_self _ _ _

@[simp] theorem View.put_slabs : (V.put c L ch).slabs c = slabsOf L := by
  unfold View.slabs
  rw [View.put_lists]

@[simp] theorem View.put_self : V.put c (V.lists c) V.chain = V := by
  unfold View.put
  rw [update_eq_self]

theorem View.put_slabs_of_ne (hc : c' ≠ c) : (V.put c L ch).slabs c' = V.slabs c' := by
  unfold View.slabs View.put
  simp only [update_of_ne hc]

namespace Frame

theorem refl (k : Kmem) (V : View) (S : Nat → Prop) : Frame k k V V S :=
  ⟨fun _ hc _ => hc, fun _ _ _ => rfl, fun _ _ _ => rfl, fun _ _ _ _ _ => rfl,
    fun _ _ _ _ _ => rfl⟩

theorem slabs (h : Frame k k' V V' S) (hc : c ∈ V.caches) (hS : ¬ S c) :
    V'.slabs c = V.slabs c := by
  unfold View.slabs
  rw [h.lists c hc hS]

theorem trans (h : Frame k k' V V' S) (h' : Frame k' k'' V' V'' S) : Frame k k'' V V'' S where
  mem c hc hS := h'.mem c (h.mem c hc hS) hS
  cache c hc hS := (h'.cache c (h.mem c hc hS) hS).trans (h.cache c hc hS)
  lists c hc hS := (h'.lists c (h.mem c hc hS) hS).trans (h.lists c hc hS)
  slab c hc hS s hs := (h'.slab c (h.mem c hc hS) hS s (h.slabs hc hS ▸ hs)).trans
    (h.slab c hc hS s hs)
  chain c hc hS s hs := (h'.chain c (h.mem c hc hS) hS s (h.slabs hc hS ▸ hs)).trans
    (h.chain c hc hS s hs)

theorem mono {S' : Nat → Prop} (h : Frame k k' V V' S) (hS : ∀ c, S c → S' c) :
    Frame k k' V V' S' where
  mem c hc hn := h.mem c hc fun hs => hn (hS c hs)
  cache c hc hn := h.cache c hc fun hs => hn (hS c hs)
  lists c hc hn := h.lists c hc fun hs => hn (hS c hs)
  slab c hc hn := h.slab c hc fun hs => hn (hS c hs)
  chain c hc hn := h.chain c hc fun hs => hn (hS c hs)

theorem slot {i : Nat} (h : Frame k k' V V' S) (hc : c ∈ V.caches) (hS : ¬ S c) :
    Slot k' V' c s i p ↔ Slot k V c s i p := by
  have hobj : (k'.cache c).objNum = (k.cache c).objNum := (congrArg Cache.objNum (h.cache c hc hS) :)
  have hsize : (k'.cache c).slotSize = (k.cache c).slotSize :=
    (congrArg Cache.slotSize (h.cache c hc hS) :)
  constructor
  · intro hx
    obtain ⟨hs, hi, hm⟩ := hx
    rw [h.slabs hc hS] at hs
    rw [h.slab c hc hS s hs, hsize] at hm
    exact ⟨hs, hobj ▸ hi, hm⟩
  · intro hx
    obtain ⟨hs, hi, hm⟩ := hx
    rw [← h.slab c hc hS s hs, ← hsize] at hm
    exact ⟨h.slabs hc hS ▸ hs, hobj ▸ hi, hm⟩

theorem live (h : Frame k k' V V' S) (hc : c ∈ V.caches) (hS : ¬ S c) :
    Live k' V' c p ↔ Live k V c p := by
  refine exists_congr fun s => exists_congr fun i => ?_
  rw [h.slot hc hS]
  refine and_congr_right fun hsl => ?_
  rw [h.chain c hc hS s hsl.slab]

theorem rep (h : Frame k k' V V' S) (hc : c ∈ V.caches) (hS : ¬ S c)
    (hr : CacheRep k c (V.lists c) V.chain) : CacheRep k' c (V'.lists c) V'.chain := by
  rw [h.lists c hc hS]
  exact hr.frame (h.cache c hc hS) (h.slab c hc hS) (h.chain c hc hS)

theorem slabBlocks (h : Frame k k' V V' S) (hc : c ∈ V.caches) (hS : ¬ S c) :
    V'.slabBlocks k' c = V.slabBlocks k c := by
  have htype : (k'.cache c).type = (k.cache c).type := (congrArg Cache.type (h.cache c hc hS) :)
  have horder : (k'.cache c).slabOrder = (k.cache c).slabOrder :=
    (congrArg Cache.slabOrder (h.cache c hc hS) :)
  unfold View.slabBlocks
  rw [h.slabs hc hS]
  refine List.map_congr_left fun s hs => ?_
  unfold Kmem.block
  rw [htype, horder, h.slab c hc hS s hs]

theorem of_touched (ht : Touched k k' c (V.Spare c)) (hch : ∀ s, ¬ V.Spare c s → ch s = V.chain s) :
    Frame k k' V (V.put c L ch) (· = c) where
  mem c' hc' _ := hc'
  cache c' _ hne := by rw [ht.cache c' hne]
  lists c' _ hne := update_of_ne hne _ _
  slab c' hc' hne s hs := ht.slab s fun hsp => hsp c' hc' hne hs
  chain c' hc' hne s hs := hch s fun hsp => hsp c' hc' hne hs

end Frame

/-! ## One cache -/

theorem Kmem.pool_eq (h : k'.pool = k.pool) : k'.record = k.record ∧ k'.freeLink = k.freeLink ∧
    k'.head = k.head ∧ k'.tail = k.tail ∧ k'.cacheHead = k.cacheHead ∧
    k'.cacheTail = k.cacheTail ∧ k'.memoryBuffers = k.memoryBuffers ∧
    k'.memBuffSlabs = k.memBuffSlabs := by
  unfold Kmem.pool at h
  simpa only [Prod.mk.injEq] using h

theorem Touched.fixed_all (ht : Touched k k' c P) (c' : Nat) :
    (k'.cache c').fixed = (k.cache c').fixed := by
  by_cases hc : c' = c
  · exact hc ▸ ht.fixed
  · rw [ht.cache c' hc]

theorem Touched.layout (ht : Touched k k' c P) : (k'.cache c).layout = (k.cache c).layout :=
  (congrArg Cache.layout ht.fixed :)

/-- The pool is about the records and the links of the caches only. -/
theorem Pool.congr (h : Pool k V)
    (hpool : (k'.record, k'.freeLink, k'.head, k'.tail, k'.cacheHead, k'.cacheTail) =
      (k.record, k.freeLink, k.head, k.tail, k.cacheHead, k.cacheTail))
    (hlinks : ∀ c ∈ V.caches, (k'.cache c).next = (k.cache c).next ∧
      (k'.cache c).prev = (k.cache c).prev) : Pool k' V := by
  simp only [Prod.mk.injEq] at hpool
  obtain ⟨h1, h2, h3, h4, h5, h6⟩ := hpool
  refine ⟨?_, ?_, h4 ▸ h.tail, h.subset, h.nodup, fun r hr => ?_, h.used⟩
  · rw [h5, h6]
    exact DSeg.congr h.caches (fun a ha => (hlinks a ha).1) fun a ha => (hlinks a ha).2
  · rw [h1, h3]
    exact h.listed
  · have hr' := h.free r hr
    exact ⟨h1 ▸ hr'.numOfSlots, h1 ▸ hr'.numOfFreeSlots, by rw [h1, h2]; exact hr'.chain, hr'.slots⟩

/-- The pool does not see the slabs. -/
theorem Pool.view (h : Pool k V) (hcaches : V'.caches = V.caches)
    (hrecords : V'.records = V.records) (hlisted : V'.listed = V.listed)
    (hslots : V'.slots = V.slots) : Pool k V' :=
  ⟨hcaches ▸ h.caches, hlisted ▸ h.listed, hlisted ▸ h.tail,
    by rw [hlisted, hrecords]; exact h.subset, hrecords ▸ h.nodup,
    by rw [hrecords, hslots]; exact h.free, by rw [hcaches, hrecords, hslots]; exact h.used⟩

/-- The list of the records, as long as it has all of them. -/
theorem Pool.queue (h : Pool k V) (hu : Unbroken k V) :
    Queue (fun r => (k.record r).next) k.head k.tail V.records := by
  obtain ⟨t, ht⟩ := Option.ne_none_iff_exists'.1 hu.2
  exact ⟨hu.1 ▸ h.listed, by rw [ht, ← hu.1, h.tail t ht]⟩

theorem Pool.listed_ne_nil (h : Pool k V) (hu : Unbroken k V) : V.listed ≠ [] := by
  obtain ⟨t, ht⟩ := Option.ne_none_iff_exists'.1 hu.2
  exact List.ne_nil_of_mem (List.mem_of_getLast? (h.tail t ht))

theorem Classes.touched (h : Classes k V) (ht : Touched k k' c P) :
    Classes k' (V.put c L ch) := by
  obtain ⟨-, -, -, -, -, -, h7, h8⟩ := Kmem.pool_eq ht.pool
  have hlay : ∀ a, (k'.cache a).layout = (k.cache a).layout := fun a =>
    (congrArg Cache.layout (ht.fixed_all a) :)
  refine ⟨fun a ha => ?_, fun i a hi ha => ?_, fun i d hi hd => ?_⟩
  · rw [h7]
    exact (h.kind a ha).imp_left fun ho => ho.congr (hlay a)
  · rw [h7] at hi
    obtain ⟨hlt, hb⟩ := h.buffer i a hi ha
    exact ⟨hlt, hb.congr (hlay a)⟩
  · rw [h8] at hi
    obtain ⟨hlt, ho, horder, hsize⟩ := h.descriptor i d hi hd
    obtain ⟨-, h2, -, h4, -⟩ := Cache.layout_eq (hlay d)
    exact ⟨hlt, ho.congr (hlay d), h4.trans horder, h2.trans hsize⟩

/-- The blocks of the records and of the other caches. -/
def View.others (V : View) (k : Kmem) (c : Nat) : List (Nat × Nat) :=
  V.records.map (·, 0) ++ (V.caches.erase c).flatMap (V.slabBlocks k)

theorem Kmem.Inv.blocks_perm (h : k.Inv V extra) (hc : c ∈ V.caches)
    (hf : Frame k k' V (V.put c L ch) (· = c)) :
    ((V.put c L ch).blocks k').Perm ((slabsOf L).map (k'.block c) ++ V.others k c) := by
  have hp := Queues.contents_perm_of_eq h.nodup hc fun a ha hne => hf.slabBlocks ha hne
  have hself : (V.put c L ch).slabBlocks k' c = (slabsOf L).map (k'.block c) := by
    unfold View.slabBlocks
    rw [View.put_slabs]
  rw [hself] at hp
  refine ((hp.append_left _).trans ?_)
  unfold View.others
  exact List.perm_append_comm_assoc _ _ _

theorem Kmem.Inv.blocks_split (hc : c ∈ V.caches) :
    (V.blocks k).Perm ((V.slabs c).map (k.block c) ++ V.others k c) := by
  apply ((Queues.contents_perm (V.slabBlocks k) hc).append_left _).trans
  unfold View.others
  exact List.perm_append_comm_assoc _ _ _

/-- A slab stays in place. -/
theorem Placed.frame (h : Placed k V c s) (hlay : (k'.cache c).layout = (k.cache c).layout)
    (hmem : (k'.slab s).mem = (k.slab s).mem)
    (hlive : (k.cache c).type ≠ 0 → ∀ i, ∀ d ∈ V.caches, k.memBuffSlabs i = some d → Live k V d s →
      d ∈ V'.caches ∧ k'.memBuffSlabs i = some d ∧ Live k' V' d s) : Placed k' V' c s := by
  obtain ⟨h1, h2, -, -, h3⟩ := Cache.layout_eq hlay
  refine ⟨fun ht => ?_, fun ht => ?_⟩
  · rw [hmem, h3]
    exact h.object (h1 ▸ ht)
  · have ht' : (k.cache c).type ≠ 0 := h1 ▸ ht
    obtain ⟨hm, d, hdm, hd, hl⟩ := h.buffer ht'
    rw [hmem, h2]
    exact ⟨hm, d, hlive ht' _ d hdm hd hl⟩

/-- Caches outside of `S` stay, and new ones have no slabs. -/
theorem Kmem.Inv.of_frame {live : List (Nat × Nat)} (h : k.Inv V extra)
    (hf : Frame k k' V V' S) (hnd : V'.caches.Nodup)
    (hclasses : Classes k' V')
    (hdesc : ∀ i d, k.memBuffSlabs i = some d → d ∈ V.caches →
      k'.memBuffSlabs i = some d ∧ ¬ S d)
    (hnew : ∀ c ∈ V'.caches, c ∈ V.caches ∧ ¬ S c ∨
      CacheRep k' c (V'.lists c) V'.chain ∧ V'.slabs c = [])
    (hb : Buddy.Inv k'.buddy (V'.blocks k' ++ live))
    (hstart : k'.buddy.kernelStartAddr = k.buddy.kernelStartAddr) : k'.Inv V' live := by
  refine ⟨hnd, hclasses, fun c hc => ?_, fun c hc s hs => ?_, hb, hstart ▸ h.start⟩
  · rcases hnew c hc with ⟨hc', hS⟩ | ⟨hr, -⟩
    · exact hf.rep hc' hS (h.reps c hc')
    · exact hr
  · rcases hnew c hc with ⟨hc', hS⟩ | ⟨-, hnil⟩
    · rw [hf.slabs hc' hS] at hs
      refine (h.placed c hc' s hs).frame (congrArg Cache.layout (hf.cache c hc' hS) :)
        (congrArg Slab.mem (hf.slab c hc' hS s hs)) fun _ i d hdm hd hl => ?_
      obtain ⟨hd', hSd⟩ := hdesc i d hd hdm
      exact ⟨hf.mem d hdm hSd, hd', (hf.live hdm hSd).2 hl⟩
    · rw [hnil] at hs
      exact absurd hs List.not_mem_nil

/-- `k'` represents `V'`, with the caches of `V`; outside of `S` nothing has changed. -/
structure Served (k k' : Kmem) (V V' : View) (extra : List (Nat × Nat)) (S : Nat → Prop) :
    Prop where
  inv : k'.Inv V' extra
  frame : Frame k k' V V' S
  same : V'.caches = V.caches ∧ V'.records = V.records ∧ V'.listed = V.listed ∧ V'.slots = V.slots
  fixed : ∀ c, (k'.cache c).fixed = (k.cache c).fixed
  pool : k'.pool = k.pool

namespace Served

theorem refl (h : k.Inv V extra) (S : Nat → Prop) : Served k k V V extra S :=
  ⟨h, .refl k V S, ⟨rfl, rfl, rfl, rfl⟩, fun _ => rfl, rfl⟩

theorem caches (h : Served k k' V V' extra S) : V'.caches = V.caches := h.same.1

theorem mono {S' : Nat → Prop} (h : Served k k' V V' extra S) (hS : ∀ c, S c → S' c) :
    Served k k' V V' extra S' := { h with frame := h.frame.mono hS }

theorem trans {extra' : List (Nat × Nat)} (h : Served k k' V V' extra' S)
    (h' : Served k' k'' V' V'' extra S) : Served k k'' V V'' extra S :=
  ⟨h'.inv, h.frame.trans h'.frame, ⟨h'.same.1.trans h.same.1, h'.same.2.1.trans h.same.2.1,
    h'.same.2.2.1.trans h.same.2.2.1, h'.same.2.2.2.trans h.same.2.2.2⟩,
    fun c => (h'.fixed c).trans (h.fixed c), h'.pool.trans h.pool⟩

theorem cache_eq (h : Served k k' V V' extra S) (hc : c ∈ V.caches) (hS : ¬ S c) :
    k'.cache c = k.cache c := by
  have h1 := h.fixed c
  have h2 := h.frame.cache c hc hS
  unfold Cache.fixed Cache.body at h1
  unfold Cache.unlinked at h2
  generalize k'.cache c = C' at *
  generalize k.cache c = C at *
  cases C
  cases C'
  simp only [Cache.mk.injEq, true_and, and_true] at h1 h2 ⊢
  simp only [h1, h2, and_self]

/-- The pool stays. -/
theorem whole {extra' : List (Nat × Nat)} (h : Served k k' V V' extra S) (hw : k.Whole V extra') :
    k'.Whole V' extra := by
  obtain ⟨h1, h2, h3, h4, h5, h6, h7, h8⟩ := Kmem.pool_eq h.pool
  obtain ⟨hcaches, hrecords, hlisted, hslots⟩ := h.same
  have hpool : Pool k' V := hw.pool.congr (by rw [h1, h2, h3, h4, h5, h6]) fun a _ =>
    ⟨(congrArg Cache.next (h.fixed a) :), (congrArg Cache.prev (h.fixed a) :)⟩
  refine { h.inv with pool := ?_, tight := ?_, buffers := ?_, descriptors := ?_ }
  · exact hpool.view hcaches hrecords hlisted hslots
  · exact ⟨by rw [hcaches, hrecords, hslots]; exact hw.tight.slots,
      by rw [hcaches, hrecords, hlisted]; exact hw.tight.busy⟩
  · rw [h7, hcaches]
    exact hw.buffers
  · rw [h8, hcaches]
    exact hw.descriptors

theorem unbroken (h : Served k k' V V' extra S) : Unbroken k' V' ↔ Unbroken k V := by
  obtain ⟨-, -, -, h4, -⟩ := Kmem.pool_eq h.pool
  obtain ⟨-, hrecords, hlisted, -⟩ := h.same
  unfold Unbroken
  rw [h4, hrecords, hlisted]

end Served

/-- An operation on the cache `c` keeps the invariant, if it keeps the part of `c`, and no header is
in an object that it takes back. -/
theorem Kmem.Inv.of_touched (h : k.Inv V extra) (hc : c ∈ V.caches)
    (ht : Touched k k' c (V.Spare c)) (hch : ∀ s, ¬ V.Spare c s → ch s = V.chain s)
    (hrep : CacheRep k' c L ch)
    (hslabs : ∀ s ∈ slabsOf L, s ∈ V.slabs c ∧ (k'.slab s).mem = (k.slab s).mem ∨
      Placed k' (V.put c L ch) c s)
    (hkeep : ∀ p, Live k V c p → Header k V p → Live k' (V.put c L ch) c p)
    (hb : Buddy.Inv k'.buddy ((slabsOf L).map (k'.block c) ++ V.others k c ++ extra))
    (hstart : k'.buddy.kernelStartAddr = k.buddy.kernelStartAddr) :
    Served k k' V (V.put c L ch) extra (· = c) := by
  have hf := Frame.of_touched (L := L) ht hch
  obtain ⟨-, -, -, -, -, -, -, hdesc⟩ := Kmem.pool_eq ht.pool
  have hlive : ∀ s, Header k V s → ∀ i, ∀ d ∈ V.caches, k.memBuffSlabs i = some d →
      Live k V d s → d ∈ (V.put c L ch).caches ∧ k'.memBuffSlabs i = some d ∧
        Live k' (V.put c L ch) d s := by
    intro s hs i d hdm hd hl
    refine ⟨hdm, hdesc ▸ hd, ?_⟩
    by_cases hdc : d = c
    · subst hdc
      exact hkeep s hl hs
    · exact (hf.live hdm hdc).2 hl
  have hlay : ∀ a, (k'.cache a).layout = (k.cache a).layout := fun a =>
    (congrArg Cache.layout (ht.fixed_all a) :)
  refine ⟨⟨h.nodup, h.classes.touched ht, fun c' hc' => ?_, fun c' hc' s hs => ?_,
    hb.perm ((h.blocks_perm hc hf).symm.append_right _), hstart ▸ h.start⟩, hf,
    ⟨rfl, rfl, rfl, rfl⟩, ht.fixed_all, ht.pool⟩
  · by_cases hcc : c' = c
    · subst hcc
      rwa [View.put_lists]
    · exact hf.rep hc' hcc (h.reps c' hc')
  · by_cases hcc : c' = c
    · subst hcc
      rw [View.put_slabs] at hs
      rcases hslabs s hs with ⟨hs', hm⟩ | hp
      · exact (h.placed c' hc' s hs').frame (hlay c') hm fun hne => hlive s ⟨c', hc', hne, hs'⟩
      · exact hp
    · have hs' := hs
      rw [View.put_slabs_of_ne hcc] at hs'
      exact (h.placed c' hc' s hs').frame (hlay c')
        (congrArg Slab.mem (hf.slab c' hc' hcc s hs')) fun hne => hlive s ⟨c', hc', hne, hs'⟩

end

end SlabKernel
