import SlabKernel.Slab.Requests

/-!
# What lies in the memory of the allocators

The blocks of the buddy allocator are cut into cells: a slab of a cache of objects into its header,
with the array of free indices, and the slots; a block of buffers into the slots; the page of a record
into its header and the slots for caches. Cells do not overlap (`Cell.apart`): in one block by the
layout, in different blocks by the invariant of the buddy allocator. What the allocators keep in memory
(`Item`) lies in different cells. The header of a slab of buffers, a descriptor, lies in a slot of
its descriptor cache.
-/

namespace SlabKernel

open Function (update update_self update_of_ne)
open PtrList CachePool

/-! ## Ranges -/

/-- Two ranges of bytes, each an address and a size, do not overlap. -/
def Apart (x y : Nat × Nat) : Prop := x.1 + x.2 ≤ y.1 ∨ y.1 + y.2 ≤ x.1

/-- One range lies in the other. -/
def Within (x y : Nat × Nat) : Prop := y.1 ≤ x.1 ∧ x.1 + x.2 ≤ y.1 + y.2

/-- The bytes of a block of the buddy allocator, an address and an order. -/
def blockRange (b : Nat × Nat) : Nat × Nat := (b.1, 2 ^ b.2 * blockSize)

theorem Apart.within {x y x' y' : Nat × Nat} (h : Apart x' y') (hx : Within x x')
    (hy : Within y y') : Apart x y := by
  unfold Apart Within at *
  omega

/-- Live blocks of the buddy allocator do not overlap. -/
theorem Apart.blocks {b : Buddy} {live : List (Nat × Nat)} {p q : Nat × Nat}
    (h : Buddy.Inv b live) (hp : p ∈ live) (hq : q ∈ live) (hne : p ≠ q) :
    Apart (blockRange p) (blockRange q) := by
  have := h.apart hp hq hne
  simp only [Apart, blockRange]
  omega

theorem Within.trans {x y z : Nat × Nat} (h : Within x y) (h' : Within y z) : Within x z := by
  unfold Within at *
  omega

/-! ## Cells -/

/-- A part of a block: of a slab or a record the header (`none`) or a slot; or a block of another
user. -/
inductive Cell
  | slab (c t : Nat) (j : Option Nat)
  | record (r : Nat) (j : Option Nat)
  | other (b : Nat × Nat)

namespace Cell

def block (k : Kmem) : Cell → Nat × Nat
  | .slab c t _ => k.block c t
  | .record r _ => (r, 0)
  | .other b => b

def range (k : Kmem) : Cell → Nat × Nat
  | .slab c t none => (t, sizeofSlab + 4 * (k.cache c).objNum)
  | .slab c t (some i) =>
    ((k.slab t).mem.getD 0 + i * (k.cache c).slotSize, (k.cache c).slotSize)
  | .record r none => (r, sizeofCacheRecord)
  | .record r (some j) => (slotAddr r j, sizeofCache)
  | .other b => blockRange b

/-- The cell is there. A slab of buffers has no header in its block. -/
def In (k : Kmem) (V : View) (extra : List (Nat × Nat)) : Cell → Prop
  | .slab c t none => c ∈ V.caches ∧ t ∈ V.slabs c ∧ (k.cache c).type = 0
  | .slab c t (some i) => c ∈ V.caches ∧ ∃ p, Slot k V c t i p
  | .record r none => r ∈ V.records
  | .record r (some j) => r ∈ V.records ∧ j < slotNum
  | .other b => b ∈ extra

variable {k : Kmem} {V : View} {extra : List (Nat × Nat)} {a b : Cell} {c t i p r : Nat}

theorem In.slab {j : Option Nat} (h : (Cell.slab c t j).In k V extra) :
    c ∈ V.caches ∧ t ∈ V.slabs c := by
  cases j with
  | none => exact ⟨h.1, h.2.1⟩
  | some i =>
    obtain ⟨hc, p, hp⟩ := h
    exact ⟨hc, hp.slab⟩

theorem In.record {j : Option Nat} (h : (Cell.record r j).In k V extra) : r ∈ V.records := by
  cases j with
  | none => exact h
  | some j => exact h.1

theorem In.block_mem (h : a.In k V extra) : a.block k ∈ V.blocks k ++ extra := by
  cases a with
  | slab c t j => exact Kmem.Inv.block_mem h.slab.1 h.slab.2
  | record r j => exact Kmem.Inv.record_mem h.record
  | other b => exact List.mem_append_right _ h

theorem range_slot (h : Slot k V c t i p) :
    (Cell.slab c t (some i)).range k = (p, (k.cache c).slotSize) := by
  obtain ⟨m, hm, rfl⟩ := h.addr
  simp only [Cell.range, hm, Option.getD_some]

/-- A cell lies in its block. -/
theorem In.within (h : a.In k V extra) (hk : k.Inv V extra) :
    Within (a.range k) (blockRange (a.block k)) := by
  cases a with
  | slab c t j =>
    cases j with
    | none =>
      obtain ⟨hc, ht, htype⟩ := h
      have ho : (k.cache c).IsObject := by
        cases hk.classes.kind c hc with
        | inl ho => exact ho
        | inr hb =>
          obtain ⟨i, hi⟩ := hb
          exact absurd ((hk.classes.buffer i c hi hc).2.type.symm.trans htype) (by decide)
      have hfits := ho.fits
      rw [ho.slabSize] at hfits
      have hblock : k.block c t = (t, (k.cache c).slabOrder) := by
        unfold Kmem.block
        rw [if_pos htype]
      simp only [Within, Cell.range, Cell.block, blockRange, hblock]
      omega
    | some i =>
      obtain ⟨hc, p, hp⟩ := h
      obtain ⟨h1, h2, -⟩ := hk.slot_inside hc hp
      rw [range_slot hp]
      exact ⟨h1, h2⟩
  | record r j =>
    cases j with
    | none =>
      simp only [Within, Cell.range, Cell.block, blockRange]
      unfold sizeofCacheRecord blockSize
      omega
    | some j =>
      obtain ⟨-, hj⟩ := h
      simp only [Within, Cell.range, Cell.block, blockRange, slotAddr]
      unfold sizeofCacheRecord sizeofCache blockSize
      unfold slotNum at hj
      omega
  | other b => exact ⟨Nat.le_refl _, Nat.le_refl _⟩

/-- Different parts of a slab. -/
theorem apart_slab {j j' : Option Nat} (hk : k.Inv V extra) (h : (Cell.slab c t j).In k V extra)
    (h' : (Cell.slab c t j').In k V extra) (hne : j ≠ j') :
    Apart ((Cell.slab c t j).range k) ((Cell.slab c t j').range k) := by
  -- the header is before the slots
  have hhead : ∀ i, (Cell.slab c t none).In k V extra → (Cell.slab c t (some i)).In k V extra →
      ((Cell.slab c t none).range k).1 + ((Cell.slab c t none).range k).2 ≤
        ((Cell.slab c t (some i)).range k).1 := by
    intro i h₀ hi
    obtain ⟨hc, p, hp⟩ := hi
    obtain ⟨-, -, h3⟩ := hk.slot_inside hc hp
    rw [range_slot hp]
    have := h3 h₀.2.2
    simp only [Cell.range]
    omega
  cases j with
  | none =>
    cases j' with
    | none => exact absurd rfl hne
    | some i => exact .inl (hhead i h h')
  | some i =>
    cases j' with
    | none => exact .inr (hhead i h' h)
    | some i' =>
      obtain ⟨hc, p, hp⟩ := h
      obtain ⟨-, p', hp'⟩ := h'
      rw [range_slot hp, range_slot hp']
      cases hk.slot_apart hc hc hp hp' with
      | inl he => exact absurd (congrArg some he.2.2) hne
      | inr hapart => exact hapart

/-- Different parts of a record. -/
theorem apart_record {j j' : Option Nat} (hne : j ≠ j') :
    Apart ((Cell.record r j).range k) ((Cell.record r j').range k) := by
  cases j with
  | none =>
    cases j' with
    | none => exact absurd rfl hne
    | some i =>
      left
      exact Nat.le_add_right _ _
  | some i =>
    cases j' with
    | none =>
      right
      exact Nat.le_add_right _ _
    | some i' =>
      have hii : i ≠ i' := fun he => hne (congrArg some he)
      simp only [Apart, Cell.range, slotAddr]
      unfold sizeofCacheRecord sizeofCache
      omega

/-- **Cells do not overlap.** -/
theorem apart (hk : k.Inv V extra) (ha : a.In k V extra) (hb : b.In k V extra) (hne : a ≠ b) :
    Apart (a.range k) (b.range k) := by
  by_cases hblock : a.block k = b.block k
  · have hnd := hk.buddy.1
    obtain ⟨hown, -, hextra⟩ := List.nodup_append.1 hnd
    obtain ⟨-, -, hrecord⟩ := List.nodup_append.1 hown
    -- the blocks of records, slabs and other users are different
    have hslab : ∀ c t, c ∈ V.caches ∧ t ∈ V.slabs c →
        k.block c t ∈ V.caches.flatMap (V.slabBlocks k) := fun c t h =>
      List.mem_flatMap.2 ⟨c, h.1, List.mem_map.2 ⟨t, h.2, rfl⟩⟩
    have hpage : ∀ r, r ∈ V.records → (r, 0) ∈ V.records.map (·, 0) := fun r h =>
      List.mem_map.2 ⟨r, h, rfl⟩
    cases a with
    | slab c t j =>
      cases b with
      | slab c' t' j' =>
        obtain ⟨rfl, rfl⟩ := hk.block_inj ha.slab.1 ha.slab.2 hb.slab.1 hb.slab.2 hblock
        exact apart_slab hk ha hb fun he => hne (he ▸ rfl)
      | record r j' =>
        exact absurd hblock.symm (hrecord _ (hpage r hb.record) _ (hslab c t ha.slab))
      | other b =>
        exact absurd hblock (hextra _ (List.mem_append_right _ (hslab c t ha.slab)) _ hb)
    | record r j =>
      cases b with
      | slab c t j' => exact absurd hblock (hrecord _ (hpage r ha.record) _ (hslab c t hb.slab))
      | record r' j' =>
        obtain rfl := (Prod.mk.inj hblock).1
        exact apart_record fun he => hne (he ▸ rfl)
      | other b => exact absurd hblock (hextra _ (List.mem_append_left _ (hpage r ha.record)) _ hb)
    | other b' =>
      cases b with
      | slab c t j =>
        exact absurd hblock.symm (hextra _ (List.mem_append_right _ (hslab c t hb.slab)) _ ha)
      | record r j =>
        exact absurd hblock.symm (hextra _ (List.mem_append_left _ (hpage r hb.record)) _ ha)
      | other b => exact absurd (congrArg Cell.other hblock) hne
  · exact (Apart.blocks hk.buddy ha.block_mem hb.block_mem hblock).within (ha.within hk) (hb.within hk)

end Cell

/-! ## Items -/

/-- What the allocators and other users keep in memory: an object, the header of a slab with its array
of free indices, a cache, the header of a record, and a block of another user. -/
inductive Item
  | object (c p : Nat)
  | header (t : Nat)
  | cache (c : Nat)
  | record (r : Nat)
  | other (b : Nat × Nat)

namespace Item

def range (k : Kmem) : Item → Nat × Nat
  | .object c p => (p, (k.cache c).slotSize)
  | .header t => (t, sizeofSlab + 4 * (k.slab t).numOfSlots)
  | .cache c => (c, sizeofCache)
  | .record r => (r, sizeofCacheRecord)
  | .other b => blockRange b

/-- The item is live. A live object that holds the header of a slab of buffers is that header. -/
def In (k : Kmem) (V : View) (extra : List (Nat × Nat)) : Item → Prop
  | .object c p => c ∈ V.caches ∧ Live k V c p ∧ ¬ Header k V p
  | .header t => ∃ c ∈ V.caches, t ∈ V.slabs c
  | .cache c => c ∈ V.caches
  | .record r => r ∈ V.records
  | .other b => b ∈ extra

/-- The item lies in the cell. -/
def Fills (k : Kmem) (V : View) (x : Item) : Cell → Prop
  | .slab _ t none => x = .header t
  | .slab c t (some i) => ∃ p, Slot k V c t i p ∧
    (x = .object c p ∧ ¬ Header k V p ∨ x = .header p ∧ Header k V p)
  | .record r none => x = .record r
  | .record r (some j) => x = .cache (slotAddr r j)
  | .other b => x = .other b

variable {k : Kmem} {V : View} {extra : List (Nat × Nat)} {x y : Item} {a : Cell} {c t p : Nat}

/-- A cell holds one item. -/
theorem Fills.unique (hx : x.Fills k V a) (hy : y.Fills k V a) : x = y := by
  cases a with
  | slab c t j =>
    cases j with
    | none => exact Eq.trans hx (Eq.symm hy)
    | some i =>
      obtain ⟨p, hp, hx⟩ := hx
      obtain ⟨p', hp', hy⟩ := hy
      obtain rfl : p = p' := by
        have := (Cell.range_slot hp).symm.trans (Cell.range_slot hp')
        exact (Prod.mk.inj this).1
      cases hx with
      | inl hx =>
        cases hy with
        | inl hy => exact hx.1.trans hy.1.symm
        | inr hy => exact absurd hy.2 hx.2
      | inr hx =>
        cases hy with
        | inl hy => exact absurd hx.2 hy.2
        | inr hy => exact hx.1.trans hy.1.symm
  | record r j =>
    cases j with
    | none => exact Eq.trans hx (Eq.symm hy)
    | some j => exact Eq.trans hx (Eq.symm hy)
  | other b => exact Eq.trans hx (Eq.symm hy)

/-- The header of a slab of buffers is as large as the object that holds it. -/
theorem header_size (h : k.Whole V extra) (hc : c ∈ V.caches) (htype : (k.cache c).type ≠ 0)
    (ht : t ∈ V.slabs c) :
    ∃ d ∈ V.caches, Live k V d t ∧ sizeofSlab + 4 * (k.slab t).numOfSlots = (k.cache d).slotSize := by
  obtain ⟨-, d, hdm, hd, hl⟩ := (h.placed c hc t ht).buffer htype
  refine ⟨d, hdm, hl, ?_⟩
  obtain ⟨g, hg⟩ := mem_slabsOf.1 ht
  rw [((h.reps c hc).filled g t hg).numOfSlots]
  cases h.classes.kind c hc with
  | inl ho => exact absurd ho.type htype
  | inr hb =>
    obtain ⟨i, hi⟩ := hb
    obtain ⟨hlt, hb⟩ := h.classes.buffer i c hi hc
    rw [hb.slotSize, getPowerOfTwo_pow hlt] at hd
    obtain ⟨-, -, -, hs⟩ := h.classes.descriptor i d hd hdm
    rw [hs, hb.objNum, Nat.mul_comm]

/-- Every item lies in a cell. -/
theorem In.cell (h : k.Whole V extra) (hx : x.In k V extra) :
    ∃ a : Cell, a.In k V extra ∧ x.Fills k V a ∧ Within (x.range k) (a.range k) := by
  cases x with
  | object c p =>
    obtain ⟨hc, hl, hnot⟩ := hx
    obtain ⟨t, i, hs, -⟩ := hl
    refine ⟨.slab c t (some i), ⟨hc, p, hs⟩, ⟨p, hs, .inl ⟨rfl, hnot⟩⟩, ?_⟩
    rw [Cell.range_slot hs]
    exact ⟨Nat.le_refl _, Nat.le_refl _⟩
  | header t =>
    obtain ⟨c, hc, ht⟩ := hx
    by_cases htype : (k.cache c).type = 0
    · refine ⟨.slab c t none, ⟨hc, ht, htype⟩, rfl, Nat.le_refl _, ?_⟩
      obtain ⟨g, hg⟩ := mem_slabsOf.1 ht
      simp only [Item.range, Cell.range, ((h.reps c hc).filled g t hg).numOfSlots, Nat.le_refl]
    · obtain ⟨d, hd, hl, hsize⟩ := header_size h hc htype ht
      obtain ⟨u, i, hs, -⟩ := hl
      refine ⟨.slab d u (some i), ⟨hd, t, hs⟩, ⟨t, hs, .inr ⟨rfl, c, hc, htype, ht⟩⟩, ?_⟩
      rw [Cell.range_slot hs]
      simp only [Within, Item.range, hsize, Nat.le_refl, and_self]
  | cache c =>
    obtain ⟨r, hr, j, hj, rfl, -⟩ := h.pool.used c hx
    exact ⟨.record r (some j), ⟨hr, hj⟩, rfl, Nat.le_refl _, Nat.le_refl _⟩
  | record r => exact ⟨.record r none, hx, rfl, Nat.le_refl _, Nat.le_refl _⟩
  | other b => exact ⟨.other b, hx, rfl, Nat.le_refl _, Nat.le_refl _⟩

/-- **Items do not overlap.** -/
theorem apart (h : k.Whole V extra) (hx : x.In k V extra) (hy : y.In k V extra) (hne : x ≠ y) :
    Apart (x.range k) (y.range k) := by
  obtain ⟨a, ha, hxa, hwx⟩ := hx.cell h
  obtain ⟨b, hb, hyb, hwy⟩ := hy.cell h
  have hab : a ≠ b := fun he => hne (hxa.unique (he ▸ hyb))
  exact (Cell.apart h.toInv ha hb hab).within hwx hwy

/-- An item lies in a block that the buddy allocator has handed out. -/
theorem In.block (h : k.Whole V extra) (hx : x.In k V extra) :
    ∃ b ∈ V.blocks k ++ extra, Within (x.range k) (blockRange b) := by
  obtain ⟨a, ha, -, hw⟩ := hx.cell h
  exact ⟨_, ha.block_mem, hw.trans (ha.within h.toInv)⟩

/-- Items lie in the memory of the buddy allocator. -/
theorem In.inside (h : k.Whole V extra) (hx : x.In k V extra) :
    Within (x.range k) (k.buddy.kernelStartAddr, 2 ^ 12 * blockSize) := by
  obtain ⟨b, hb, hw⟩ := hx.block h
  obtain ⟨-, n, hn, hle⟩ := h.buddy.inside hb
  apply hw.trans
  unfold Within blockRange blockSize at *
  simp only [hn]
  omega

/-- The buddy allocator's link in a free block, its first word, is in no item. -/
theorem In.apart_free {L : Nat → List Nat} {j f : Nat} (h : k.Whole V extra) (hx : x.In k V extra)
    (hL : Buddy.FreeLists k.buddy L) (hj : j ≤ 12) (hf : f ∈ L j) : Apart (x.range k) (f, 8) := by
  obtain ⟨b, hb, hw⟩ := hx.block h
  have hapart := h.buddy.free_apart hL hj hf hb
  have hpos := Nat.two_pow_pos j
  unfold Apart Within blockRange blockSize at *
  simp only at *
  omega

/-- A live object is an item, or the header of a slab of buffers and as large. -/
theorem of_live (h : k.Whole V extra) (hc : c ∈ V.caches) (hl : Live k V c p) :
    (Item.object c p).In k V extra ∨
      (Item.header p).In k V extra ∧ (Item.header p).range k = (p, (k.cache c).slotSize) := by
  by_cases hh : Header k V p
  · right
    obtain ⟨c', hc', htype, ht⟩ := hh
    obtain ⟨d, hd, hl', hsize⟩ := header_size h hc' htype ht
    obtain ⟨u, i, hs, -⟩ := hl
    obtain ⟨u', i', hs', -⟩ := hl'
    obtain ⟨rfl, -⟩ := h.slot_unique hc hd hs hs'
    exact ⟨⟨c', hc', ht⟩, by simp only [Item.range, hsize]⟩
  · exact .inl ⟨hc, hl, hh⟩

end Item

namespace SlabClient.Inv

variable {s : SlabClient} {V : View} {extra : List (Nat × Nat)} {q : Nat × Nat}

/-- The clients' live objects are items. -/
theorem item_of_live (h : s.Inv V extra) (hq : q ∈ s.live) :
    (Item.object q.1 q.2).In s.kmem V extra := by
  have hc := h.owner q hq
  obtain ⟨hcm, -, hd⟩ := h.user q.1 hc
  have hl := (h.live q.1 hc q.2).1 hq
  exact ⟨hcm, hl, h.whole.not_header hcm hd hl⟩

/-- The live buffers are items, large enough for the size asked for. -/
theorem item_of_buffer (h : s.Inv V extra) (hq : q ∈ s.buffers) :
    ∃ c, s.kmem.memoryBuffers (getPowerOfTwo q.2) = some c ∧
      (Item.object c q.1).In s.kmem V extra ∧ q.2 ≤ (s.kmem.cache c).slotSize := by
  obtain ⟨hmin, hmax, c, hc, hl⟩ := h.buffer q hq
  have hcm := h.whole.buffers _ c hc
  have hnot := h.whole.not_header hcm (fun _ => h.whole.classes.not_descriptor hc hcm) hl
  refine ⟨c, hc, ⟨hcm, hl, hnot⟩, ?_⟩
  rw [(h.whole.classes.buffer _ c hc hcm).2.slotSize]
  exact (getPowerOfTwo_spec hmin hmax).2.1

end SlabClient.Inv

end SlabKernel
